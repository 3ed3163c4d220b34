import AgentCompiler.Object.Section
import AgentCompiler.Proofs.ByteStrings

/-!
A data section over its history. Room is handed out at the least fitting offset behind what there
is, so ranges never overlap and what was stored stays as it is. A section without bytes counts as
one with bytes would.
-/

namespace AgentCompiler

open List

namespace DataSection

inductive Request
  | append (content : Bytes) (align : Nat)
  | reserve (count align : Nat)

namespace Request

def align : Request → Nat
  | append _ align | reserve _ align => align

def content : Request → Bytes
  | append content _ => content
  | reserve count _ => List.replicate count 0

def length (r : Request) : Nat := r.content.length

def IsAligned (r : Request) : Prop := r.align = 0 ∨ r.align.isPowerOfTwo

/-- Where a section of some size ends with the range. -/
def extend (size : Nat) (r : Request) : Nat := alignUp size r.align + r.length

end Request

def grant (s : DataSection) : Request → Nat × DataSection
  | .append content align => s.append content align
  | .reserve count align => s.reserve count align

def after (s : DataSection) (requests : List Request) : DataSection := requests.foldl
    (fun s r => (s.grant r).2) s

def range (kind : SectionKind) (earlier : List Request) (r : Request) : Set Nat :=
  let offset := (((empty kind).after earlier).grant r).1
  Set.Ico offset (offset + r.length)

/-- What is handed out in a section of a kind. -/
structure HandsOut (kind : SectionKind) (requests : List Request) : Prop where
  /-- Alignments zero and one leave the offset where it is. -/
  least : ∀ earlier r later, requests = earlier ++ r :: later →
    IsLeast {n | max r.align 1 ∣ n ∧ ((empty kind).after earlier).size ≤ n}
    (((empty kind).after earlier).grant r).1
  disjoint : ∀ earlier r middle r' later, requests = earlier ++ r :: middle ++ r' :: later →
    Disjoint (range kind earlier r) (range kind (earlier ++ r :: middle) r')
  inside : ∀ earlier r later, requests = earlier ++ r :: later →
    (((empty kind).after earlier).grant r).1 + r.length ≤ ((empty kind).after requests).size
  bytes : kind ≠ .bss → ((empty kind).after requests).bytes.length =
    ((empty kind).after requests).size
  /-- Appended bytes or reserved zeros, and zeros in front of them. -/
  holds : kind ≠ .bss → ∀ earlier r later, requests = earlier ++ r :: later →
    let s := (empty kind).after earlier
    slice ((empty kind).after requests).bytes (s.grant r).1 ((s.grant r).1 + r.length) = r.content ∧
      slice ((empty kind).after requests).bytes s.size (s.grant r).1 = List.replicate
      ((s.grant r).1 - s.size) 0
  lacks : kind = .bss → ((empty kind).after requests).bytes = []
  offsets : ∀ other earlier r later, requests = earlier ++ r :: later →
    (((empty kind).after earlier).grant r).1 = (((empty other).after earlier).grant r).1
  sizes : ∀ other, ((empty kind).after requests).size = ((empty other).after requests).size
  align : ((empty kind).after requests).align = (requests.map Request.align).foldl max 16

variable {s : DataSection} {r : Request} {kind : SectionKind}
  {requests earlier later : List Request} {size : Nat}

lemma size_of_bytes (h : s.kind ≠ .bss) : s.size = s.bytes.length := by
  unfold DataSection.size
  split
  · contradiction
  · rfl

lemma nextOffset_eq {align : Nat} (fits : alignUp s.size align < UInt64.size) :
    s.nextOffset align = alignUp s.size align := by
  unfold nextOffset
  split
  · exact toWord_eq_self fits
  · rfl

lemma grant_of_bss (bss : s.kind = .bss) (fits : r.extend s.size < UInt64.size) :
    s.grant r = (alignUp s.size r.align,
      { s with reserved := r.extend s.size, align := max s.align r.align }) := by
  have offset := nextOffset_eq ((Nat.le_add_right _ r.length).trans_lt fits)
  have finish : toWord (alignUp s.size r.align + r.length) = r.extend s.size := toWord_eq_self fits
  cases r with
  | append content align => simp_all [grant, append, Request.align, Request.length, Request.content]
  | reserve count align => simp_all [grant, reserve, Request.align, Request.length, Request.content]

lemma grant_of_bytes (bytes : s.kind ≠ .bss) (fits : r.extend s.size < UInt64.size) : s.grant r =
    (alignUp s.size r.align, { s with
      bytes := s.bytes ++ List.replicate (alignUp s.size r.align - s.size) 0 ++ r.content
      align := max s.align r.align }) := by
  have offset := nextOffset_eq ((Nat.le_add_right _ r.length).trans_lt fits)
  have finish : toWord (alignUp s.size r.align + r.length) = alignUp s.size r.align + r.length :=
    toWord_eq_self fits
  have whole := size_of_bytes bytes
  have room : s.bytes.length ≤ alignUp s.size r.align := whole ▸ le_alignUp _ _
  cases r with
  | append content align =>
    have padded := resize_of_length_le room
    cases kind : s.kind <;> simp_all [grant, append, Request.align, Request.content]
  | reserve count align =>
    have padded := resize_of_length_le (room.trans (Nat.le_add_right _ count))
    rw [Nat.sub_add_comm room, replicate_add, ← append_assoc] at padded
    cases kind : s.kind <;> simp_all [grant, reserve, Request.align, Request.length,
      Request.content]

/-- A section after some requests, in a state before them. -/
structure Extends (s : DataSection) (requests : List Request) (t : DataSection) : Prop where
  kind : t.kind = s.kind
  size : t.size = requests.foldl Request.extend s.size
  align : t.align = (requests.map Request.align).foldl max s.align
  bytes : s.kind ≠ .bss → s.bytes <+: t.bytes
  lacks : s.kind = .bss → t.bytes = s.bytes

lemma le_extends (size : Nat) (requests : List Request) :
    size ≤ requests.foldl Request.extend size := by
  induction requests generalizing size with
  | nil => exact le_rfl
  | cons r rest ih => exact (Nat.le_trans (le_alignUp _ _) le_self_add).trans (ih _)

lemma grant_extends (fits : r.extend s.size < UInt64.size) : s.Extends [r] (s.grant r).2 := by
  by_cases bss : s.kind = .bss
  · rw [grant_of_bss bss fits]
    constructor <;> simp [DataSection.size, bss]
  · rw [grant_of_bytes bss fits]
    refine ⟨rfl, ?_, rfl, fun _ => by simp, fun is => absurd is bss⟩
    have room := le_alignUp s.size r.align
    rw [size_of_bytes bss] at room ⊢
    rw [size_of_bytes (by exact bss)]
    simp [Request.extend, Request.length]
    omega

lemma Extends.trans {t u : DataSection} (first : s.Extends earlier t) (second : t.Extends later u) :
    s.Extends (earlier ++ later) u where
  kind := second.kind.trans first.kind
  size := by rw [second.size, first.size, foldl_append]
  align := by rw [second.align, first.align, map_append, foldl_append]
  bytes is := (first.bytes is).trans (second.bytes (first.kind ▸ is))
  lacks is := (second.lacks (first.kind.trans is)).trans (first.lacks is)

lemma after_extends (fits : requests.foldl Request.extend s.size < UInt64.size) :
    s.Extends requests (s.after requests) := by
  induction requests generalizing s with
  | nil => exact ⟨rfl, rfl, rfl, fun _ => prefix_rfl, fun _ => rfl⟩
  | cons r rest ih =>
    -- Sizes only grow, so the bound on the last one is a bound on each.
    have first := grant_extends ((le_extends _ rest).trans_lt fits)
    exact first.trans (ih (by rwa [first.size]))

lemma after_append_cons : s.after (earlier ++ r :: later) =
    ((s.after earlier).grant r).2.after later := by
  simp [after]

lemma size_empty (kind : SectionKind) : (empty kind).size = 0 := by cases kind <;> rfl

lemma isLeast_alignUp_of_isAligned (aligned : r.IsAligned) (size : Nat) :
    IsLeast {n | max r.align 1 ∣ n ∧ size ≤ n} (alignUp size r.align) := by
  obtain zero | power := aligned
  · simp [zero, alignUp, IsLeast, lowerBounds]
  · rw [Nat.max_eq_left (Nat.pos_of_isPowerOfTwo power)]
    exact isLeast_alignUp (isPowerOfTwo_iff.2 power)

section

section

variable (small : requests.foldl Request.extend 0 < UInt64.size)
include small

lemma after_empty : (empty kind).Extends requests ((empty kind).after requests) :=
  after_extends (by rwa [size_empty])

lemma size_after : ((empty kind).after requests).size = requests.foldl Request.extend 0 := by
  rw [(after_empty small).size, size_empty]

end

variable (small : (earlier ++ r :: later).foldl Request.extend 0 < UInt64.size)
include small

lemma extend_lt : r.extend (earlier.foldl Request.extend 0) < UInt64.size := by
  rw [foldl_append] at small
  exact (le_extends _ later).trans_lt small

lemma size_before : ((empty kind).after earlier).size = earlier.foldl Request.extend 0 :=
  size_after ((le_extends _ [r]).trans_lt (extend_lt small))

lemma kind_before : ((empty kind).after earlier).kind = kind :=
  (after_empty ((le_extends _ [r]).trans_lt (extend_lt small))).kind

lemma grant_fits : r.extend ((empty kind).after earlier).size < UInt64.size :=
  size_before small ▸ extend_lt small

lemma offset_eq : (((empty kind).after earlier).grant r).1 = alignUp
    (earlier.foldl Request.extend 0) r.align := by
  rw [← size_before small]
  by_cases bss : ((empty kind).after earlier).kind = .bss
  · rw [grant_of_bss bss (grant_fits small)]
  · rw [grant_of_bytes bss (grant_fits small)]

lemma range_eq : range kind earlier r =
    Set.Ico (alignUp (earlier.foldl Request.extend 0) r.align)
    (r.extend (earlier.foldl Request.extend 0)) := by
  simp only [range, offset_eq small, Request.extend]

lemma holds_range (bytes : kind ≠ .bss) : ∃ tail,
    ((empty kind).after (earlier ++ r :: later)).bytes = ((empty kind).after earlier).bytes ++
      List.replicate ((((empty kind).after earlier).grant r).1 - ((empty kind).after earlier).size)
      0 ++ r.content ++ tail := by
  have made := grant_of_bytes (s := (empty kind).after earlier) (kind_before small ▸ bytes)
    (grant_fits small)
  have rest : (((empty kind).after earlier).grant r).2.Extends later
      ((empty kind).after (earlier ++ r :: later)) := by
    rw [after_append_cons]
    refine after_extends ?_
    rwa [(grant_extends (grant_fits small)).size, foldl_cons, foldl_nil, size_before small,
      ← foldl_cons,
      ← foldl_append]
  obtain ⟨tail, whole⟩ := rest.bytes (by rw [made]; exact kind_before small ▸ bytes)
  rw [← whole, made]
  exact ⟨tail, rfl⟩

end

/-- As long as its size does not wrap around, a section hands out aligned ranges, each behind the
ones before it, and keeps what they hold. -/
theorem section_hands_out (kind : SectionKind) {requests : List Request}
    (aligned : ∀ r ∈ requests, r.IsAligned)
    (small : requests.foldl Request.extend 0 < UInt64.size) : HandsOut kind requests where
  least := by
    rintro earlier r later rfl
    rw [offset_eq small, size_before small]
    exact isLeast_alignUp_of_isAligned (aligned r (by simp)) _
  disjoint := by
    rintro earlier r middle r' later rfl
    have first : (earlier ++ r :: (middle ++ r' :: later)).foldl Request.extend 0 <
        UInt64.size := by simpa using small
    rw [range_eq first, range_eq small, Set.disjoint_left]
    rintro x ⟨-, below⟩ ⟨above, -⟩
    -- The first range ends where the section did then, the second begins behind a later end.
    have order := le_extends (r.extend (earlier.foldl Request.extend 0)) middle
    have behind := le_alignUp ((earlier ++ r :: middle).foldl Request.extend 0) r'.align
    rw [List.foldl_append, List.foldl_cons] at above behind
    omega
  inside := by
    rintro earlier r later rfl
    rw [offset_eq small, size_after small, List.foldl_append]
    exact le_extends _ later
  bytes is := (size_of_bytes (by rwa [(after_empty small).kind])).symm
  holds is := by
    rintro earlier r later rfl s
    have start : s.bytes.length = s.size := (size_of_bytes (kind_before small ▸ is)).symm
    have order : s.size ≤ (s.grant r).1 := by
      rw [offset_eq small, size_before small]
      exact le_alignUp _ _
    obtain ⟨tail, whole⟩ := holds_range small is
    have stored := slice_append_middle (s.bytes ++ List.replicate ((s.grant r).1 - s.size) 0)
      r.content tail
    have padded := slice_append_middle s.bytes (List.replicate ((s.grant r).1 - s.size) 0)
      (r.content ++ tail)
    simp only [List.length_append, List.length_replicate, start, Nat.add_sub_cancel' order,
      ← List.append_assoc] at stored padded
    rw [whole]
    exact ⟨stored, padded⟩
  lacks is := (after_empty small).lacks is
  offsets := by
    rintro other earlier r later rfl
    rw [offset_eq small, offset_eq small]
  sizes other := by
    rw [size_after small, size_after small]
  align := (after_empty small).align

/-- Three bytes, a word behind them and zeros on a wider boundary. -/
theorem section_hands_out_mixed :
    HandsOut .rodata [.append [1, 2, 3] 0, .append [0, 0, 0, 0, 0, 0, 0, 1] 8, .reserve 5 32] :=
  section_hands_out .rodata (by
    simp [Request.IsAligned, Request.align, Nat.isPowerOfTwo]
    exact ⟨⟨3, rfl⟩, 5, rfl⟩) (by decide)

end DataSection

end AgentCompiler
