import AgentCompiler.Proofs.RefusedCode

/-!
Where assembled code stands. The layout gives every directive and instruction its offset by adding
up sizes, and the bytes are written afterwards; both count the same bytes. So labels are bound to
the offsets at which their positions end up, alignments end on their boundary, and every branch
holds the distance from its own end to its label.
-/

namespace AgentCompiler

open List Option Instruction

/-- Number of bytes put out for the first `k` directives and instructions of a stream. -/
def outputSize (names : Names) (code : List Instruction) (k : Nat) : Nat :=
  match Assembly.pieces names code with
  | .ok (pieces, _) => ((pieces.take k).flatMap (·.1)).length
  | .error _ => 0

lemma outputSize_mono (names : Names) (code : List Instruction) :
    Monotone (outputSize names code) := by
  apply monotone_nat_of_le_succ
  intro k
  unfold outputSize
  split
  · rw [take_add_one, flatMap_append, length_append]
    exact le_self_add
  · exact le_rfl

namespace Encoding

variable (e : Encoding) (delta : Int)

lemma slice_imm : slice (e.bytes delta) e.immOffset e.size = e.imm.bytes delta := by
  have h := slice_append_middle (e.head ++ e.disp.bytes) (e.imm.bytes delta) []
  simpa [bytes, size, immOffset, dispOffset] using h

lemma slice_head : slice (e.bytes delta) 0 e.dispOffset = e.head := by
  simp [slice, bytes, dispOffset]

lemma slice_disp : slice (e.bytes delta) e.dispOffset e.immOffset = e.disp.bytes := by
  have h := slice_append_middle e.head e.disp.bytes (e.imm.bytes delta)
  simpa [bytes, immOffset, dispOffset] using h

lemma slice_before_imm {stop : Nat} (h : stop ≤ e.immOffset) :
    slice (e.bytes delta) 0 stop = slice (e.bytes 0) 0 stop := by
  apply slice_congr
  intro x _ below
  have below : x < (e.head ++ e.disp.bytes).length := by
    simp only [length_append, Displacement.length_bytes]
    exact below.trans_le h
  rw [bytes, bytes, getElem?_append_left below, getElem?_append_left below]

end Encoding

namespace Assembly

variable {names : Names} {offset : Nat} {bound : LabelOffsets} {i : Instruction}
  {code : List Instruction} {placed : List Placed} {l : Label}
  {pieces : List (Bytes × List Relocation)}

section

variable {p : Placed} {delta : Int}

@[simp] lemma length_bytesOf (p : Placed) (delta : Int) : (bytesOf p delta).length = p.size := by
  unfold bytesOf Placed.size
  split <;> simp_all

lemma bytesOf_of_ne_align {e : Encoding} (differs : ∀ n, i ≠ .align n) (delta : Int) :
    bytesOf ⟨i, e, offset⟩ delta = e.bytes delta := by
  unfold bytesOf
  split
  next n hn => exact absurd hn (differs n)
  next => rfl

lemma next_of_ne_align {e : Encoding} (differs : ∀ n, i ≠ .align n) : Placed.next ⟨i, e, offset⟩ =
    offset + e.size := by
  unfold Placed.next Placed.size
  split
  next n hn => exact absurd hn (differs n)
  next => rfl

/-- What is known of the distance that is written: it is the one from the end of the branch to its
label, and its field can hold it. -/
lemma distance_cases (h : distance names bound p = .ok delta) :
      (p.encoding.imm.target? = none ∧ delta = 0) ∨ ∃ l bits goal, p.encoding.imm.target? = some
        (l, bits) ∧ bound.lookup l = some goal ∧ delta = goal - p.next ∧
        (if bits = 8 then fitsInt8 delta else fitsInt32 delta) = true := by
  unfold distance at h
  split at h
  next absent => exact .inl ⟨absent, (pure_ok.1 h).symm⟩
  next l bits target =>
    split at h
    next => simp at h
    next goal leads =>
      by_cases fits : (if bits = 8 then fitsInt8 (goal - p.next) else fitsInt32 (goal - p.next)) =
        true
      · rw [if_pos fits, pure_ok] at h
        subst h
        exact .inr ⟨l, bits, goal, target, leads, rfl, fits⟩
      · rw [if_neg fits] at h
        obtain ⟨_, -, h⟩ := bind_ok.1 h
        simp at h

lemma write_ok {piece : Bytes × List Relocation} (h : write names bound p = .ok piece) :
    ∃ delta, distance names bound p = .ok delta ∧ piece = (bytesOf p delta, relocationsOf p) := by
  obtain ⟨delta, hdelta, h⟩ := bind_ok.1 h
  exact ⟨delta, hdelta, (pure_ok.1 h).symm⟩

lemma consecutive_offset (cut : List.Forall₂ (fun p q => write names bound p = .ok q) placed pieces)
    (consecutive : Consecutive offset placed) {k : Nat} (found : placed[k]? = some p) :
    p.offset = offset + ((pieces.take k).flatMap (·.1)).length ∧
      p.next = offset + ((pieces.take (k + 1)).flatMap (·.1)).length := by
  induction cut generalizing offset k with
  | nil => simp at found
  | @cons q piece tail pieces writes _ ih =>
    obtain ⟨hoffset, more⟩ := consecutive
    obtain ⟨delta, -, rfl⟩ := write_ok writes
    have next : q.next = offset + q.size := by rw [Placed.next, hoffset]
    cases k with
    | zero =>
      obtain rfl : q = p := by simpa using found
      simp [hoffset, next]
    | succ k =>
      obtain ⟨start, ends⟩ := ih more (by simpa using found)
      simp only [take_succ_cons, flatMap_cons, length_append, length_bytesOf]
      omega

end

section

variable {imm : Immediate} {width : Nat} {delta : Int}

section

variable (h : imm.target? = some (l, 8 * width))
include h

lemma target_cases : (imm = .short l ∧ width = 1) ∨ (imm = .near l ∧ width = 4) := by
  cases imm with
  | short m =>
    obtain ⟨rfl, bits⟩ := Prod.mk.inj (some.inj h)
    exact .inl ⟨rfl, by omega⟩
  | near m =>
    obtain ⟨rfl, bits⟩ := Prod.mk.inj (some.inj h)
    exact .inr ⟨rfl, by omega⟩
  | none | byte v | dword v | qword v | address s v => simp [Immediate.target?] at h

lemma size_of_target : imm.size = width := by
  obtain ⟨rfl, rfl⟩ | ⟨rfl, rfl⟩ := target_cases h <;> rfl

lemma ofLittleEndianInt_of_fits
    (fits : (if 8 * width = 8 then fitsInt8 delta else fitsInt32 delta) = true) :
    ofLittleEndianInt (imm.bytes delta) = delta := by
  obtain ⟨rfl, rfl⟩ | ⟨rfl, rfl⟩ := target_cases h
  · simp only [fitsInt8, mul_one, ↓reduceIte, Bool.and_eq_true, decide_eq_true_eq] at fits
    rw [Immediate.bytes, ofLittleEndianInt_littleEndianInt]
    exact Int.bmod_eq_of_le (by simp [Nat.pow]; omega) (by simp [Nat.pow]; omega)
  · simp only [fitsInt32, Nat.reduceMul, Nat.reduceEqDiff, ↓reduceIte, Bool.and_eq_true,
      decide_eq_true_eq] at fits
    rw [Immediate.bytes, ofLittleEndianInt_littleEndianInt]
    exact Int.bmod_eq_of_le (by simp [Nat.pow]; omega) (by simp [Nat.pow]; omega)

end

end

section

variable {a : Assembly} {k : Nat} {p : Placed}

lemma flatMap_relocations (cut : List.Forall₂ (fun p q => write names bound p = .ok q) placed
    pieces) :
    pieces.flatMap (·.2) = placed.flatMap relocationsOf := by
  induction cut with
  | nil => rfl
  | cons writes _ ih =>
    obtain ⟨delta, -, rfl⟩ := write_ok writes
    rw [flatMap_cons, flatMap_cons, ih]

/-- What a stream was laid out as: each entry starts where the output has come to, and its bytes
are the next ones of the output. -/
structure IsLayout (names : Names) (code : List Instruction) (a : Assembly)
    (placed : List Placed) : Prop where
  placing : place names 0 [] code = .ok (placed, a.labels)
  relocations : a.relocations = placed.flatMap relocationsOf
  total : outputSize names code placed.length = a.bytes.length
  offset : ∀ {k p}, placed[k]? = some p → p.offset = outputSize names code k
  next : ∀ {k p}, placed[k]? = some p → p.next = outputSize names code (k + 1)
  bytes : ∀ {k p}, placed[k]? = some p → ∃ delta, distance names a.labels p = .ok delta ∧
    slice a.bytes (outputSize names code k) (outputSize names code (k + 1)) = bytesOf p delta

lemma exists_isLayout (h : assemble names code = .ok a) : ∃ placed,
    IsLayout names code a placed := by
  obtain ⟨⟨pieces, bound⟩, cut, h⟩ := bind_ok.1 h
  obtain rfl := pure_ok.1 h
  have size : ∀ k, outputSize names code k = ((pieces.take k).flatMap (·.1)).length := by
    intro k
    rw [outputSize, cut]
  obtain ⟨⟨placed, labels⟩, place, cut⟩ := bind_ok.1 cut
  obtain ⟨written, writes, cut⟩ := bind_ok.1 cut
  obtain ⟨rfl, rfl⟩ := Prod.mk.inj (pure_ok.1 cut)
  have writes := mapM_ok.1 writes
  have offsets := fun {k p} (found : placed[k]? = some p) =>
    consecutive_offset writes (place_sound place).2.1 found
  refine ⟨placed, place, flatMap_relocations writes, ?_, ?_, ?_, ?_⟩
  · rw [size, writes.length_eq, take_length]
  · intro k p found
    rw [(offsets found).1, size, zero_add]
  · intro k p found
    rw [(offsets found).2, size, zero_add]
  · intro k p found
    obtain ⟨piece, part, write⟩ := forall₂_getElem? writes found
    obtain ⟨delta, distance, rfl⟩ := write_ok write
    refine ⟨delta, distance, ?_⟩
    rw [size, size]
    exact slice_flatMap _ part

lemma IsLayout.entry (h : IsLayout names code a placed) (found : placed[k]? = some p) :
    code[k]? = some p.instruction ∧ p.IsSound := by
  obtain ⟨coded, -, sound⟩ := place_sound h.placing
  refine ⟨?_, sound p (mem_of_getElem? found)⟩
  rw [← coded, getElem?_map, found, map_some]

lemma IsLayout.exists_entry (h : IsLayout names code a placed) (found : code[k]? = some i) :
    ∃ e, i.encode = .ok e ∧ placed[k]? = some ⟨i, e, outputSize names code k⟩ := by
  obtain ⟨p, hp, hi⟩ : ∃ p, placed[k]? = some p ∧ p.instruction = i := by
    rw [← (place_sound h.placing).1, getElem?_map] at found
    exact map_eq_some_iff.1 found
  refine ⟨p.encoding, ?_, ?_⟩
  · rw [← hi, (h.entry hp).2.encoded]
  · rw [hp, ← hi, ← h.offset hp]

section

variable (h : assemble names code = .ok a)
include h

lemma outputSize_succ_le (found : code[k]? = some i) : outputSize names code
    (k + 1) ≤ a.bytes.length := by
  obtain ⟨placed, layout⟩ := exists_isLayout h
  obtain ⟨e, -, hp⟩ := layout.exists_entry found
  rw [← layout.total]
  exact outputSize_mono names code (List.getElem?_eq_some_iff.1 hp).1

lemma offset?_eq_some (l : Label) (n : Nat) :
    a.offset? l = some n ↔ ∃ k, code[k]? = some (.label l) ∧ outputSize names code k = n := by
  obtain ⟨placed, layout⟩ := exists_isLayout h
  rw [offset?, lookup_place layout.placing]
  constructor
  · rintro (absent | ⟨p, hp, label, rfl⟩)
    · simp at absent
    · obtain ⟨k, hk⟩ := getElem?_of_mem hp
      refine ⟨k, ?_, (layout.offset hk).symm⟩
      rw [(layout.entry hk).1, label]
  · rintro ⟨k, hk, rfl⟩
    obtain ⟨e, -, hp⟩ := layout.exists_entry hk
    exact .inr ⟨_, mem_of_getElem? hp, rfl, rfl⟩

/-- An alignment ends on the first multiple of its boundary, and traps fill it. -/
lemma align_row {n : Nat} (found : code[k]? = some (.align n)) :
    IsLeast {m | n ∣ m ∧ outputSize names code k ≤ m} (outputSize names code (k + 1)) ∧
      ∀ b ∈ slice a.bytes (outputSize names code k) (outputSize names code (k + 1)), b = 0xCC := by
  obtain ⟨placed, layout⟩ := exists_isLayout h
  obtain ⟨e, -, hp⟩ := layout.exists_entry found
  obtain ⟨delta, -, sliced⟩ := layout.bytes hp
  have le := le_alignUp (outputSize names code k) n
  have ends : outputSize names code (k + 1) = alignUp (outputSize names code k) n := by
    rw [← layout.next hp, Placed.next, Placed.size]
    dsimp only
    omega
  rw [sliced, ends]
  refine ⟨isLeast_alignUp ((layout.entry hp).2.aligned n rfl), ?_⟩
  intro b hb
  exact eq_of_mem_replicate hb

lemma instruction_row (found : code[k]? = some i) (differs : ∀ n, i ≠ .align n) :
    ∃ e delta, i.encode = .ok e ∧ outputSize names code (k + 1) = outputSize names code k + e.size ∧
      distance names a.labels ⟨i, e, outputSize names code k⟩ = .ok delta ∧
      ∀ x y, y ≤ e.size →
        slice a.bytes (outputSize names code k + x) (outputSize names code k + y) = slice
        (e.bytes delta) x y := by
  obtain ⟨placed, layout⟩ := exists_isLayout h
  obtain ⟨e, he, hp⟩ := layout.exists_entry found
  obtain ⟨delta, hdelta, sliced⟩ := layout.bytes hp
  have next := layout.next hp
  rw [next_of_ne_align differs] at next
  rw [bytesOf_of_ne_align differs] at sliced
  refine ⟨e, delta, he, next.symm, hdelta, ?_⟩
  intro x y hy
  rw [← sliced, slice_slice (by omega)]

lemma branch_row (found : code[k]? = some i) (known : i.target? = some l) : ∃ goal : Nat,
      a.offset? l = some goal ∧ ofLittleEndianInt
      (slice a.bytes (outputSize names code (k + 1) - i.distanceWidth)
        (outputSize names code (k + 1))) = goal - outputSize names code (k + 1) := by
  have differs : ∀ n, i ≠ .align n := by
    rintro n rfl
    simp [target?] at known
  obtain ⟨e, delta, he, next, distance, fields⟩ := instruction_row h found differs
  have target : e.imm.target? = some (l, 8 * i.distanceWidth) := by
    rw [(namesAs_encode he).target, known]
    rfl
  obtain ⟨absent, -⟩ | ⟨l', bits, goal, hsome, leads, value, fits⟩ := distance_cases distance
  · rw [target] at absent
    simp at absent
  obtain ⟨rfl, rfl⟩ := Prod.mk.inj (some.inj (target.symm.trans hsome))
  refine ⟨goal, leads, ?_⟩
  have size : e.size = e.immOffset + i.distanceWidth := by
    rw [Encoding.size, size_of_target target]
  have start : outputSize names code (k + 1) - i.distanceWidth = outputSize names code k +
      e.immOffset := by omega
  rw [next_of_ne_align differs, ← next] at value
  rw [start, next, fields _ _ le_rfl, Encoding.slice_imm,
    ofLittleEndianInt_of_fits target fits, value, next]

lemma encoding_row (found : code[k]? = some i) (differs : ∀ n, i ≠ .align n) :
    ∃ e, i.encode = .ok e ∧ outputSize names code (k + 1) = outputSize names code k + e.size ∧
      slice a.bytes (outputSize names code k) (outputSize names code (k + 1) - i.distanceWidth) =
        slice (e.bytes 0) 0 (e.size - i.distanceWidth) := by
  obtain ⟨e, delta, he, next, distance, fields⟩ := instruction_row h found differs
  refine ⟨e, he, next, ?_⟩
  have target := (namesAs_encode he).target
  have field := fields 0 (e.size - i.distanceWidth) (by omega)
  cases hl : i.target? with
  | none =>
    have distance : delta = 0 := by
      obtain ⟨-, zero⟩ | ⟨l, bits, goal, hsome, -⟩ := distance_cases distance
      · exact zero
      · simp [target, hl] at hsome
    have wide := distanceWidth_of_target_none hl
    rw [wide, distance] at field
    rwa [wide, next]
  | some l =>
    rw [hl] at target
    have size : e.size = e.immOffset + i.distanceWidth := by
      rw [Encoding.size, size_of_target target]
    have stop : outputSize names code (k + 1) - i.distanceWidth =
        outputSize names code k + (e.size - i.distanceWidth) := by omega
    rw [stop, ← e.slice_before_imm delta (by omega)]
    exact field

end

end

end Assembly

section

variable {names : Names} {code : List Instruction} {a : Assembly}

/-- Where an assembled stream has put everything: labels stand for the offsets of their positions,
alignments end on the first multiple of their boundary, branches hold the distance from their end
to their label, and all else is the encoding of each instruction. -/
theorem assemble_layout (h : assemble names code = .ok a) :
    (∀ l n, a.offset? l = some n ↔ ∃ k, code[k]? = some (.label l) ∧ outputSize names code k = n) ∧
    (∀ (l : Label) (j k : Nat),
      code[j]? = some (.label l) → code[k]? = some (.label l) → j = k) ∧
    (∀ k n, code[k]? = some (.align n) →
      IsLeast {m | n ∣ m ∧ outputSize names code k ≤ m} (outputSize names code (k + 1)) ∧
      ∀ b ∈ slice a.bytes (outputSize names code k) (outputSize names code (k + 1)), b = 0xCC) ∧
    (∀ k i l, code[k]? = some i → i.target? = some l →
      ∃ goal : Nat, a.offset? l = some goal ∧
        ofLittleEndianInt (slice a.bytes (outputSize names code (k + 1) - i.distanceWidth)
          (outputSize names code (k + 1))) = goal - outputSize names code (k + 1)) ∧
    (∀ k i, code[k]? = some i → (∀ n, i ≠ .align n) →
      ∃ e, i.encode = .ok e ∧ outputSize names code (k + 1) = outputSize names code k + e.size ∧
        slice a.bytes (outputSize names code k) (outputSize names code (k + 1) - i.distanceWidth) =
          slice (e.bytes 0) 0 (e.size - i.distanceWidth)) ∧
    outputSize names code code.length = a.bytes.length := by
  obtain ⟨placed, layout⟩ := Assembly.exists_isLayout h
  refine ⟨Assembly.offset?_eq_some h, ?_, ?_, ?_, ?_, ?_⟩
  · exact fun l j k => Assembly.label_position_unique layout.placing
  · exact fun k n => Assembly.align_row h
  · exact fun k i l => Assembly.branch_row h
  · exact fun k i => Assembly.encoding_row h
  · rw [← layout.total, ← (Assembly.place_sound layout.placing).1, List.length_map]

/-- A call forward over an alignment, and a short branch back. -/
theorem assemble_layout_loop :
    ∃ a, assemble ⟨fun _ => "", fun _ => pure ""⟩
        [.label ⟨0⟩, .call ⟨1⟩, .align 8, .label ⟨1⟩, .jccShort .ne ⟨0⟩] = .ok a ∧
      a.offset? ⟨0⟩ = some 0 ∧ a.offset? ⟨1⟩ = some 8 ∧ a.offset? ⟨2⟩ = none ∧
      ofLittleEndianInt (slice a.bytes 1 5) = 8 - 5 ∧ (∀ b ∈ slice a.bytes 5 8, b = 0xCC) ∧
      ofLittleEndianInt (slice a.bytes 9 10) = 0 - 10 := by
  have h : assemble ⟨fun _ => "", fun _ => pure ""⟩
      [.label ⟨0⟩, .call ⟨1⟩, .align 8, .label ⟨1⟩, .jccShort .ne ⟨0⟩] = .ok _ := rfl
  obtain ⟨labels, -, align, branch, -⟩ := assemble_layout h
  obtain ⟨forward, ahead, call⟩ := branch 1 (.call ⟨1⟩) ⟨1⟩ rfl rfl
  obtain ⟨back, behind, jcc⟩ := branch 4 (.jccShort .ne ⟨0⟩) ⟨0⟩ rfl rfl
  obtain rfl : 8 = forward := Option.some.inj ahead
  obtain rfl : 0 = back := Option.some.inj behind
  exact ⟨_, h, (labels ⟨0⟩ 0).2 ⟨0, rfl, rfl⟩, (labels ⟨1⟩ 8).2 ⟨3, rfl, rfl⟩, rfl, call,
    (align 2 8 rfl).2, jcc⟩

end

end AgentCompiler
