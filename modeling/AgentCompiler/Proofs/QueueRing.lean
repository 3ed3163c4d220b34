import AgentCompiler.Lowering.Plan
import AgentCompiler.Proofs.RunPieces
import AgentCompiler.Service.Queue

/-!
A queue in memory and what its two services do to it.

The header of a queue holds the index of the oldest entry and the number of entries; entry `i`
behind the oldest stands at the `i`-th place after it, counted round the ring. `RingAt` says that a
region of memory holds a list of pending messages in this way.
-/

namespace AgentCompiler

open Process Function Memory Service Condition Address
open Plan (queueSize)
open Register (rax rcx rdx rsi rdi r8)
open BitVec (ofNat)

/-- A message that waits: the number of its schema and the address of its payload. -/
structure Pending where
  schema : Word
  payload : Word

variable {e : Pending} {rest : List Pending}

/-- The place of the entry that many behind the oldest. -/
def ringIndex (cap head offset : Nat) : Nat :=
  if head + offset < cap then head + offset else head + offset - cap

structure RingAt (cap : Nat) (queue : Word) (m : Memory) (head : Nat)
    (entries : List Pending) : Prop where
  head_lt : head < cap
  length_le : entries.length ≤ cap
  first : m.word queue 0 = ofNat 64 head
  count : m.word queue 8 = ofNat 64 entries.length
  entry : ∀ i e, entries[i]? = some e → m.word queue (16 + 16 * ringIndex cap head i) = e.schema ∧
    m.word queue (24 + 16 * ringIndex cap head i) = e.payload

def QueueAt (cap : Nat) (queue : Word) (m : Memory) (entries : List Pending) : Prop :=
  ∃ head, RingAt cap queue m head entries

structure SlotAt (slot : Word) (m : Memory) (e : Pending) : Prop where
  active : m.word slot 0 = 1
  schema : m.word slot 8 = e.schema
  payload : m.word slot 16 = e.payload

section

variable {cap head i j : Nat}

lemma ringIndex_lt (inside : head < cap) (short : i ≤ cap) : ringIndex cap head i < cap := by
  unfold ringIndex
  split <;> omega

lemma ringIndex_zero (inside : head < cap) : ringIndex cap head 0 = head := by
  simp [ringIndex, inside]

lemma ringIndex_ne (order : i < j) (short : j < cap) :
    ringIndex cap head i ≠ ringIndex cap head j := by
  unfold ringIndex
  split <;> split <;> omega

lemma ringIndex_next (inside : head < cap) (short : i + 1 < cap) :
    ringIndex cap (ringIndex cap head 1) i = ringIndex cap head (i + 1) := by
  unfold ringIndex
  split <;> split <;> split <;> omega

end

section

variable {cap : Nat} {queue slot : Word} {m n : Memory} {head : Nat} {entries : List Pending}

lemma queueSize_eq (cap : Nat) : queueSize cap = 16 + cap * 16 := rfl

lemma queueSize_le (fits : cap ≤ 65536) : queueSize cap ≤ UInt64.size := by
  simp only [queueSize_eq, UInt64.size]
  omega

lemma RingAt.congr (ring : RingAt cap queue m head entries)
    (fits : cap ≤ 65536) (same : Set.EqOn n m (cells queue (queueSize cap))) :
    RingAt cap queue n head entries := by
  have size := queueSize_eq cap
  have space := queueSize_le fits
  refine ⟨ring.head_lt, ring.length_le, ?_, ?_, fun i e found => ?_⟩
  · rw [word_congr same (by omega) space, ring.first]
  · rw [word_congr same (by omega) space, ring.count]
  · have inside := (List.getElem?_eq_some_iff.1 found).1
    have place := ringIndex_lt ring.head_lt (inside.le.trans ring.length_le)
    rw [word_congr same (by omega) space, word_congr same (by omega) space]
    exact ring.entry i e found

lemma RingAt.empty (positive : 0 < cap) (fits : cap ≤ 65536)
    (zeros : ∀ x ∈ cells queue (queueSize cap), m x = 0) : RingAt cap queue m 0 [] := by
  have size := queueSize_eq cap
  have space := queueSize_le fits
  have word {offset : Nat} (inside : offset + 8 ≤ queueSize cap) : m.word queue offset = 0 :=
    load_of_zeros fun x near => zeros x (cells_subset inside space near)
  exact ⟨positive, Nat.zero_le _, word (by omega), word (by omega), by simp⟩

lemma RingAt.append (ring : RingAt cap queue m head entries) (fits : cap ≤ 65536)
    (room : entries.length < cap) (v w : Word) {n : Memory}
    (wrote : n = ((m.put queue (16 + 16 * ringIndex cap head entries.length) v).put queue
      (24 + 16 * ringIndex cap head entries.length) w).put queue 8
      (ofNat 64 (entries.length + 1))) :
    RingAt cap queue n head (entries ++ [⟨v, w⟩]) ∧ Set.EqOn n m
        (cells queue (queueSize cap))ᶜ := by
  subst wrote
  have place := ringIndex_lt ring.head_lt room.le
  have size : UInt64.size = 18446744073709551616 := rfl
  refine ⟨⟨ring.head_lt, by simp; omega, ?_, by simp, fun i e found => ?_⟩, ?_⟩
  · simp (disch := omega) only [word_put_of_apart, ring.first]
  · rcases lt_trichotomy i entries.length with old | rfl | beyond
    · rw [List.getElem?_append_left old] at found
      have here := ringIndex_lt ring.head_lt (old.le.trans ring.length_le)
      have other : ringIndex cap head i ≠ ringIndex cap head entries.length := ringIndex_ne old room
      simp (disch := omega) only [word_put_of_apart]
      exact ring.entry i e found
    · obtain rfl : ⟨v, w⟩ = e := by simpa using found
      simp (disch := omega) only [word_put_of_apart, word_put_self, and_self]
    · rw [List.getElem?_eq_none (by simp; omega)] at found
      cases found
  · have whole := queueSize_eq cap
    have space := queueSize_le fits
    exact ((put_eqOn (by omega) space _ _).trans (put_eqOn (by omega) space _ _)).trans
      (put_eqOn (by omega) space _ _)

lemma RingAt.tail (ring : RingAt cap queue m head (e :: rest)) (fits : cap ≤ 65536) {n : Memory}
    (wrote : n = (m.put queue 0 (ofNat 64 (ringIndex cap head 1))).put queue 8
      (ofNat 64 rest.length)) :
    RingAt cap queue n (ringIndex cap head 1) rest ∧ Set.EqOn n m
        (cells queue (queueSize cap))ᶜ := by
  subst wrote
  have short : rest.length + 1 ≤ cap := ring.length_le
  have next := ringIndex_lt ring.head_lt (show 1 ≤ cap by omega)
  have size : UInt64.size = 18446744073709551616 := rfl
  refine ⟨⟨next, by omega, ?_, by simp, fun i other found => ?_⟩, ?_⟩
  · simp (disch := omega) only [word_put_of_apart, word_put_self]
  · have inside := (List.getElem?_eq_some_iff.1 found).1
    have place := ringIndex_lt next (show i ≤ cap by omega)
    simp (disch := omega) only [word_put_of_apart]
    rw [ringIndex_next ring.head_lt (by omega)]
    exact ring.entry (i + 1) other (by simpa using found)
  · have whole := queueSize_eq cap
    have space := queueSize_le fits
    exact (put_eqOn (by omega) space _ _).trans (put_eqOn (by omega) space _ _)

lemma SlotAt.congr (holds : SlotAt slot m e) (same : Set.EqOn n m (cells slot slotSize)) :
    SlotAt slot n e := by
  have word {offset : Nat} (inside : offset + 8 ≤ slotSize) : n.word slot offset =
      m.word slot offset :=
    word_congr same inside (by decide)
  exact ⟨(word (by decide)).trans holds.active, (word (by decide)).trans holds.schema,
    (word (by decide)).trans holds.payload⟩

lemma SlotAt.put (slot : Word) (m : Memory) (e : Pending) :
    SlotAt slot (((m.put slot 8 e.schema).put slot 16 e.payload).put slot 0 1) e ∧
      Set.EqOn (((m.put slot 8 e.schema).put slot 16 e.payload).put slot 0 1) m
      (cells slot slotSize)ᶜ := by
  have small : slotSize = 24 := rfl
  have narrow : slotSize ≤ UInt64.size := by decide
  have size : UInt64.size = 18446744073709551616 := rfl
  refine ⟨⟨word_put_self _ _ _ _, ?_, ?_⟩,
    ((put_eqOn (by omega) narrow _ _).trans (put_eqOn (by omega) narrow _ _)).trans
    (put_eqOn (by omega) narrow _ _)⟩
  all_goals simp (disch := omega) only [word_put_of_apart, word_put_self]

lemma QueueAt.congr (ring : QueueAt cap queue m entries)
    (fits : cap ≤ 65536) (same : Set.EqOn n m (cells queue (queueSize cap))) :
    QueueAt cap queue n entries :=
  ring.imp fun _ ring => ring.congr fits same

end

section

lemma toNat_ofNat_of_lt {n : Nat} (small : n < UInt64.size) : (ofNat 64 n).toNat = n :=
  Nat.mod_eq_of_lt small

lemma entry_address (queue : Word) (index offset : Nat) :
    queue + ofNat 64 index <<< 4 + ofNat 64 offset = queue + ofNat 64 (offset + 16 * index) := by
  have shifted : ofNat 64 index <<< 4 = ofNat 64 (16 * index) := by
    apply BitVec.eq_of_toNat_eq
    simp only [BitVec.toNat_shiftLeft, BitVec.toNat_ofNat, Nat.shiftLeft_eq]
    omega
  rw [shifted, BitVec.add_assoc, BitVec.add_comm (ofNat 64 _), ← BitVec.ofNat_add]

lemma ofNat_succ (n : Nat) : ofNat 64 n + 1#64 = ofNat 64 (n + 1) := (BitVec.ofNat_add n 1).symm

lemma ofInt_toInt_ofNat {n : Nat} (small : n ≤ maxInt32) :
    BitVec.ofInt 64 (Int32.ofNat n).toInt = ofNat 64 n := by
  have bound : n < 0x80000000 := by
    simp only [maxInt32] at small
    omega
  rw [Int32.toInt_ofNat_of_lt bound, BitVec.ofInt_natCast]

lemma ofNat_sub {n k : Nat} (order : k ≤ n) : ofNat 64 n - ofNat 64 k = ofNat 64 (n - k) := by
  rw [BitVec.sub_eq_iff_eq_add, ← BitVec.ofNat_add, Nat.sub_add_cancel order]

lemma holds_b_index {index cap : Nat} (small : index < UInt64.size) (fits : cap < UInt64.size) :
    b.holds (AluOp.cmp.flags (ofNat 64 index) (ofNat 64 cap)) =
      some (decide (index < cap)) := by
  rw [holds_b_cmp, toNat_ofNat_of_lt small, toNat_ofNat_of_lt fits]

end

section

variable {P : Process} {cap k head : Nat} {queue : Word} {message : SymbolId}
  {inRange overflow : Label} {s : Machine} {entries : List Pending} {c : Config}
  (distinct : P.HasDistinctLabels) (placed : P.Holds k (enqueueCode cap message inRange overflow))
  (fits : cap ≤ 65536) (mapped : ∀ x ∈ cells queue (queueSize cap), P.mapped x)
  (ring : RingAt cap queue s.memory head entries) (here : s.regs rdi = queue)
include placed fits mapped ring here

lemma enqueue_compares : ∃ t, Leads P.Goes (· ∉ [rax, rcx]) (cells queue (queueSize cap)) ⟨k + 1, s⟩
    ⟨k + 4, t⟩ ∧ t.memory = s.memory ∧ t.regs = putAll s.regs [(rax, ofNat 64 entries.length)] ∧
    ae.holds t.flags = some (decide (cap ≤ entries.length)) := by
  have size := queueSize_eq cap
  have read := read_word mapped (show 8 + 8 ≤ queueSize cap by omega) (queueSize_le fits) s
  have full : ae.holds (AluOp.cmp.flags (ofNat 64 entries.length) (ofNat 64 cap)) =
      some (decide (cap ≤ entries.length)) := by
    have short := ring.length_le
    have word : UInt64.size = 18446744073709551616 := rfl
    rw [holds_ae_cmp, toNat_ofNat_of_lt (by omega), toNat_ofNat_of_lt (by omega)]
  exact (Leads.refl _).stores placed (Q := fun flags =>
    ae.holds flags = some (decide (cap ≤ entries.length))) [.label enqueue.label,
    .move rax (near rdi 8), .arith .cmp rax (Int64.ofNat cap)] [(rax, _)] _ rfl rfl
    (by simp) (fun _ _ => rfl) (by simp [here, read, ring.count, full])

include distinct

lemma enqueue_overflows (full : entries.length = cap) :
    ∃ t, P.Flows ⟨k + 1, s⟩ ⟨k + 17, t⟩ ∧ t.memory = s.memory := by
  obtain ⟨t, leads, memory, -, taken⟩ := enqueue_compares placed fits mapped ring here
  rw [decide_eq_true full.ge] at taken
  exact ⟨t, (leads.branches placed rfl (.inl rfl) taken
    (labelPosition_of_at distinct (placed.get (i := 17) rfl))).reaches, memory⟩

lemma enqueue_finds (counted : s.regs rax = ofNat 64 entries.length)
    (leads : Leads P.Goes (· ∉ [rax, rcx]) (cells queue (queueSize cap)) c ⟨k + 5, s⟩) :
    ∃ t, Leads P.Goes (· ∉ [rax, rcx]) (cells queue (queueSize cap)) c ⟨k + 10, t⟩ ∧
      t.memory = s.memory ∧ t.regs = putAll s.regs
      [(rcx, ofNat 64 (ringIndex cap head entries.length))] := by
  have size := queueSize_eq cap
  have read : P.read s queue .qword = some (s.memory.word queue 0) := by
    simpa using read_word mapped (show 0 + 8 ≤ queueSize cap by omega) (queueSize_le fits) s
  have below : b.holds (AluOp.cmp.flags (ofNat 64 (head + entries.length)) (ofNat 64 cap)) =
      some (decide (head + entries.length < cap)) := by
    have inside := ring.head_lt
    have short := ring.length_le
    have word : UInt64.size = 18446744073709551616 := rfl
    exact holds_b_index (by omega) (by omega)
  obtain ⟨t, leads, memory, regs, flags⟩ := leads.stores placed
    (Q := fun flags => b.holds flags = some (decide (head + entries.length < cap)))
    [.move rcx (deref rdi), .arith .add rcx rax, .arith .cmp rcx (Int64.ofNat cap)]
    [(rcx, ofNat 64 (head + entries.length))] _ rfl rfl (by simp) (fun _ _ => rfl)
    (by simp [here, read, ring.first, counted, ← BitVec.ofNat_add, below])
  rw [ringIndex]
  split
  next ahead =>
    rw [decide_eq_true ahead] at flags
    exact ⟨t, leads.branches placed rfl (.inr rfl) flags
      (labelPosition_of_at distinct (placed.get (i := 10) rfl)), memory, regs⟩
  next ahead =>
    rw [decide_eq_false ahead] at flags
    obtain ⟨u, leads, memory', regs'⟩ := (leads.passes placed rfl (.inr rfl) flags).turns placed
      [.arith .sub rcx (Int64.ofNat cap)] [(rcx, ofNat 64 (head + entries.length - cap))] rfl rfl
      (by simp) (by simp [regs, ofNat_sub (not_lt.1 ahead)])
    exact ⟨u, leads, memory'.trans memory, by simp [regs', regs]⟩

lemma enqueue_appends (room : entries.length < cap) :
    ∃ t, Leads P.Goes (· ∉ [rax, rcx]) (cells queue (queueSize cap)) ⟨k + 1, s⟩ ⟨k + 16, t⟩ ∧
      RingAt cap queue t.memory head (entries ++ [⟨s.regs rsi, s.regs rdx⟩]) := by
  have size := queueSize_eq cap
  have space := queueSize_le fits
  have place := ringIndex_lt ring.head_lt room.le
  obtain ⟨t, leads, memory, regs, passed⟩ := enqueue_compares placed fits mapped ring here
  rw [decide_eq_false (not_le.2 room)] at passed
  rw [← memory] at ring
  obtain ⟨u, leads, memory1, regs1⟩ := enqueue_finds distinct placed fits mapped ring
    (by simp [regs, here]) (by simp [regs]) (leads.passes placed rfl (.inl rfl) passed)
  rw [← memory1] at ring
  obtain ⟨appended, same⟩ := ring.append fits room (s.regs rsi) (s.regs rdx) rfl
  have schema := write_word mapped (show 16 + 16 * ringIndex cap head entries.length + 8 ≤
    _ by omega) space
  have payload := write_word mapped (show 24 + 16 * ringIndex cap head entries.length + 8 ≤
    _ by omega) space
  have header := write_word mapped (show 8 + 8 ≤ queueSize cap by omega) space
  obtain ⟨v, leads, memory2, -⟩ := leads.stores placed (Q := fun _ => True)
    [.label inRange, .shift .shl (.reg rcx) (.imm 4), .move (indexed rdi rcx 16) rsi,
      .move (indexed rdi rcx 24) rdx, .arith .add rax (.imm 1), .move (near rdi 8) rax]
    [(rcx, ofNat 64 (ringIndex cap head entries.length) <<< 4),
      (rax, ofNat 64 (entries.length + 1))] _ rfl rfl (by simp) same
    (by
      simp only [execute_cons, effect_label, effect_shift_imm]
      simp [ShiftOp.result, regs1, regs, here, entry_address, schema, payload, header, ofNat_succ])
  exact ⟨v, leads, memory2 ▸ appended⟩

end

section

variable {P : Process} {cap k head : Nat} {queue slot : Word} {empty inRange : Label}
  {s : Machine} {entries : List Pending} {c : Config} {written : Set Word}
  (distinct : P.HasDistinctLabels) (placed : P.Holds k (dequeueCode cap empty inRange))
  (fits : cap ≤ 65536) (mapped : ∀ x ∈ cells queue (queueSize cap), P.mapped x)
  (here : s.regs rdi = queue)

include placed

include fits mapped here in
lemma dequeue_tests (ring : RingAt cap queue s.memory head entries) :
    ∃ t, Leads P.Goes (· ∉ [rax, rcx, rdx, r8]) written ⟨k + 1, s⟩ ⟨k + 4, t⟩ ∧
      t.memory = s.memory ∧ t.regs = putAll s.regs [(rax, ofNat 64 entries.length)] ∧
      Condition.e.holds t.flags = some (decide (entries = [])) := by
  have size := queueSize_eq cap
  have read := read_word mapped (show 8 + 8 ≤ queueSize cap by omega) (queueSize_le fits) s
  have short : entries.length < UInt64.size := by
    have := ring.length_le
    simp only [UInt64.size]
    omega
  have isZero : (ofNat 64 entries.length == 0#64) = decide (entries = []) := by
    rw [Bool.eq_iff_iff, beq_iff_eq, decide_eq_true_eq, ← BitVec.toNat_inj,
      toNat_ofNat_of_lt short, BitVec.toNat_zero, List.length_eq_zero_iff]
  exact (Leads.refl _).stores placed (Q := fun flags => Condition.e.holds flags = some
    (decide (entries = []))) [.label dequeue.label, .move rax (near rdi 8), .check rax] [(rax, _)] _
    rfl rfl (by simp) (fun _ _ => rfl) (by simp [here, read, ring.count, ← isZero])

include distinct in
lemma dequeue_moves (fits : cap ≤ 65536) (below : head < cap)
    (leads : Leads P.Goes (· ∉ [rax, rcx, rdx, r8]) written c ⟨k + 15, s⟩)
    (flags : s.flags = AluOp.cmp.flags (ofNat 64 (head + 1)) (ofNat 64 cap))
    (next : s.regs rcx = ofNat 64 (head + 1)) :
    ∃ t, Leads P.Goes (· ∉ [rax, rcx, rdx, r8]) written c ⟨k + 17, t⟩ ∧ t.memory = s.memory ∧
      t.regs = putAll s.regs [(rcx, ofNat 64 (ringIndex cap head 1))] := by
  have ahead : b.holds s.flags = some (decide (head + 1 < cap)) := by
    have word : UInt64.size = 18446744073709551616 := rfl
    rw [flags, holds_b_index (by omega) (by omega)]
  rw [ringIndex]
  split
  next inside =>
    rw [decide_eq_true inside] at ahead
    refine ⟨s, leads.branches placed rfl (.inr rfl) ahead
        (labelPosition_of_at distinct (placed.get (i := 17) rfl)), rfl, ?_⟩
    simp [← next]
  next outside =>
    rw [decide_eq_false outside] at ahead
    have last : head + 1 - cap = 0 := by omega
    exact (leads.passes placed rfl (.inr rfl) ahead).turns placed [.zero rcx] [(rcx, _)] rfl rfl
      (by simp) (by simp [last])

variable (open_slot : ∀ x ∈ cells slot slotSize, P.mapped x)
  (apart : Disjoint (cells queue (queueSize cap)) (cells slot slotSize)) (there : s.regs rsi = slot)

include fits mapped here open_slot apart there in
lemma dequeue_copies (ring : RingAt cap queue s.memory head (e :: rest))
    (leads : Leads P.Goes (· ∉ [rax, rcx, rdx, r8]) (cells queue (queueSize cap) ∪ cells slot
    slotSize) c ⟨k + 5, s⟩) :
    ∃ t, Leads P.Goes (· ∉ [rax, rcx, rdx, r8]) (cells queue (queueSize cap) ∪ cells slot slotSize)
      c ⟨k + 15, t⟩ ∧ t.memory = ((s.memory.put slot 8 e.schema).put slot 16 e.payload).put
      slot 0 1 ∧ t.regs = putAll s.regs [(rcx, ofNat 64 head), (rdx, ofNat 64 head <<< 4),
        (r8, e.payload), (rcx, ofNat 64 (head + 1))] ∧
      t.flags = AluOp.cmp.flags (ofNat 64 (head + 1)) (ofNat 64 cap) := by
  have size := queueSize_eq cap
  have space := queueSize_le fits
  have below := ring.head_lt
  have small : slotSize = 24 := rfl
  have narrow : slotSize ≤ UInt64.size := by decide
  have oldest := ring.entry 0 e rfl
  rw [ringIndex_zero below] at oldest
  have index : P.read s queue .qword = some (s.memory.word queue 0) := by
    simpa using read_word mapped (show 0 + 8 ≤ queueSize cap by omega) space s
  have schema := read_word mapped (show 16 + 16 * head + 8 ≤ queueSize cap by omega) space
  have payload := read_word mapped (show 24 + 16 * head + 8 ≤ queueSize cap by omega) space
  -- The slot is written between the two reads, and shares no cell with the queue.
  have again : (s.memory.put slot 8 e.schema).word queue (24 + 16 * head) = e.payload := by
    rw [← oldest.2]
    refine word_congr (fun x inside => ?_) (show 24 + 16 * head + 8 ≤ queueSize cap by omega) space
    exact put_eqOn (by omega) narrow s.memory e.schema (Set.disjoint_left.1 apart inside)
  have active (t : Machine) (v : Word) : P.write t slot .qword v = some
      { t with memory := t.memory.put slot 0 v } := by
    simpa using write_word open_slot (show 0 + 8 ≤ slotSize by omega) narrow t v
  have second := write_word open_slot (show 8 + 8 ≤ slotSize by omega) narrow
  have third := write_word open_slot (show 16 + 8 ≤ slotSize by omega) narrow
  exact leads.stores placed (Q := fun flags => flags = AluOp.cmp.flags (ofNat 64 (head + 1))
    (ofNat 64 cap)) [.move rcx (deref rdi), .move rdx rcx, .shift .shl (.reg rdx) (.imm 4),
      .move r8 (indexed rdi rdx 16), .move (near rsi 8) r8, .move r8 (indexed rdi rdx 24),
      .move (near rsi 16) r8, .move (deref rsi) (.imm 1), .arith .add rcx (.imm 1), .arith .cmp rcx
      (Int64.ofNat cap)] _ _ rfl rfl (by simp)
    ((SlotAt.put slot s.memory e).2.mono (Set.compl_subset_compl.2 Set.subset_union_right))
    (by simp [ShiftOp.result, here, there, index, ring.first, entry_address, schema, payload,
      oldest.1, again, second, third, active, ofNat_succ])

include distinct fits mapped here

lemma dequeue_passes (ring : RingAt cap queue s.memory head []) :
    ∃ t, Leads P.Goes (· ∉ [rax, rcx, rdx, r8]) written ⟨k + 1, s⟩ ⟨k + 22, t⟩ ∧
        t.memory = s.memory := by
  obtain ⟨t, leads, memory, -, isEmpty⟩ := dequeue_tests placed fits mapped here ring
  obtain ⟨u, leads, memory', -⟩ := (leads.branches placed rfl (.inl rfl) isEmpty
    (labelPosition_of_at distinct (placed.get (i := 21) rfl))).turns placed [.label empty] [] rfl
    rfl (by simp) (by simp)
  exact ⟨u, leads, memory'.trans memory⟩

include open_slot apart there

lemma dequeue_takes (ring : RingAt cap queue s.memory head (e :: rest)) :
    ∃ t, Leads P.Goes (· ∉ [rax, rcx, rdx, r8]) (cells queue (queueSize cap) ∪ cells slot slotSize)
        ⟨k + 1, s⟩ ⟨k + 22, t⟩ ∧
      RingAt cap queue t.memory (ringIndex cap head 1) rest ∧ SlotAt slot t.memory e := by
  have size := queueSize_eq cap
  have space := queueSize_le fits
  obtain ⟨filled, inSlot⟩ := SlotAt.put slot s.memory e
  obtain ⟨moved, inQueue⟩ := (ring.congr fits (inSlot.mono (Set.disjoint_left.1 apart))).tail fits
    rfl
  obtain ⟨t, leads, memory, regs, isEmpty⟩ := dequeue_tests placed fits mapped here ring
  obtain ⟨u, leads, memory1, regs1, flags⟩ := dequeue_copies placed fits mapped
    (by simp [regs, here]) open_slot apart (by simp [regs, there]) (memory ▸ ring)
    (leads.passes placed rfl (.inl rfl) (by simpa using isEmpty))
  obtain ⟨v, leads, memory2, regs2⟩ := dequeue_moves distinct placed fits ring.head_lt leads flags
    (by simp [regs1])
  have first (t : Machine) (v : Word) : P.write t queue .qword v = some
      { t with memory := t.memory.put queue 0 v } := by
    simpa using write_word mapped (show 0 + 8 ≤ queueSize cap by omega) space t v
  have second := write_word mapped (show 8 + 8 ≤ queueSize cap by omega) space
  have fewer := ofNat_sub (Nat.le_add_left 1 rest.length)
  rw [← memory, ← memory1, ← memory2] at moved inQueue filled
  obtain ⟨w, leads, memory3, -⟩ := leads.stores placed (Q := fun _ => True)
    [.label inRange, .move (deref rdi) rcx, .arith .sub rax (.imm 1), .move (near rdi 8) rax,
    .label empty] [(rax, ofNat 64 rest.length)] _ rfl rfl (by simp)
    (inQueue.mono (Set.compl_subset_compl.2 Set.subset_union_left))
    (by simp [regs2, regs1, regs, here, first, second, fewer])
  exact ⟨w, leads, memory3 ▸ moved, memory3 ▸ filled.congr
    (inQueue.mono (Set.disjoint_right.1 apart))⟩

end

end AgentCompiler
