import AgentCompiler.Proofs.BoundedQueue
import AgentCompiler.Proofs.ByteStrings
import AgentCompiler.Proofs.CallTraces

/-!
A block that fits is taken from the heap: the cursor moves up by the size of the block, rounded to a
multiple of sixteen, and the block is filled with zeros. Only the cursor and the block are written
to. A block that does not fit ends the program.
-/

namespace AgentCompiler

open Service Process BitVec Set Register Memory
open Register (rax rcx rdx rsp rsi rdi r8)
open BitVec (ofNat)

namespace Condition

@[simp] lemma holds_a_cmp (x y : Word) : a.holds (AluOp.cmp.flags x y) = some
    (decide (y.toNat < x.toNat)) := by
  have zero : (x - y == 0) = decide (x.toNat = y.toNat) := by
    rw [beq_eq_decide, decide_eq_decide, toNat_inj]
    exact ⟨fun same => by bv_omega, fun same => by simp [same]⟩
  change some (!(decide (x.toNat < y.toNat) || x - y == 0)) = _
  rw [zero, ← Bool.decide_or, ← decide_not]
  congr 2
  rw [eq_iff_iff]
  omega

end Condition

lemma toNat_and_mask (x : Word) : (x &&& 0xFFFFFFFFFFFFFFF0#64).toNat = x.toNat / 16 * 16 := by
  have shifts : x &&& 0xFFFFFFFFFFFFFFF0#64 = (x >>> 4) <<< 4 := by
    have mask : ∀ i < 64, (0xFFFFFFFFFFFFFFF0#64).getLsbD i = decide (4 ≤ i) := by decide
    refine eq_of_getLsbD_eq fun i inside => ?_
    rw [getLsbD_and, getLsbD_shiftLeft, getLsbD_ushiftRight, mask i inside]
    by_cases low : i < 4
    · simp [low, not_le.2 low]
    · have high := not_lt.1 low
      simp [low, high, inside]
  have bound := x.isLt
  rw [shifts, toNat_shiftLeft, toNat_ushiftRight, Nat.shiftRight_eq_div_pow, Nat.shiftLeft_eq]
  omega

lemma toNat_add_ofNat {a : Word} {n : Nat} (below : a.toNat + n < UInt64.size) :
    (a + ofNat 64 n).toNat = a.toNat + n := by
  rw [toNat_add, toNat_ofNat, Nat.add_mod_mod]
  exact Nat.mod_eq_of_lt below

lemma alignUp_sixteen (size : Nat) : alignUp size 16 = (size + 15) / 16 * 16 := by
  rw [alignUp_eq_mul (by decide), mul_comm]

@[simp] lemma Process.effect_and (P : Process) (r : Register) (src : Operand) (s : Machine) :
    P.effect (.arith .and (.reg r) src) s = (P.value s .qword src).map fun b =>
      ({ s with flags := AluOp.and.flags (s.regs r) b } : Machine).set r
        (s.regs r &&& b) := effect_arith (by decide) r src s

lemma Process.effect_repStosb {P : Process} {s : Machine} {target : Word} {size : Nat}
    (here : s.regs rdi = target) (count : (s.regs rcx).toNat = size)
    (mapped : ∀ x ∈ cells target size, P.mapped x) :
    P.effect .repStosb s = some { (s.set rdi (target + s.regs rcx)).set rcx 0 with
      memory := s.memory.write target (List.replicate size (UInt8.ofNat (s.regs rax).toNat)) } := by
  subst here count
  exact if_pos (P.allows_of_mapped mapped)

structure Process.HasHeap (P : Process) (heapSize : Nat) : Prop where
  distinct : P.HasDistinctLabels
  allocate : ∃ k message full, P.Holds k (allocateCode Pool.heap Pool.heapCursor message
    heapSize full)
  fillBytes : ∃ k, P.Holds k fillBytesCode
  small : heapSize ≤ Settings.maxHeapSize
  below : (P.symbolAt Pool.heap).toNat + heapSize < UInt64.size
  mapped : ∀ x ∈ cells (P.symbolAt Pool.heap) heapSize, P.mapped x
  cursor : ∀ x ∈ cells (P.symbolAt Pool.heapCursor) 8, P.mapped x
  apart : Disjoint (cells (P.symbolAt Pool.heapCursor) 8) (cells (P.symbolAt Pool.heap) heapSize)

def Process.heapCells (P : Process) (heapSize : Nat) : Set Word :=
  cells (P.symbolAt Pool.heapCursor) 8 ∪ cells (P.symbolAt Pool.heap) heapSize

def Process.takenCells (P : Process) (used size : Nat) : Set Word :=
    cells (P.symbolAt Pool.heapCursor) 8 ∪ cells (P.symbolAt Pool.heap + ofNat 64 used)
    (alignUp size 16)

/-- Where the next block starts when so many bytes of the heap are taken. -/
def Process.blockAt (P : Process) (used : Nat) : Word := P.symbolAt Pool.heap + ofNat 64 used

def Process.HasTaken (P : Process) (used : Nat) (m : Memory) : Prop :=
  m.word (P.symbolAt Pool.heapCursor) 0 = P.symbolAt Pool.heap + ofNat 64 used

lemma Process.HasTaken.congr {P : Process} {used : Nat} {m n : Memory} (taken : P.HasTaken used m)
    (same : EqOn n m (cells (P.symbolAt Pool.heapCursor) 8)) : P.HasTaken used n :=
  (word_congr same (by decide) (by decide)).trans taken

/-- Control is where the service that takes blocks stops the program, with the message that it has
for this case. -/
def Process.IsExhausted (P : Process) (heapSize : Nat) (c : Config) : Prop :=
  ∃ k message full, P.Holds k (allocateCode Pool.heap Pool.heapCursor message heapSize full) ∧
    c.position = k + 19 ∧ c.machine.regs rdi = P.symbolAt message

lemma Process.IsExhausted.at_abort {P : Process} {heapSize : Nat} {c : Config}
    (exhausted : P.IsExhausted heapSize c) : P.code[c.position]? = some (.call abort.label) := by
  obtain ⟨k, message, full, placed, position, -⟩ := exhausted
  rw [position]
  exact placed.get (i := 19) rfl

namespace Process.HasHeap

variable {P : Process} {heapSize used size : Nat} (heap : P.HasHeap heapSize)
  (fits : used + alignUp size 16 ≤ heapSize)
include heap fits

lemma block_subset : cells (P.blockAt used) (alignUp size 16) ⊆ cells
    (P.symbolAt Pool.heap) heapSize := by
  have below := heap.below
  exact cells_subset fits (by omega)

lemma taken_subset : P.takenCells used size ⊆ P.heapCells heapSize :=
  union_subset_union_right _ (heap.block_subset fits)

end Process.HasHeap

section

variable {P : Process} {heapSize used size k back : Nat} {s : Machine}

lemma rounded_size (small : size + 15 < UInt64.size) :
    (ofNat 64 size + 15#64) &&& 0xFFFFFFFFFFFFFFF0#64 = ofNat 64 (alignUp size 16) := by
  have sum : (ofNat 64 size + 15#64).toNat = size + 15 := by
    simp only [UInt64.size] at small
    bv_omega
  apply eq_of_toNat_eq
  rw [toNat_and_mask, sum, alignUp_sixteen, toNat_ofNat_of_lt (by omega)]

section

variable {message : SymbolId} {full : Label} {W : Set Word} (heap : P.HasHeap heapSize)
  (placed : P.Holds k (allocateCode Pool.heap Pool.heapCursor message heapSize full))
  (taken : P.HasTaken used s.memory) (asked : s.regs rdi = ofNat 64 size)

include placed asked in
lemma allocate_compares_size (narrow : size < UInt64.size) (narrow' : heapSize < UInt64.size) :
    ∃ t, Leads P.Goes (IsKept []) W ⟨k + 1, s⟩ ⟨k + 3, t⟩ ∧ t.memory = s.memory ∧
      t.regs = s.regs ∧ Condition.a.holds t.flags = some (decide (heapSize < size)) :=
  (Leads.refl _).stores placed (Q := fun flags => Condition.a.holds flags = some
    (decide (heapSize < size))) [.label allocate.label, .arith .cmp rdi (Int64.ofNat heapSize)] [] _
    rfl rfl (by simp) (fun _ _ => rfl) (by simp [asked, Condition.holds_a_cmp,
    toNat_ofNat_of_lt narrow, toNat_ofNat_of_lt narrow', -toNat_ofNat])

include heap placed taken asked

lemma allocate_compares_end (most : size ≤ heapSize)
    (below : (P.symbolAt Pool.heap).toNat + (used + alignUp size 16) < UInt64.size) :
    ∃ t, Leads P.Goes (IsKept []) W ⟨k + 1, s⟩ ⟨k + 10, t⟩ ∧ t.memory = s.memory ∧
      t.regs = putAll s.regs [(rdi, ofNat 64 (alignUp size 16)), (rax, P.blockAt used),
        (rcx, P.blockAt (used + alignUp size 16)), (rdx, P.blockAt heapSize)] ∧
      Condition.a.holds t.flags = some (decide (heapSize < used + alignUp size 16)) := by
  have cursor : s.memory.word (P.symbolAt Pool.heapCursor) 0 = P.blockAt used := taken
  have small := heap.small
  simp only [Settings.maxHeapSize] at small
  obtain ⟨t, leads, memory, regs, compared⟩ := allocate_compares_size placed asked
    (by simp only [UInt64.size]; omega) (by simp only [UInt64.size]; omega)
  rw [decide_eq_false (by omega)] at compared
  have read := read_word heap.cursor (show 0 + 8 ≤ 8 by decide) (by decide)
  simp only [BitVec.add_zero] at read
  have rounded := rounded_size (show size + 15 < UInt64.size by simp only [UInt64.size]; omega)
  have last : P.symbolAt Pool.heap + BitVec.ofInt 64 ((heapSize : Int).bmod Int32.size) =
      P.blockAt heapSize := by
    rw [← Int32.toInt_ofNat', ofInt_toInt_ofNat (by simp only [maxInt32]; omega), blockAt]
  have ends : P.blockAt used + ofNat 64 (alignUp size 16) = P.blockAt (used + alignUp size 16) := by
    rw [blockAt, BitVec.add_assoc, ← ofNat_add, blockAt]
  obtain ⟨u, leads, memory', regs'⟩ := (leads.passes placed rfl (.inl rfl) compared).turns placed
    [.arith .add rdi (.imm 15), .arith .and rdi (.imm (-16))]
    [(rdi, ofNat 64 (alignUp size 16))] rfl rfl (by simp +decide) (by simp [regs, asked, rounded])
  have passes : (P.blockAt heapSize).toNat < (P.blockAt (used + alignUp size 16)).toNat ↔
      heapSize < used + alignUp size 16 := by
    rw [blockAt, blockAt, toNat_add_ofNat heap.below, toNat_add_ofNat below]
    omega
  obtain ⟨v, leads, memory'', regs'', flags⟩ := leads.stores placed
    (Q := fun flags => Condition.a.holds flags = some (decide (heapSize < used + alignUp size 16)))
    [.move rax (Address.symbol Pool.heapCursor 0), .lea rcx (.indexed rax rdi 0),
      .lea rdx (.symbol Pool.heap (Int32.ofNat heapSize)), .arith .cmp rcx rdx]
    [(rax, P.blockAt used), (rcx, P.blockAt (used + alignUp size 16)), (rdx, P.blockAt heapSize)]
      _ rfl rfl
    (by simp +decide) (fun _ _ => rfl)
    (by simp [read, memory', memory, regs', cursor, last, ends, passes])
  exact ⟨v, leads, memory''.trans (memory'.trans memory), by simp [regs'', regs', regs], flags⟩

lemma allocate_refuses (narrow : size < UInt64.size) (full : heapSize < used + alignUp size 16)
    (below : (P.symbolAt Pool.heap).toNat + (used + heapSize + 16) ≤ UInt64.size) :
    ∃ t, Leads P.Goes (IsKept []) W ⟨k + 1, s⟩ ⟨k + 16, t⟩ ∧ t.memory = s.memory := by
  have small := heap.small
  simp only [Settings.maxHeapSize] at small
  have target := labelPosition_of_at heap.distinct (placed.get (i := 16) rfl)
  by_cases most : size ≤ heapSize
  · have near : alignUp size 16 < size + 16 := alignUp_lt (by decide)
    obtain ⟨t, leads, memory, -, compared⟩ := allocate_compares_end heap placed taken asked most
      (by omega)
    rw [decide_eq_true full] at compared
    exact ⟨t, leads.branches placed rfl (.inl rfl) compared target, memory⟩
  · obtain ⟨t, leads, memory, -, compared⟩ := allocate_compares_size placed asked narrow
      (by simp only [UInt64.size]; omega)
    rw [decide_eq_true (not_le.1 most)] at compared
    exact ⟨t, leads.branches placed rfl (.inl rfl) compared target, memory⟩

end

lemma fillBytes_clears {target : Word} {c : Config} {written : Set Word}
    (placed : P.Holds k fillBytesCode) (leads : Leads P.Goes (IsKept []) written c ⟨k + 1, s⟩)
    (here : s.regs rdi = target) (zero : s.regs rsi = 0) (count : s.regs rdx = ofNat 64 size)
    (narrow : size < UInt64.size) (mapped : ∀ x ∈ cells target size, P.mapped x)
    (sub : cells target size ⊆ written) :
    ∃ t, Leads P.Goes (IsKept []) written c ⟨k + 7, t⟩ ∧ t.regs rax = target ∧
      t.memory = s.memory.write target (List.replicate size 0) := by
  obtain ⟨t, leads, memory, regs⟩ := leads.turns placed
    [.label fillBytes.label, .move r8 rdi, .move rax rsi, .move rcx rdx]
    [(r8, target), (rax, 0), (rcx, ofNat 64 size)] rfl rfl (by simp +decide)
    (by simp [here, zero, count])
  have fills := effect_repStosb (s := t) (by simp [regs, here])
    (by simp [regs, Nat.mod_eq_of_lt narrow]) mapped
  have wrote := write_eqOn t.memory target (List.replicate size 0)
  rw [List.length_replicate] at wrote
  obtain ⟨u, leads, memory', regs', -⟩ := leads.stores placed (Q := fun _ => True)
    [.repStosb, .move rax r8] [(rdi, target + ofNat 64 size), (rcx, 0), (rax, target)] _ rfl rfl
    (by simp +decide) (wrote.mono (compl_subset_compl.2 sub)) (by simp [fills, regs])
  exact ⟨u, leads, by simp [regs'], memory' ▸ memory ▸ rfl⟩

section

variable {c : Config} (heap : P.HasHeap heapSize) (entered : P.Entered allocate.label back c)
  (taken : P.HasTaken used c.machine.memory) (asked : c.machine.regs rdi = ofNat 64 size)
include heap entered taken asked

/-- Who asks for a block that does not fit gets to the call that stops the program, and memory is as
it was. -/
lemma allocate_panics (narrow : size < UInt64.size) (full : heapSize < used + alignUp size 16)
    (below : (P.symbolAt Pool.heap).toNat + (used + heapSize + 16) ≤ UInt64.size) :
    ∃ d, P.Flows c d ∧ P.IsExhausted heapSize d ∧ d.machine.memory = c.machine.memory := by
  obtain ⟨k, message, failed, placed⟩ := heap.allocate
  have position := entered.position_eq heap.distinct (placed.get (i := 1) rfl)
  obtain ⟨s, leads, memory⟩ := allocate_refuses (W := ∅) heap placed taken asked narrow full below
  obtain ⟨t, onward, same, text⟩ : ∃ t, P.Flows ⟨k + 16, s⟩ ⟨k + 19, t⟩ ∧ t.memory = s.memory ∧
      t.regs rdi = P.symbolAt message :=
    placed.flows [.label failed, .arith .sub rsp (.imm 8), .lea rdi (.symbol message 0)] rfl rfl
      (by simp)
  rw [← position] at leads
  exact ⟨_, leads.reaches.trans onward, ⟨k, message, failed, placed, rfl, text⟩, same.trans memory⟩

lemma allocate_returns (fits : used + alignUp size 16 ≤ heapSize)
    (apart : Disjoint (cells (c.machine.regs rsp) Width.qword.bytes) (P.heapCells heapSize)) :
    ∃ t, P.Returns c ⟨back, t⟩ ∧ t.regs rsp = c.machine.regs rsp + 8 ∧
      (∀ r, r.isCalleeSaved → t.regs r = c.machine.regs r) ∧ t.regs rax = P.blockAt used ∧
      P.HasTaken (used + alignUp size 16) t.memory ∧
      (∀ x ∈ cells (P.blockAt used) (alignUp size 16), t.memory x = 0) ∧
      EqOn t.memory c.machine.memory (P.takenCells used size)ᶜ := by
  obtain ⟨k, message, full, placed⟩ := heap.allocate
  obtain ⟨j, fill⟩ := heap.fillBytes
  have position := entered.position_eq heap.distinct (placed.get (i := 1) rfl)
  have least := le_alignUp size 16
  have below := heap.below
  have inBlock := heap.block_subset fits
  obtain ⟨s, leads, memory, regs, compared⟩ :=
    allocate_compares_end (W := P.takenCells used size) heap placed taken asked (by omega)
      (by omega)
  rw [decide_eq_false (not_lt.2 fits)] at compared
  have write (u : Machine) (v : Word) : P.write u (P.symbolAt Pool.heapCursor) .qword v =
      some { u with memory := u.memory.put (P.symbolAt Pool.heapCursor) 0 v } := by
    simpa using write_word heap.cursor (show 0 + 8 ≤ 8 by decide) (by decide) u v
  obtain ⟨t, leads, memory', regs', -⟩ := (leads.passes placed rfl (.inl rfl) compared).stores
    placed (Q := fun _ => True)
    [.move (Address.symbol Pool.heapCursor 0) rcx, .move rdx rdi, .move rdi rax, .zero rsi]
    [(rdx, ofNat 64 (alignUp size 16)), (rdi, P.blockAt used), (rsi, 0)]
    (s.memory.put (P.symbolAt Pool.heapCursor) 0 (P.blockAt (used + alignUp size 16))) rfl rfl
    (by simp +decide) ((put_eqOn (by decide) (by decide) _ _).mono
    (compl_subset_compl.2 subset_union_left)) (by simp [write, regs])
  obtain ⟨u, leads, result, wrote⟩ := fillBytes_clears fill
    (leads.jumps placed (i := 15) rfl (.inl rfl) (labelPosition_of_at heap.distinct
    (fill.get (i := 1) rfl))) (by simp [regs'] : _ = P.blockAt used)
    (by simp [regs']) (by simp [regs']) (by omega) (fun x near => heap.mapped x (inBlock near))
    subset_union_right
  rw [← position] at leads
  have returns := entered.leads_back (fill.get (i := 7) rfl) leads (.inl rfl)
    (apart.mono_right (heap.taken_subset fits)).symm
  refine ⟨_, returns, by simp, fun r saved => ?_, by simpa using result, ?_, fun x near => ?_,
    leads.memory⟩
  · have other : r ≠ rsp := by
      rintro rfl
      cases saved
    rw [Machine.set_regs, Function.update_of_ne other]
    exact leads.saved r saved List.not_mem_nil
  · change u.memory.word _ 0 = _
    have outside := write_eqOn t.memory (P.blockAt used) (List.replicate (alignUp size 16) 0)
    rw [List.length_replicate, ← wrote] at outside
    rw [word_congr (outside.mono fun x near written => disjoint_left.1 heap.apart near
      (inBlock written)) (by decide) (by decide), memory', word_put_self, blockAt]
  · have inside := near
    rw [Machine.set_memory, wrote, Memory.write, List.getElem?_replicate_of_lt inside,
      Option.getD_some]

end

section

variable (heap : P.HasHeap heapSize) (follows : P.Follows k allocate.label s)
  (apart : Disjoint (stackCells (s.regs rsp)) (P.heapCells heapSize))
  (asked : s.regs rdi = ofNat 64 size) (taken : P.HasTaken used s.memory)
include heap follows apart asked taken

lemma allocate_entered : ∃ j, P.labelPosition allocate.label = some j ∧
    P.Entered allocate.label (k + 1) ⟨j, P.entering k s⟩ ∧ P.HasTaken used (P.entering k s).memory ∧
    (P.entering k s).regs rdi = ofNat 64 size := by
  obtain ⟨_, message, full, placed⟩ := heap.allocate
  have target := labelPosition_of_at heap.distinct (placed.get (i := 1) rfl)
  have unpushed : EqOn (P.entering k s).memory s.memory (cells (P.symbolAt Pool.heapCursor) 8) :=
    fun x near => P.entering_eqOn k s fun inStack => disjoint_left.1 apart inStack (.inl near)
  exact ⟨_, target, follows.entered target, taken.congr unpushed,
    (P.entering_regs (by decide)).trans asked⟩

lemma allocate_answers (fits : used + alignUp size 16 ≤ heapSize) :
    ∃ t, P.Answers k allocate.label s t ∧ s.Preserves t ∧
      t.regs rax = P.blockAt used ∧ P.HasTaken (used + alignUp size 16) t.memory ∧
      (∀ x ∈ cells (P.blockAt used) (alignUp size 16), t.memory x = 0) ∧
      EqOn t.memory s.memory (stackCells (s.regs rsp) ∪ P.takenCells used size)ᶜ := by
  obtain ⟨j, target, entered, taken', asked'⟩ := allocate_entered heap follows apart asked taken
  obtain ⟨t, returns, top, kept, block, taken'', zeros, same⟩ := allocate_returns heap entered
    taken' asked' fits (by rwa [P.entering_rsp])
  obtain ⟨answers, preserves⟩ := follows.answers target returns top kept
  refine ⟨t, answers, preserves, block, taken'', zeros, fun x away => ?_⟩
  rw [compl_union] at away
  exact (same away.2).trans (P.entering_eqOn k s away.1)

lemma allocate_exhausts (narrow : size < UInt64.size) (full : heapSize < used + alignUp size 16)
    (below : (P.symbolAt Pool.heap).toNat + (used + heapSize + 16) ≤ UInt64.size) :
    ∃ c d, P.step ⟨k, s⟩ = some c ∧ P.Flows c d ∧ P.IsExhausted heapSize d := by
  obtain ⟨j, target, entered, taken', asked'⟩ := allocate_entered heap follows apart asked taken
  obtain ⟨d, flows, exhausted, -⟩ := allocate_panics heap entered taken' asked' narrow full below
  exact ⟨_, d, step_call follows.at_call follows.inside follows.stack target, flows, exhausted⟩

end

end

end AgentCompiler
