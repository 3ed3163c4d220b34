import AgentCompiler.Proofs.HeapBlocks

/-!
The heap over any number of calls. Blocks are handed out one behind the other, so that they share no
byte, and the cursor never leaves the heap. Between two calls the rest of the program may write to
the blocks and to everything else but the cursor.
-/

namespace AgentCompiler

open Register (rax rdi rsp)
open BitVec (ofNat)

structure Block where
  start : Word
  size : Nat

namespace Block

def cells (b : Block) : Set Word := AgentCompiler.cells b.start b.size

/-- Start and size are multiples of sixteen, and the block ends where the heap does at the latest.
-/
structure IsPlaced (b : Block) (heap : Word) (heapSize : Nat) : Prop where
  aligned : 16 ∣ b.start.toNat
  rounded : 16 ∣ b.size
  low : heap.toNat ≤ b.start.toNat
  high : b.start.toNat + b.size ≤ heap.toNat + heapSize

end Block

namespace Process

variable (P : Process)

def heapCursor (m : Memory) : Word := m.word (P.symbolAt Pool.heapCursor) 0

structure AsksFor (heapSize : Nat) (size : Word) (back : Nat) (c : Config) : Prop where
  entered : P.Entered Service.allocate.label back c
  asked : c.machine.regs rdi = size
  apart : Disjoint (cells (c.machine.regs rsp) Width.qword.bytes) (P.heapCells heapSize)

/-- The size is above that of the heap, or not enough of the heap is left for it. -/
def Exceeds (heapSize : Nat) (m : Memory) (size : Word) : Prop := heapSize < size.toNat ∨
    (P.symbolAt Pool.heap).toNat + heapSize - (P.heapCursor m).toNat < alignUp size.toNat 16

inductive HeapRun (heapSize : Nat) (first : Memory) : List Block → Memory → Prop
  | nil : HeapRun heapSize first [] first
  /-- Something else runs, and leaves the cursor alone. -/
  | elsewhere {blocks : List Block} {m n : Memory} (run : HeapRun heapSize first blocks m)
      (same : P.heapCursor n = P.heapCursor m) : HeapRun heapSize first blocks n
  | call {blocks : List Block} {size : Word} {back : Nat} {c d : Config}
      (run : HeapRun heapSize first blocks c.machine.memory) (asks : P.AsksFor heapSize size back c)
      (returns : P.Returns c d) :
      HeapRun heapSize first (blocks ++ [⟨d.machine.regs rax, alignUp size.toNat 16⟩])
        d.machine.memory

structure HasBlocks (heapSize : Nat) (blocks : List Block) (used : Nat) (m : Memory) : Prop where
  taken : P.HasTaken used m
  most : used ≤ heapSize
  aligned : 16 ∣ used
  inside : ∀ b ∈ blocks, ∃ offset, b.start = P.symbolAt Pool.heap + ofNat 64 offset ∧
    16 ∣ offset ∧ 16 ∣ b.size ∧ offset + b.size ≤ used
  apart : blocks.Pairwise fun a b => Disjoint a.cells b.cells

end Process

section

variable {P : Process} {heapSize used back : Nat} {first m : Memory} {blocks : List Block}
  {size : Word} {c d : Config}

lemma alignUp_dvd (n : Nat) : 16 ∣ alignUp n 16 := by
  rw [alignUp_sixteen]
  exact Nat.dvd_mul_left 16 _

namespace Process.HasBlocks

section

variable (blocksAt : P.HasBlocks heapSize blocks used m) (heap : P.HasHeap heapSize)
include blocksAt heap

lemma push {n : Memory} {size : Nat} (fits : used + alignUp size 16 ≤ heapSize)
    (taken : P.HasTaken (used + alignUp size 16) n) : P.HasBlocks heapSize
      (blocks ++ [⟨P.symbolAt Pool.heap + ofNat 64 used, alignUp size 16⟩])
      (used + alignUp size 16) n where
  taken := taken
  most := fits
  aligned := dvd_add blocksAt.aligned (alignUp_dvd size)
  inside := by
    simp only [List.forall_mem_append, List.forall_mem_singleton]
    refine ⟨fun b mem => ?_, used, rfl, blocksAt.aligned, alignUp_dvd size, le_rfl⟩
    obtain ⟨offset, start, aligned, rounded, within⟩ := blocksAt.inside b mem
    exact ⟨offset, start, aligned, rounded, within.trans le_self_add⟩
  apart := by
    rw [List.pairwise_append]
    refine ⟨blocksAt.apart, List.pairwise_singleton _ _, fun a mem b new => ?_⟩
    obtain rfl := List.mem_singleton.1 new
    obtain ⟨offset, start, -, -, within⟩ := blocksAt.inside a mem
    have below := heap.below
    rw [Block.cells, start]
    exact disjoint_cells within (by dsimp only; omega)

lemma cursor : (P.heapCursor m).toNat = (P.symbolAt Pool.heap).toNat + used := by
  have below := heap.below
  have most := blocksAt.most
  rw [heapCursor, blocksAt.taken]
  exact toNat_add_ofNat (by omega)

lemma isPlaced (aligned : 16 ∣ (P.symbolAt Pool.heap).toNat) {b : Block} (mem : b ∈ blocks) :
    b.IsPlaced (P.symbolAt Pool.heap) heapSize := by
  obtain ⟨offset, start, multiple, rounded, within⟩ := blocksAt.inside b mem
  have below := heap.below
  have most := blocksAt.most
  have place : b.start.toNat = (P.symbolAt Pool.heap).toNat + offset := by
    rw [start]
    exact toNat_add_ofNat (by omega)
  refine ⟨place ▸ dvd_add aligned multiple, rounded, ?_, ?_⟩ <;> omega

lemma exceeds_iff : P.Exceeds heapSize m size ↔ heapSize < used + alignUp size.toNat 16 := by
  have most := blocksAt.most
  have least := le_alignUp size.toNat 16
  rw [Exceeds, blocksAt.cursor heap]
  omega

end

section

variable (blocksAt : P.HasBlocks heapSize blocks used c.machine.memory) (heap : P.HasHeap heapSize)
  (asks : P.AsksFor heapSize size back c)
include blocksAt heap asks

lemma panics (high : (P.symbolAt Pool.heap).toNat + heapSize < 0x8000000000000000)
    (exceeds : P.Exceeds heapSize c.machine.memory size) :
    ∃ d, P.Flows c d ∧ P.IsExhausted heapSize d ∧ d.machine.memory = c.machine.memory := by
  have most := blocksAt.most
  have small := heap.small
  simp only [Settings.maxHeapSize] at small
  exact allocate_panics heap asks.entered blocksAt.taken
    (by simp [asks.asked]) size.isLt ((blocksAt.exceeds_iff heap).1 exceeds)
    (by simp only [UInt64.size]; omega)

lemma returns (fits : ¬P.Exceeds heapSize c.machine.memory size) : ∃ d, P.Returns c d ∧
      d.position = back ∧ d.machine.regs rax = P.symbolAt Pool.heap + ofNat 64 used ∧
      P.HasBlocks heapSize (blocks ++ [⟨d.machine.regs rax, alignUp size.toNat 16⟩])
        (used + alignUp size.toNat 16) d.machine.memory ∧
      ∀ x ∈ cells (d.machine.regs rax) (alignUp size.toNat 16), d.machine.memory x = 0 := by
  rw [blocksAt.exceeds_iff heap, not_lt] at fits
  obtain ⟨t, returns, -, -, result, taken, zeros, -⟩ := allocate_returns heap asks.entered
    blocksAt.taken (by simp [asks.asked]) fits asks.apart
  refine ⟨_, returns, rfl, result, ?_, ?_⟩
  · rw [result]
    exact blocksAt.push heap fits taken
  · rw [result]
    exact zeros

end

end Process.HasBlocks

lemma Process.HasBlocks.initial (start : P.heapCursor first = P.symbolAt Pool.heap) :
    P.HasBlocks heapSize [] 0 first :=
  ⟨start.trans (BitVec.add_zero _).symm, Nat.zero_le _, Nat.dvd_zero _, by simp, .nil⟩

lemma Process.HeapRun.hasBlocks (heap : P.HasHeap heapSize) (stops : P.Stops Service.abort.label)
    (high : (P.symbolAt Pool.heap).toNat + heapSize < 0x8000000000000000) {earlier : List Block}
    (blocksAt : P.HasBlocks heapSize earlier used first) (run : P.HeapRun heapSize first blocks m) :
    ∃ used, P.HasBlocks heapSize (earlier ++ blocks) used m := by
  induction run with
  | nil => exact ⟨used, by rwa [List.append_nil]⟩
  | elsewhere _ same ih =>
    obtain ⟨used, blocksAt⟩ := ih
    exact ⟨used, { blocksAt with taken := same.trans blocksAt.taken }⟩
  | @call blocks size back c d _ asks returns ih =>
    obtain ⟨used, blocksAt⟩ := ih
    by_cases exceeds : P.Exceeds heapSize c.machine.memory size
    · obtain ⟨e, flows, exhausted, -⟩ := blocksAt.panics heap asks high exceeds
      exact absurd (.after_flows flows returns) (stops _ d exhausted.at_abort)
    · obtain ⟨e, again, -, -, more, -⟩ := blocksAt.returns heap asks exceeds
      obtain rfl := returns.unique again
      exact ⟨_, by rwa [← List.append_assoc]⟩

/-- The heap is sound. After any calls the cursor is a multiple of sixteen inside the heap, and the
blocks share no byte. The next call stops the program and changes no memory if the size exceeds what
is left; if not, it returns a block behind all others, whose bytes are zero. -/
theorem heap_isSound (heap : P.HasHeap heapSize) (stops : P.Stops Service.abort.label)
    (aligned : 16 ∣ (P.symbolAt Pool.heap).toNat)
    (high : (P.symbolAt Pool.heap).toNat + heapSize < 0x8000000000000000)
    (start : P.heapCursor first = P.symbolAt Pool.heap) (run : P.HeapRun heapSize first blocks m) :
    ((P.symbolAt Pool.heap).toNat ≤ (P.heapCursor m).toNat ∧
      (P.heapCursor m).toNat ≤ (P.symbolAt Pool.heap).toNat + heapSize ∧
      16 ∣ (P.heapCursor m).toNat) ∧
    (∀ b ∈ blocks, b.IsPlaced (P.symbolAt Pool.heap) heapSize) ∧
    (blocks.Pairwise fun a b => Disjoint a.cells b.cells) ∧
    ∀ size back c, P.AsksFor heapSize size back c → c.machine.memory = m →
      (P.Exceeds heapSize m size → (∀ d, ¬P.Returns c d) ∧ ∃ d, P.Flows c d ∧
        P.IsExhausted heapSize d ∧ P.heapCursor d.machine.memory = P.heapCursor m) ∧
      (¬P.Exceeds heapSize m size → ∃ d, P.Returns c d ∧ d.position = back ∧
        let b : Block := ⟨d.machine.regs rax, alignUp size.toNat 16⟩
        b.IsPlaced (P.symbolAt Pool.heap) heapSize ∧ (∀ a ∈ blocks, Disjoint a.cells b.cells) ∧
        (∀ x ∈ b.cells, d.machine.memory x = 0) ∧
        (P.heapCursor d.machine.memory).toNat = b.start.toNat + b.size) := by
  obtain ⟨used, blocksAt⟩ := run.hasBlocks heap stops high (.initial start)
  rw [List.nil_append] at blocksAt
  have cursor := blocksAt.cursor heap
  have most := blocksAt.most
  refine ⟨⟨by omega, by omega, cursor ▸ Nat.dvd_add aligned blocksAt.aligned⟩,
    fun b mem => blocksAt.isPlaced heap aligned mem, blocksAt.apart, fun size back c asks memory =>
    ?_⟩
  subst memory
  refine ⟨fun exceeds => ?_, fun fits => ?_⟩
  · obtain ⟨e, flows, exhausted, memory⟩ := blocksAt.panics heap asks high exceeds
    exact ⟨fun d returns => stops _ d exhausted.at_abort (.after_flows flows returns), e, flows,
      exhausted,
      by rw [memory]⟩
  · obtain ⟨d, returns, position, result, more, zeros⟩ := blocksAt.returns heap asks fits
    have placed := more.isPlaced heap aligned (List.mem_append_right _ (List.mem_singleton.2 rfl))
    refine ⟨d, returns, position, placed, fun a mem => ?_, zeros, ?_⟩
    · exact (List.pairwise_append.1 more.apart).2.2 a mem _ (List.mem_singleton.2 rfl)
    · have below := heap.below
      have within := more.most
      rw [more.cursor heap, result, toNat_add_ofNat (by omega), Nat.add_assoc]

end

def fortyBytes (others : Code) : Process where
  code := Service.allocateCode Pool.heap Pool.heapCursor ⟨9⟩ 40 ⟨18⟩ ++
    (Service.fillBytesCode ++ others)
  codeAddress := ofNat 64
  symbolAt := fun id => if id = Pool.heap then 4096 else 8192
  mapped := fun _ => true
  outside := fun l => if l = Service.abort.label then some fun _ => none else none
  system := some

/-- A call with one argument, the stack at 16384, and memory zero but for one word. -/
def asking (position : Nat) (argument : Word) (cursor : Word := 4096) : Config where
  position := position
  machine :=
    { regs := fun r => if r = rdi then argument else if r = rsp then 16384 else 0
      flags := .undefined
      memory := Memory.put (fun _ => 0) 8192 0 cursor }

section

variable {others : Code} {l : Label} {position : Nat}

lemma fortyBytes_hasHeap (distinct : (fortyBytes others).HasDistinctLabels) :
    (fortyBytes others).HasHeap 40 where
  distinct := distinct
  allocate := ⟨0, ⟨9⟩, ⟨18⟩, List.prefix_append _ _⟩
  fillBytes := ⟨20, List.prefix_append _ _⟩
  small := by decide
  below := (by decide : (4096 : Word).toNat + 40 < UInt64.size)
  mapped := fun _ _ => rfl
  cursor := fun _ _ => rfl
  apart := by
    have apart : Disjoint (cells (0 + ofNat 64 4096) 40) (cells (0 + ofNat 64 8192) 8) :=
      disjoint_cells (by decide) (by decide)
    exact apart.symm

lemma fortyBytes_stack : Disjoint (cells (16384 - ofNat 64 64) 72)
    ((fortyBytes others).heapCells 40) := by
  have cursor : Disjoint (cells (0 + ofNat 64 8192) 8) (cells (0 + ofNat 64 16320) 72) :=
    disjoint_cells (by decide) (by decide)
  have heap : Disjoint (cells (0 + ofNat 64 4096) 40) (cells (0 + ofNat 64 16320) 72) :=
    disjoint_cells (by decide) (by decide)
  exact (Disjoint.sup_left cursor heap).symm

lemma asking_entered {cursor : Word} (argument : Word)
    (at_label : (fortyBytes others).code[position]? = some (.label l))
    (distinct : (fortyBytes others).HasDistinctLabels)
    (short : (fortyBytes others).code.length < UInt64.size) :
    (fortyBytes others).Entered l 0 (asking position argument cursor) where
  position := Process.labelPosition_of_at distinct at_label
  stack := fun _ _ => rfl
  back := by
    have apart : Disjoint (cells (0 + ofNat 64 8192) 8) (cells (0 + ofNat 64 16384) 8) :=
      disjoint_cells (by decide) (by decide)
    have top : Memory.load (asking 0 0 cursor).machine.memory 16384 .qword = 0 :=
      (Memory.load_store_of_disjoint apart).trans (Memory.load_of_zeros fun _ _ => rfl)
    exact (congrArg _ top).trans (Process.positionOf_ofNat rfl (Nat.zero_le _) short)

end

/-- The first block has thirty-two bytes, all of them zero. A second one of this size does not fit.
-/
theorem heap_isSound_askingForTwenty : ∃ d, (fortyBytes []).Returns (asking 1 20) d ∧
    (⟨d.machine.regs rax, 32⟩ : Block).IsPlaced 4096 40 ∧
    (∀ x ∈ cells (d.machine.regs rax) 32, d.machine.memory x = 0) ∧
    (fortyBytes []).HeapRun 40 (asking 1 20).machine.memory [⟨d.machine.regs rax, 32⟩]
    (asking 1 20 4128).machine.memory ∧ ∀ e, ¬(fortyBytes []).Returns (asking 1 20 4128) e := by
  have distinct : (fortyBytes []).HasDistinctLabels := Process.hasDistinctLabels_of_nodup
    (by decide)
  have start : (fortyBytes []).heapCursor (asking 1 20).machine.memory = 4096 := by decide
  have top : cells (16384 - BitVec.ofNat 64 64 + BitVec.ofNat 64 64) 8 ⊆ cells
      (16384 - BitVec.ofNat 64 64) 72 :=
    cells_subset (by decide) (by decide)
  rw [BitVec.sub_add_cancel] at top
  have asks (cursor : Word) : (fortyBytes []).AsksFor 40 20 0 (asking 1 20 cursor) :=
    ⟨asking_entered 20 rfl distinct (by decide), rfl, fortyBytes_stack.mono_left top⟩
  have sound {blocks m} (run : (fortyBytes []).HeapRun 40 _ blocks m) :=
    heap_isSound (fortyBytes_hasHeap distinct) (Process.stops_of_outside rfl) (by decide)
    (by decide) start run
  obtain ⟨-, -, -, next⟩ := sound .nil
  have fits : ¬(fortyBytes []).Exceeds 40 (asking 1 20).machine.memory 20 := by
    rw [Process.Exceeds, start]
    decide
  obtain ⟨d, returns, -, placed, -, zeros, cursor⟩ := (next 20 0 _ (asks 4096) rfl).2 fits
  have again : (fortyBytes []).heapCursor (asking 1 20 4128).machine.memory = 4128 := by decide
  have same : (fortyBytes []).heapCursor (asking 1 20 4128).machine.memory =
      (fortyBytes []).heapCursor d.machine.memory := by
    obtain ⟨multiple, -, low, high⟩ := placed
    change 16 ∣ (d.machine.regs rax).toNat at multiple
    change 4096 ≤ (d.machine.regs rax).toNat at low
    change (d.machine.regs rax).toNat + 32 ≤ 4096 + 40 at high
    change _ = (d.machine.regs rax).toNat + 32 at cursor
    rw [again, ← BitVec.toNat_inj, cursor]
    change 4128 = _
    omega
  have run : (fortyBytes []).HeapRun 40 (asking 1 20).machine.memory [⟨d.machine.regs rax, 32⟩] _ :=
    .elsewhere (.call .nil (asks 4096) returns) same
  obtain ⟨-, -, -, next⟩ := sound run
  have exceeds : (fortyBytes []).Exceeds 40 (asking 1 20 4128).machine.memory 20 := by
    rw [Process.Exceeds, again]
    decide
  exact ⟨d, returns, placed, zeros, run, ((next 20 0 _ (asks 4128) rfl).1 exceeds).1⟩

end AgentCompiler
