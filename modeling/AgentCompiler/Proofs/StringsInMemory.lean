import AgentCompiler.Proofs.HeapRuns
import AgentCompiler.Proofs.ServiceFrames

/-!
Strings in memory: bytes other than zero, and a zero behind them. What all services that build a
string have in common: they ask for a block of the size that they need and write to nothing but this
block.
-/

namespace AgentCompiler

open Set Machine Service

open Register (rax rsp rdi)

namespace Memory

def IsFilled (m : Memory) (a : Word) (size : Nat) (content : Bytes) : Prop :=
  ∀ i < size, m (a + BitVec.ofNat 64 i) = content.getD i 0

structure HoldsText (m : Memory) (a : Word) (text : Bytes) : Prop where
  filled : m.IsFilled a (text.length + 1) text
  plain : 0 ∉ text

end Memory

lemma Machine.ownCells_eq {s t : Machine} (stack : t.regs rsp = s.regs rsp) :
    t.ownCells = s.ownCells := by
  rw [ownCells, ownCells, stack]

lemma Machine.stackCells_subset (s : Machine) : stackCells (s.regs rsp) ⊆ s.ownCells :=
  cells_mono (by decide)

namespace Process

variable {P : Process} {k i j : Nat} {c : Config} {s u v w : Machine} {regs : List Register}
  {heapSize used size : Nat}

structure HasServices (P : Process) (heapSize : Nat) : Prop extends P.HasHeap heapSize where
  followed : ∀ service : Service, service ≠ .abort → P.outside service.label = none
  back : ∀ k l, P.code[k]? = some (.call l) → P.positionOf (P.codeAddress (k + 1)) = some (k + 1)
  high : (P.symbolAt Pool.heap).toNat + heapSize < 0x8000000000000000

structure Serves (P : Process) (heapSize : Nat) (u : Machine) : Prop extends P.HasServices
    heapSize where
  stack : ∀ x ∈ u.ownCells, P.mapped x
  stackApart : Disjoint u.ownCells (P.heapCells heapSize)

structure IsFresh (P : Process) (heapSize used : Nat) (w : Machine) (size : Nat) : Prop where
  mapped : ∀ x ∈ cells (P.blockAt used) size, P.mapped x
  apart : Disjoint w.ownCells (cells (P.blockAt used) size)
  small : used + size ≤ heapSize

structure Gets (P : Process) (heapSize used size : Nat) (v w : Machine) : Prop
    extends P.IsFresh heapSize used w size, v.Preserves w where
  block : w.regs rax = P.blockAt used
  zeros : ∀ x ∈ cells (P.blockAt used) size, w.memory x = 0

namespace Serves

variable (serves : P.Serves heapSize u)
include serves

lemma congr (stack : s.regs rsp = u.regs rsp) : P.Serves heapSize s :=
  ⟨serves.toHasServices, ownCells_eq stack ▸ serves.stack, ownCells_eq stack ▸ serves.stackApart⟩

lemma follows {service : Service} (other : service ≠ .abort)
    (at_k : P.code[k]? = some (.call service.label)) :
    P.Follows k service.label u :=
  ⟨at_k, serves.followed service other, serves.back k _ at_k, fun x near =>
    serves.stack x (u.stackCells_subset near)⟩

section

variable (comes : P.Comes regs u.ownCells ⟨j, u⟩ ⟨k, v⟩) (taken : P.HasTaken used u.memory)
  (at_k : P.code[k]? = some (.call allocate.label)) (asked : v.regs rdi = BitVec.ofNat 64 size)
include comes taken at_k

lemma asks : P.Follows k allocate.label v ∧ Disjoint v.ownCells (P.heapCells heapSize) ∧
    P.HasTaken used v.memory := by
  refine ⟨(serves.congr comes.stack).follows (by decide) at_k, ownCells_eq comes.stack ▸
    serves.stackApart, ?_⟩
  exact taken.congr (comes.memory.mono (disjoint_right.1
    (serves.stackApart.mono_right subset_union_left)))

include asked

lemma allocates (fits : used + alignUp size 16 ≤ heapSize) :
    ∃ w, P.Comes regs (u.ownCells ∪ P.takenCells used size) ⟨j, u⟩ ⟨k + 1, w⟩ ∧
      P.Gets heapSize used (alignUp size 16) v w ∧ P.HasTaken (used + alignUp size 16)
      w.memory := by
  obtain ⟨follows, heap, taken⟩ := serves.asks comes taken at_k
  obtain ⟨w, answers, preserves, block, taken, zeros, same⟩ :=
    allocate_answers serves.toHasHeap follows (heap.mono_left v.stackCells_subset) asked taken fits
  have inHeap := serves.block_subset fits
  rw [← ownCells_eq comes.stack] at comes ⊢
  refine ⟨w, (comes.mono (fun _ => id) subset_union_left).calls at_k id answers preserves
    (same.mono (compl_subset_compl.2 (union_subset_union_left _ v.stackCells_subset))),
    ⟨⟨fun x near => serves.mapped x (inHeap near), ?_, fits⟩, preserves, block, zeros⟩, taken⟩
  rw [ownCells_eq preserves.stack]
  exact heap.mono_right (inHeap.trans subset_union_right)

lemma exhausts (narrow : size < UInt64.size) (most : used ≤ heapSize)
    (full : heapSize < used + alignUp size 16) :
    ∃ d, P.Reaches ⟨k, v⟩ d ∧ P.IsExhausted heapSize d := by
  have high := serves.high
  have small := serves.small
  simp only [Settings.maxHeapSize] at small
  obtain ⟨follows, heap, taken⟩ := serves.asks comes taken at_k
  obtain ⟨c, d, enters, flows, exhausted⟩ := allocate_exhausts serves.toHasHeap follows
    (heap.mono_left v.stackCells_subset) asked taken narrow full (by simp only [UInt64.size]; omega)
  exact ⟨d, .head enters (flows.lift id fun _ _ goes => goes.2), exhausted⟩

end

end Serves

/-- What a service does that builds something in a new block: it comes back to its caller, and has
written to its stack, to the block and to the cursor of the heap. If the block does not fit, the
program stops. -/
def Builds (P : Process) (heapSize : Nat) (blocks : List Block) (used size : Nat)
    (regs : List Register) (back : Nat) (c : Config) (result : Memory → Word → Prop) : Prop :=
  if used + alignUp size 16 ≤ heapSize then
    ∃ t, P.Returns c ⟨back, t⟩ ∧ c.Leaves t ∧
      P.HasBlocks heapSize (blocks ++ [⟨P.blockAt used, alignUp size 16⟩])
      (used + alignUp size 16) t.memory ∧ EqOn t.memory c.machine.memory
      (c.room regs ∪ P.takenCells used size)ᶜ ∧ result t.memory (t.regs rax)
  else ∃ d, P.Reaches c d ∧ P.IsExhausted heapSize d

namespace IsCalled

variable {service : Service} {body : Code} {blocks : List Block} {data : Set Word}
  {back first last : Nat} {result : Memory → Word → Prop}
  (called : P.IsCalled service regs data back c) (services : P.HasServices heapSize)
  (inData : P.heapCells heapSize ⊆ data) (few : regs.length < 0x1000000)
  (blocksAt : P.HasBlocks heapSize blocks used c.machine.memory)
include called services inData few

lemma serves (enters : c.Enters regs u) : P.Serves heapSize u := by
  refine ⟨services, fun x near => called.mapped x ?_, called.apart.mono ?_ inData⟩
  · rw [enters.ownCells] at near
    exact cells_mono (by omega) near
  · rw [enters.ownCells]
    exact cells_mono (by omega)

include blocksAt

lemma builds (placed : P.Holds k (framed service regs body))
    (callers : ∀ r ∈ regs, r.isCalleeSaved = true) (nodup : regs.Nodup)
    (begins : 3 + regs.length = first) (ends : first + body.length = last)
    (narrow : size < UInt64.size) (at_i : P.code[k + i]? = some (.call allocate.label))
    (works : ∀ u, c.Enters regs u → P.Serves heapSize u → ∃ v,
      P.Comes regs u.ownCells ⟨k + first, u⟩ ⟨k + i, v⟩ ∧ v.regs rdi = BitVec.ofNat 64 size ∧
      ∀ w, P.Gets heapSize used (alignUp size 16) v w → P.Serves heapSize w → ∃ x,
        P.Comes regs (w.ownCells ∪ cells (P.blockAt used) (alignUp size 16)) ⟨k + (i + 1), w⟩
        ⟨k + last, x⟩ ∧ result x.memory (x.regs rax)) :
    P.Builds heapSize blocks used size regs back c result := by
  subst begins ends
  have kept {u : Machine} (enters : c.Enters regs u) : P.HasTaken used u.memory :=
    blocksAt.taken.congr ((called.data_eqOn few enters).mono (subset_union_left.trans inData))
  rw [Builds]
  split
  next fits =>
    obtain ⟨t, returns, leaves, same, taken, result⟩ := called.comes_back
      (Q := fun m a => P.HasTaken (used + alignUp size 16) m ∧ result m a) services.distinct placed
      few callers nodup ((services.taken_subset fits).trans inData) fun u enters => by
        have serves := called.serves services inData few enters
        obtain ⟨v, comes, asked, rest⟩ := works u enters serves
        obtain ⟨w, comes, gets, taken⟩ := serves.allocates comes (kept enters) at_i asked fits
        obtain ⟨x, fills, result⟩ := rest w gets (serves.congr comes.stack)
        have own := ownCells_eq comes.stack
        rw [own] at fills
        have apart := (serves.stackApart.mono_right subset_union_left).symm.union_right
          (services.apart.mono_right (services.block_subset fits))
        exact ⟨x, comes.trans (fills.mono (fun _ => id)
          (union_subset_union_right _ subset_union_right)),
          taken.congr (fills.memory.mono (disjoint_left.1 apart)), result⟩
    exact ⟨t, returns, leaves, blocksAt.push services.toHasHeap fits taken, same, result⟩
  next full =>
    obtain ⟨u, first, enters⟩ := called.enters services.distinct placed few callers
    have serves := called.serves services inData few enters
    obtain ⟨v, comes, asked, -⟩ := works u enters serves
    obtain ⟨d, reaches, exhausted⟩ := serves.exhausts comes (kept enters) at_i asked narrow
      blocksAt.most (not_le.1 full)
    exact ⟨d, (reaches_of_runs (first.trans comes.reaches)).trans reaches, exhausted⟩

end IsCalled

end Process

section

variable {others : Code} {service : Service} {regs : List Register}
  (distinct : (fortyBytes others).HasDistinctLabels)
  (short : (fortyBytes others).code.length < UInt64.size)
include distinct short

lemma fortyBytes_hasServices : (fortyBytes others).HasServices 40 where
  toHasHeap := fortyBytes_hasHeap distinct
  followed _ other := if_neg fun same => other (label_injective same)
  back _ _ at_k := Process.positionOf_ofNat rfl (List.getElem?_eq_some_iff.1 at_k).1 short
  high := (by decide : (4096 : Word).toNat + 40 < 0x8000000000000000)

lemma asking_isCalled (position : Nat) (argument : Word)
    (at_label : (fortyBytes others).code[position]? = some (.label service.label))
    (few : regs.length ≤ 6) :
    (fortyBytes others).IsCalled service regs ((fortyBytes others).heapCells 40) 0
      (asking position argument) where
  toEntered := asking_entered argument at_label distinct short
  mapped _ _ := rfl
  apart := fortyBytes_stack.mono_left
    ((asking position argument).below_subset (a := 64) (by omega) (by omega) (by decide))

end

end AgentCompiler
