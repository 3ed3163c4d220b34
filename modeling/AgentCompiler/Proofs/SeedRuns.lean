import AgentCompiler.Proofs.AgentStorage
import AgentCompiler.Proofs.HeapBlocks
import AgentCompiler.Proofs.SeedFields
import AgentCompiler.Proofs.TidalMachine

/-!
The seed in the code of the main routine. A block is taken from the heap, the fields are stored in
it, and its address goes to the queue of one destination after the other.
-/

namespace AgentCompiler

open Service
open Register (rax rbx rsp rsi rdi rdx r14)

section

variable {P : Process} {observed : Label → Prop} {cap heapSize used size k : Nat} {top : Word}
  {queued : List (AgentLayout × Storage)} {s : Machine} {queues : String → List Pending}
  {slots : String → Option Pending}

lemma allocate_unanswered (heap : P.HasHeap heapSize) (stops : P.Stops abort.label)
    (follows : P.Follows k allocate.label s) (apart : Disjoint (stackCells (s.regs rsp))
    (P.heapCells heapSize)) (asked : s.regs rdi = BitVec.ofNat 64 size) (taken :
    P.HasTaken used s.memory) (narrow : size < UInt64.size)
    (full : heapSize < used + alignUp size 16)
    (below : (P.symbolAt Pool.heap).toNat + (used + heapSize + 16) ≤ UInt64.size) (t : Machine) :
    ¬ P.Answers k allocate.label s t := by
  obtain ⟨c, d, enters, flows, exhausted⟩ := allocate_exhausts heap follows apart asked taken narrow
    full below
  intro answers
  cases answers with
  | outside known => simp [follows.inside] at known
  | followed _ enters' returns =>
    obtain rfl := Option.some.inj (enters.symm.trans enters')
    exact stops _ _ exhausted.at_abort (.after_flows flows returns)

lemma seed_made {seed : Seed} {r : Record} {parts : List Code} {p q : Pool} {due : List SymbolId}
    (heap : P.HasHeap heapSize) (stores : P.Stores cap top queued)
    (hidden : ¬ observed allocate.label) (inside : P.outside allocate.label = none)
    (stackApart : Disjoint (stackCells top) (P.heapCells heapSize))
    (apart : ∀ pair ∈ queued, Disjoint (P.heapCells heapSize) (P.storageCells cap pair.2))
    (placed : P.Holds k ([Instruction.move rdi (Int64.ofNat r.size), .call allocate.label,
      .move r14 rax] ++ parts.flatten))
    (run : Emit.MapRun (Emit.seedField seed.fields) p r.slots parts q) (suits : seed.Suits r)
    (texts : p.Stores) (lacks : p.Lacks due) (stack : s.regs rsp = top)
    (taken : P.HasTaken used s.memory) (fits : used + alignUp r.size 16 ≤ heapSize)
    (holds : P.HoldsMail cap queued s.memory queues slots) :
    ∃ t, P.Quietly observed ⟨k, s⟩ ⟨k + 3 + parts.flatten.length, t⟩ ∧ t.regs rsp = top ∧
      t.regs rbx = s.regs rbx ∧
      t.regs r14 = P.blockAt used ∧
      P.HoldsSeed q.symbols q.rodata seed r (P.blockAt used) t.memory ∧
      P.HoldsMail cap queued t.memory queues slots := by
  have least := le_alignUp r.size 16
  have small := heap.small
  simp only [Settings.maxHeapSize] at small
  rw [Process.holds_append] at placed
  obtain ⟨placed, fieldsPlaced⟩ := placed
  have here : Leads (fun c d => P.Moves observed c [] d) (Register.IsKept [r14])
    (stackCells top ∪ P.heapCells heapSize) ⟨k, s⟩ ⟨k, s⟩ := .refl _
  obtain ⟨t, asks, memory, regs⟩ := here.turns placed (i := 0) [.move rdi (Int64.ofNat r.size)]
    [(rdi, BitVec.ofNat 64 r.size)] rfl rfl (by simp +decide) (by simp)
  have at_call := placed.get (i := 1) rfl
  have stack' : t.regs rsp = top := by simpa [regs] using stack
  obtain ⟨u, answers, preserves, block, -, zeros, same⟩ := allocate_answers heap
    ⟨at_call, inside, stores.back _ _ at_call, stack' ▸ stores.stack⟩ (stack' ▸ stackApart)
    (by simp [regs]) (memory ▸ taken) fits
  rw [stack'] at same
  have gets := asks.calls at_call hidden answers preserves
    (same.mono (Set.compl_subset_compl.2 (Set.union_subset_union_right _ (heap.taken_subset fits))))
  obtain ⟨v, moves, memory', regs'⟩ := gets.turns placed (i := 2) [.move r14 rax]
    [(r14, P.blockAt used)] rfl rfl (by simp) (by simp [block])
  have here : v.regs r14 = P.blockAt used := by simp [regs']
  have inBlock : cells (v.regs r14) r.size ⊆ cells (P.symbolAt Pool.heap) heapSize := by
    rw [here]
    exact cells_subset (by omega) (by simp only [UInt64.size]; omega)
  have ofBlock : ∀ slot ∈ r.slots, slot.cells (v.regs r14) ⊆ cells (v.regs r14) r.size :=
    fun slot mem => cells_subset (suits.inside slot mem) (by simp only [UInt64.size]; omega)
  have blank : ∀ slot ∈ r.slots, ∀ x ∈ slot.cells (v.regs r14), v.memory x = 0 := by
    intro slot mem x near
    rw [memory']
    exact zeros x (cells_mono least (here ▸ ofBlock slot mem near))
  obtain ⟨w, stored, changes, same', values⟩ := seedFields_execute run suits.given
    (by simp only [maxInt32]; omega) suits.inside suits.apart
    (fun x near => heap.mapped x (inBlock near)) blank texts lacks
  have last := moves.trans ⟨P.quietly_execute fieldsPlaced stored,
    fun r kept => changes r fun own => by simp +decide [List.mem_singleton.1 own] at kept,
    fun x away => same' <| by
      rintro ⟨slot, mem, near⟩
      exact away (.inr (.inr (inBlock (ofBlock slot mem near))))⟩
  have untouched : ∀ pair ∈ queued, Set.EqOn w.memory s.memory (P.storageCells cap pair.2) :=
    fun pair mem x near => last.memory fun touched => touched.elim
      (fun inStack => Set.disjoint_left.1 (stores.stackApart pair mem) inStack near)
      (fun inHeap => Set.disjoint_left.1 (apart pair mem) inHeap near)
  exact ⟨w, last.reaches, last.stack.trans stack, last.saved rbx rfl (by decide),
    (changes r14 (by decide)).trans here, here ▸ values,
    fun pair mem => (holds.queues pair mem).congr stores.fits
      ((untouched pair mem).mono Set.subset_union_left),
    fun pair mem => (holds.slots pair mem).congr ((untouched pair mem).mono Set.subset_union_right)⟩

lemma seedDelivery_runs {pair : AgentLayout × Storage} {schema : SchemaLayout}
    (stores : P.Stores cap top queued) (hidden : ¬ observed enqueue.label) (mem : pair ∈ queued)
    (placed : P.Holds k [.lea rdi (.symbol pair.2.queue 0), .move rsi (Int64.ofNat schema.id),
      .move rdx r14, .call enqueue.label]) (stack : s.regs rsp = top)
      (holds : P.HoldsMail cap queued s.memory queues slots)
    (room : (queues pair.1.name).length < cap) : ∃ t, P.Works observed cap top queued ⟨k, s⟩
      ⟨k + 4, t⟩ ∧ P.HoldsMail cap queued t.memory (Function.update queues pair.1.name
        (queues pair.1.name ++ [⟨schema.number, s.regs r14⟩])) slots := by
  have here : P.Works observed cap top queued ⟨k, s⟩ ⟨k, s⟩ := .refl _
  obtain ⟨t, passes, memory, regs⟩ := here.turns placed (i := 0)
    [.lea rdi (.symbol pair.2.queue 0), .move rsi (Int64.ofNat schema.id), .move rdx r14]
    [(rdi, P.symbolAt pair.2.queue), (rsi, schema.number), (rdx, s.regs r14)] rfl rfl
    (by simp +decide) (by simp [SchemaLayout.number])
  obtain ⟨u, calls, holds⟩ := stores.enqueue_runs mem hidden (placed.get (i := 3) rfl)
    (by simpa [regs] using stack) (by simp [regs]) (memory ▸ holds) room
  exact ⟨u, passes.trans calls, by simpa [regs] using holds⟩

end

end AgentCompiler
