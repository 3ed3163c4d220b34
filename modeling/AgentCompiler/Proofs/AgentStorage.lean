import AgentCompiler.Proofs.BoundedQueue
import AgentCompiler.Proofs.CallTraces

/-!
Queues and dispatch slots of several agents in one memory, and what the main routine does to them by
calling the two queue services. A call changes the storage of one agent and the word below the stack
pointer; the storage of all other agents is as before.
-/

namespace AgentCompiler

open Function Set
open Plan (queueSize)
open Register (rsp rsi rdi rdx)

variable {content : Option Pending}

lemma Leads.preserves {R : Config → Config → Prop} {written : Set Word} {c d : Config}
    (leads : Leads R (Register.IsKept []) written c d) : c.machine.Preserves d.machine :=
  ⟨leads.stack, fun r saved => leads.saved r saved List.not_mem_nil⟩

namespace Process

variable (P : Process)

def queueCells (cap : Nat) (st : Storage) : Set Word := cells (P.symbolAt st.queue) (queueSize cap)

def slotCells (st : Storage) : Set Word := cells (P.symbolAt st.slot) slotSize

def storageCells (cap : Nat) (st : Storage) : Set Word := P.queueCells cap st ∪ P.slotCells st

/-- All that the main routine writes to once the seed is made. -/
def mainCells (cap : Nat) (top : Word) (queued : List (AgentLayout × Storage)) : Set Word :=
  stackCells top ∪ {x | ∃ pair ∈ queued, x ∈ P.storageCells cap pair.2}

abbrev Works (observed : Label → Prop) (cap : Nat) (top : Word)
    (queued : List (AgentLayout × Storage)) :
    Config → Config → Prop :=
  Leads (fun c d => P.Moves observed c [] d) (Register.IsKept []) (P.mainCells cap top queued)

structure Stores (cap : Nat) (top : Word) (queued : List (AgentLayout × Storage)) : Prop where
  services : ∃ overflow, HasQueueServices P cap overflow
  enqueue : P.outside Service.enqueue.label = none
  dequeue : P.outside Service.dequeue.label = none
  back : ∀ k l, P.code[k]? = some (.call l) → P.positionOf (P.codeAddress (k + 1)) = some (k + 1)
  mapped : ∀ pair ∈ queued, ∀ x ∈ P.storageCells cap pair.2, P.mapped x
  stack : ∀ x ∈ stackCells top, P.mapped x
  stackApart : ∀ pair ∈ queued, Disjoint (stackCells top) (P.storageCells cap pair.2)
  slotApart : ∀ pair ∈ queued, Disjoint (P.queueCells cap pair.2) (P.slotCells pair.2)
  apart : ∀ pair ∈ queued, ∀ other ∈ queued, pair.1.name ≠ other.1.name →
    Disjoint (P.storageCells cap pair.2) (P.storageCells cap other.2)
  unique : ∀ pair ∈ queued, ∀ other ∈ queued, pair.1.name = other.1.name → pair = other

def HoldsQueues (cap : Nat) (queued : List (AgentLayout × Storage)) (m : Memory)
    (queues : String → List Pending) : Prop :=
  ∀ pair ∈ queued, QueueAt cap (P.symbolAt pair.2.queue) m (queues pair.1.name)

end Process

def SlotHolds (slot : Word) (m : Memory) : Option Pending → Prop
  | none => m.word slot 0 = 0
  | some e => SlotAt slot m e

def Process.HoldsSlots (P : Process) (queued : List (AgentLayout × Storage)) (m : Memory)
    (slots : String → Option Pending) : Prop :=
  ∀ pair ∈ queued, SlotHolds (P.symbolAt pair.2.slot) m (slots pair.1.name)

structure Process.HoldsMail (P : Process) (cap : Nat) (queued : List (AgentLayout × Storage))
    (m : Memory)
    (queues : String → List Pending) (slots : String → Option Pending) : Prop where
  queues : P.HoldsQueues cap queued m queues
  slots : P.HoldsSlots queued m slots

lemma SlotHolds.congr {slot : Word} {m n : Memory}
    (holds : SlotHolds slot m content) (same : EqOn n m (cells slot slotSize)) :
    SlotHolds slot n content := by
  cases content with
  | none => exact (Memory.word_congr same (by decide) (by decide)).trans holds
  | some e => exact SlotAt.congr holds same

namespace Process.Stores

variable {P : Process} {cap k : Nat} {top : Word} {queued : List (AgentLayout × Storage)}
  {pair : AgentLayout × Storage} {s : Machine} {m n : Memory} {queues : String → List Pending}
  {slots : String → Option Pending} {observed : Label → Prop}

lemma fits (stores : P.Stores cap top queued) : cap ≤ 65536 :=
  stores.services.elim fun _ services => services.fits

lemma eqOn_mainCells (member : pair ∈ queued)
    (same : EqOn n m (stackCells top ∪ P.storageCells cap pair.2)ᶜ) :
    EqOn n m (P.mainCells cap top queued)ᶜ :=
  same.mono (compl_subset_compl.2 (union_subset_union_right _ fun _ inside =>
    ⟨pair, member, inside⟩))

lemma mem_names (member : pair ∈ queued) : pair.1.name ∈ queued.map (·.1.name) :=
  List.mem_map_of_mem member

section

variable (stores : P.Stores cap top queued) (member : pair ∈ queued)
include stores member

lemma eqOn_other (same : EqOn n m (stackCells top ∪ P.storageCells cap pair.2)ᶜ)
    {other : AgentLayout × Storage} (inside : other ∈ queued)
    (differ : other.1.name ≠ pair.1.name) :
    EqOn n m (P.storageCells cap other.2) := fun _ own => same fun changed =>
  changed.elim (fun stack => disjoint_left.1 (stores.stackApart other inside) stack own)
    (disjoint_left.1 (stores.apart other inside pair member differ) own)

lemma mail_congr (holds : P.HoldsMail cap queued m queues slots)
    (same : EqOn n m (stackCells top ∪ P.storageCells cap pair.2)ᶜ) {entries : List Pending}
    (queue : QueueAt cap (P.symbolAt pair.2.queue) n entries)
    (slot : SlotHolds (P.symbolAt pair.2.slot) n content) :
    P.HoldsMail cap queued n (update queues pair.1.name entries)
        (update slots pair.1.name content) := by
  have each (other : AgentLayout × Storage) (inside : other ∈ queued) :
      QueueAt cap (P.symbolAt other.2.queue) n (update queues pair.1.name entries other.1.name) ∧
        SlotHolds (P.symbolAt other.2.slot) n (update slots pair.1.name content other.1.name) := by
    by_cases equal : other.1.name = pair.1.name
    · obtain rfl := stores.unique other inside pair member equal
      rw [update_self, update_self]
      exact ⟨queue, slot⟩
    · have same := stores.eqOn_other member same inside equal
      rw [update_of_ne equal, update_of_ne equal]
      exact ⟨(holds.queues other inside).congr stores.fits (same.mono subset_union_left),
        (holds.slots other inside).congr (same.mono subset_union_right)⟩
  exact ⟨fun other inside => (each other inside).1, fun other inside => (each other inside).2⟩

lemma queue_call_answers {call : QueueCall} {entries after : List Pending}
    (at_k : P.code[k]? = some (.call call.service.label)) (stack : s.regs rsp = top)
    (here : s.regs rdi = P.symbolAt pair.2.queue)
    (passes : call.Passes P cap (P.symbolAt pair.2.queue) (P.entering k s))
    (holds : QueueAt cap (P.symbolAt pair.2.queue) s.memory entries)
    (answered : call.apply cap entries = some after) : ∃ t, P.Answers k call.service.label s t ∧
      s.Preserves t ∧ QueueAt cap (P.symbolAt pair.2.queue) t.memory after ∧
      call.Writes cap (P.symbolAt pair.2.queue) entries (P.entering k s).memory t.memory := by
  obtain ⟨overflow, services⟩ := stores.services
  have apart : Disjoint (P.queueCells cap pair.2) (stackCells top) :=
    ((stores.stackApart pair member).mono_right subset_union_left).symm
  have inside : P.outside call.service.label = none := by
    cases call with
    | enqueue => exact stores.enqueue
    | dequeue => exact stores.dequeue
  have follows : P.Follows k call.service.label s := ⟨at_k, inside, stores.back k _ at_k,
    stack ▸ stores.stack⟩
  obtain ⟨j, target⟩ : ∃ j, P.labelPosition call.service.label = some j := by
    cases call with
    | enqueue =>
      obtain ⟨j, _, _, placed⟩ := services.enqueue
      exact ⟨j + 1, Process.labelPosition_of_at services.distinct (placed.get (i := 1) rfl)⟩
    | dequeue =>
      obtain ⟨j, _, _, placed⟩ := services.dequeue
      exact ⟨j + 1, Process.labelPosition_of_at services.distinct (placed.get (i := 1) rfl)⟩
  have calls_it : IsQueueCall P cap (P.symbolAt pair.2.queue) call (k + 1) ⟨j, P.entering k s⟩ := {
    entered := follows.entered target
    here := (entering_regs (by decide)).trans here
    passes := passes
    apart := by rwa [entering_rsp, stack] }
  have untouched : QueueAt cap (P.symbolAt pair.2.queue) (P.entering k s).memory entries := by
    refine holds.congr stores.fits fun x near => entering_eqOn k s fun pushed => ?_
    rw [stack] at pushed
    exact disjoint_left.1 apart near pushed
  obtain ⟨d, returns, position, rsp_eq, kept, queue, writes⟩ := queue_call_returns services
    (fun x near => stores.mapped pair member x (.inl near)) untouched calls_it answered
  obtain ⟨_, t⟩ := d
  obtain rfl := position
  obtain ⟨answers, preserves⟩ := follows.answers target returns rsp_eq fun r saved =>
    kept r (.inr (.inr saved))
  exact ⟨t, answers, preserves, queue, writes⟩

lemma enqueue_runs (hidden : ¬ observed Service.enqueue.label)
    (at_k : P.code[k]? = some (.call Service.enqueue.label)) (stack : s.regs rsp = top)
    (here : s.regs rdi = P.symbolAt pair.2.queue)
    (holds : P.HoldsMail cap queued s.memory queues slots) (room : (queues pair.1.name).length <
    cap) : ∃ t, P.Works observed cap top queued ⟨k, s⟩ ⟨k + 1, t⟩ ∧
      P.HoldsMail cap queued t.memory (update queues pair.1.name
        (queues pair.1.name ++ [⟨s.regs rsi, s.regs rdx⟩])) slots := by
  have passes : (QueueCall.enqueue ⟨s.regs rsi, s.regs rdx⟩).Passes P cap
      (P.symbolAt pair.2.queue) (P.entering k s) :=
    ⟨entering_regs (by decide), entering_regs (by decide)⟩
  obtain ⟨t, answers, preserves, queue, -, outside⟩ := stores.queue_call_answers member at_k
    stack here passes (holds.queues pair member) (if_pos room)
  have same : EqOn t.memory s.memory (stackCells top ∪ P.queueCells cap pair.2)ᶜ := by
    intro x untouched
    rw [compl_union] at untouched
    exact (outside untouched.2).trans (entering_eqOn k s (by rw [stack]; exact untouched.1))
  have wider : EqOn t.memory s.memory (stackCells top ∪ P.storageCells cap pair.2)ᶜ :=
    same.mono (compl_subset_compl.2 (union_subset_union_right _ subset_union_left))
  refine ⟨t, (Leads.refl _).calls at_k hidden answers preserves (eqOn_mainCells member wider), ?_⟩
  have own : SlotHolds (P.symbolAt pair.2.slot) t.memory (slots pair.1.name) := by
    refine (holds.slots pair member).congr fun x near => same fun changed => changed.elim
      (fun inStack => ?_) fun inQueue => disjoint_left.1 (stores.slotApart pair member) inQueue near
    exact disjoint_left.1 (stores.stackApart pair member) inStack (.inr near)
  simpa using stores.mail_congr member holds wider queue own

lemma dequeue_runs (hidden : ¬ observed Service.dequeue.label)
    (at_k : P.code[k]? = some (.call Service.dequeue.label)) (stack : s.regs rsp = top)
    (here : s.regs rdi = P.symbolAt pair.2.queue) (there : s.regs rsi = P.symbolAt pair.2.slot)
    (holds : P.HoldsMail cap queued s.memory queues slots) (free : slots pair.1.name = none) :
    ∃ t, P.Works observed cap top queued ⟨k, s⟩ ⟨k + 1, t⟩ ∧
      P.HoldsMail cap queued t.memory (update queues pair.1.name (queues pair.1.name).tail)
        (update slots pair.1.name (queues pair.1.name).head?) := by
  have passes : (QueueCall.dequeue (P.symbolAt pair.2.slot)).Passes P cap
      (P.symbolAt pair.2.queue) (P.entering k s) := by
    refine ⟨(entering_regs (by decide)).trans there, fun x near => stores.mapped pair member x
      (.inr near), stores.slotApart pair member, ?_⟩
    rw [entering_rsp, stack]
    exact ((stores.stackApart pair member).mono_right subset_union_right).symm
  obtain ⟨t, answers, preserves, queue, writes⟩ := stores.queue_call_answers member at_k stack
    here passes (holds.queues pair member) rfl
  have pushed : EqOn (P.entering k s).memory s.memory (stackCells top)ᶜ := stack ▸ entering_eqOn k s
  obtain ⟨same, own⟩ : EqOn t.memory s.memory (stackCells top ∪ P.storageCells cap pair.2)ᶜ ∧
      SlotHolds (P.symbolAt pair.2.slot) t.memory (queues pair.1.name).head? := by
    cases waiting : queues pair.1.name with
    | nil =>
      rw [waiting] at writes
      have same : t.memory = (P.entering k s).memory := writes
      rw [same]
      refine ⟨pushed.mono (compl_subset_compl.2 subset_union_left), ?_⟩
      have old := holds.slots pair member
      rw [free] at old
      refine old.congr fun x near => pushed fun inStack => ?_
      exact disjoint_left.1 (stores.stackApart pair member) inStack (.inr near)
    | cons e rest =>
      rw [waiting] at writes
      obtain ⟨-, slot, outside⟩ := writes
      refine ⟨fun x untouched => ?_, slot⟩
      rw [compl_union] at untouched
      exact (outside untouched.2).trans (pushed untouched.1)
  exact ⟨t, (Leads.refl _).calls at_k hidden answers preserves (eqOn_mainCells member same),
    stores.mail_congr member holds same queue own⟩

end

end Process.Stores

end AgentCompiler
