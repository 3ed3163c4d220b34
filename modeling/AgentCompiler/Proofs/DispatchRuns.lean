import AgentCompiler.Proofs.CycleRuns
import AgentCompiler.Proofs.Dispatch
import AgentCompiler.Proofs.TidalMachine

/-!
The act of a cycle, in the code of the main routine. The code for one agent clears its slot and then
compares the number of the message with one schema after the other. So it either comes to the call
of the handler for the first schema with this number, or it comes to its end without a call. Behind
the call it goes on to the next agent, or to the exit if the status is not zero.
-/

namespace AgentCompiler

open Process
open Register (rax rsi rdi)

namespace Dispatch

def dueArm (d : Dispatch) (slots : String → Option Pending) : Option (Arm × Pending) :=
  (slots d.agent.name).bind fun e => (d.arms.find? (·.schema.number = e.schema)).map (·, e)

def callCode (d : Dispatch) (handler : Label) : Code := [.call handler, .check rax, .jcc .ne d.fail,
    .jmp d.next]

variable {P : Process} {observed : Label → Prop} {cap k : Nat} {top : Word}
  {queued : List (AgentLayout × Storage)} {s : Machine} {queues : String → List Pending}
  {slots : String → Option Pending} {d : Dispatch} {arm : Arm} {arms : List Arm} {c : Config}
  {e : Pending}

lemma labelPosition_next (distinct : P.HasDistinctLabels) (placed : P.Holds k d.code) :
    P.labelPosition d.next = some (k + (d.code.length - 1)) := by
  refine labelPosition_of_at distinct (placed.get ?_)
  simp [code]

@[simp] lemma length_armCode (d : Dispatch) (arm : Arm) : (d.armCode arm).length = 9 := rfl

lemma length_flatMap_armCode (d : Dispatch) (arms : List Arm) :
    (arms.flatMap d.armCode).length = 9 * arms.length := by
  simp [List.length_flatMap, mul_comm]

lemma holds_code (placed : P.Holds k d.code) : P.Holds (k + 4) (d.arms.flatMap d.armCode) ∧
    d.code.length = 5 + 9 * d.arms.length := by
  constructor
  · rw [code, holds_append, holds_append] at placed
    exact placed.1.2
  · rw [code, List.length_append, List.length_append, length_flatMap_armCode]
    simp only [List.length_cons, List.length_nil]
    omega

lemma leaves (works : P.Works observed cap top queued c ⟨k + (d.code.length - 1), s⟩)
    (placed : P.Holds k d.code) : P.Works observed cap top queued c ⟨k + d.code.length, s⟩ := by
  have last : d.code[d.code.length - 1]? = some (.label d.next) := by simp [code]
  have length : k + (d.code.length - 1) + 1 = k + d.code.length := by
    have positive : 0 < d.code.length := by simp [code]
    omega
  rw [← length]
  exact works.trans ⟨.single (.effect (placed.get last) (P.effect_label d.next s)), fun _ _ => rfl,
    fun _ _ => rfl⟩

section

variable (works : P.Works observed cap top queued c ⟨k, s⟩)
include works

section

lemma arm_compares (placed : P.Holds k (d.armCode arm)) : ∃ t,
    P.Works observed cap top queued c ⟨k + 1, t⟩ ∧ t.memory = s.memory ∧ t.regs = s.regs ∧
    t.flags = AluOp.cmp.flags (s.regs rax) arm.schema.number :=
  works.stores placed (i := 0) (Q := (· = AluOp.cmp.flags (s.regs rax) arm.schema.number))
    [.arith .cmp rax (Int64.ofNat arm.schema.id)] [] _ rfl rfl (by simp) (fun _ _ => rfl)
    (by simp [SchemaLayout.number])

lemma arm_passes (distinct : P.HasDistinctLabels) (placed : P.Holds k (d.armCode arm))
    (other : s.regs rax ≠ arm.schema.number) :
    ∃ t, P.Works observed cap top queued c ⟨k + 9, t⟩ ∧ t.memory = s.memory ∧ t.regs = s.regs := by
  obtain ⟨t, works, memory, regs, flags⟩ := arm_compares works placed
  have skips := works.branches placed (i := 1) rfl (.inl rfl) (by simp [flags, other])
    (labelPosition_of_at distinct (placed.get (i := 8) rfl))
  obtain ⟨u, works, memory', regs'⟩ := skips.turns placed [.label arm.other] [] rfl rfl (by simp)
    (by simp)
  exact ⟨u, works, memory'.trans memory, regs'.trans regs⟩

lemma arm_reaches (stores : P.Stores cap top queued) (member : (d.agent, d.storage) ∈ queued)
    (small : d.agent.base ≤ maxInt32) (placed : P.Holds k (d.armCode arm))
    (same : s.regs rax = arm.schema.number) :
    ∃ t, P.Works observed cap top queued c ⟨k + 4, t⟩ ∧ P.Holds (k + 4) (d.callCode arm.handler) ∧
      t.memory = s.memory ∧ t.regs rdi = P.symbolAt Pool.stateArena + BitVec.ofNat 64 d.agent.base ∧
      t.regs rsi = s.memory.word (P.symbolAt d.storage.slot) 16 := by
  obtain ⟨t, works, memory, regs, flags⟩ := arm_compares works placed
  have onward := works.passes placed (i := 1) rfl (.inl rfl) (by simp [flags, same])
  have read := read_word (fun x near => stores.mapped _ member x (.inr near))
    (show 16 + 8 ≤ slotSize by decide) (by decide)
  have distance := ofInt_toInt_ofNat small
  rw [Int32.toInt_ofNat'] at distance
  obtain ⟨u, works, memory', regs'⟩ := onward.turns placed
    [.lea rdi (.symbol Pool.stateArena (Int32.ofNat d.agent.base)),
    .move rsi (wordOf d.storage.slot 16)] [(rdi, P.symbolAt Pool.stateArena + BitVec.ofNat 64
      d.agent.base), (rsi, s.memory.word (P.symbolAt d.storage.slot) 16)] rfl rfl (by simp +decide)
    (by simp [wordOf, read, memory, distance])
  exact ⟨u, works, placed.slice 4 4, memory'.trans memory, by simp [regs'], by simp [regs']⟩

lemma arms_pass (distinct : P.HasDistinctLabels) (placed : P.Holds k (arms.flatMap d.armCode))
    (none_of : ∀ arm ∈ arms, s.regs rax ≠ arm.schema.number) :
    ∃ t, P.Works observed cap top queued c ⟨k + 9 * arms.length, t⟩ ∧ t.memory = s.memory ∧
      t.regs = s.regs := by
  induction arms generalizing k s with
  | nil => exact ⟨s, works, rfl, rfl⟩
  | cons arm rest ih =>
    rw [List.flatMap_cons, holds_append] at placed
    rw [List.forall_mem_cons] at none_of
    obtain ⟨t, first, memory, regs⟩ := arm_passes works distinct placed.1 none_of.1
    obtain ⟨u, later, memory', regs'⟩ := ih first placed.2 (by rw [regs]; exact none_of.2)
    have size : k + 9 + 9 * rest.length = k + 9 * (arm :: rest).length := by
      rw [List.length_cons]
      omega
    rw [size] at later
    exact ⟨u, later, memory'.trans memory, regs'.trans regs⟩

end

section

variable (stores : P.Stores cap top queued) (member : (d.agent, d.storage) ∈ queued)
include stores member

lemma test_runs (placed : P.Holds k d.code) (slotted : P.HoldsSlots queued s.memory slots) :
    ∃ t, P.Works observed cap top queued c ⟨k + 1, t⟩ ∧ t.memory = s.memory ∧ t.regs = s.regs ∧
      Condition.e.holds t.flags = some (decide (slots d.agent.name = none)) := by
  have read := read_word (fun x near => stores.mapped _ member x (.inr near))
    (show 0 + 8 ≤ slotSize by decide) (by decide) s
  simp only [BitVec.add_zero] at read
  have active : s.memory.word (P.symbolAt d.storage.slot) 0 = 0 ↔ slots d.agent.name = none := by
    have holds := slotted _ member
    cases content : slots d.agent.name with
    | none =>
      have inactive : s.memory.word (P.symbolAt d.storage.slot) 0 = 0 := by rwa [content] at holds
      simp [inactive]
    | some e =>
      rw [content] at holds
      have active := holds.active
      simp [active]
  have isZero : (s.memory.word (P.symbolAt d.storage.slot) 0 == 0#64) = decide
      (slots d.agent.name = none) := by
    rw [beq_eq_decide]
    exact decide_eq_decide.2 active
  exact works.stores placed (i := 0)
    (Q := fun flags => Condition.e.holds flags = some (decide (slots d.agent.name = none)))
    [.arith .cmp (wordOf d.storage.slot 0) (.imm 0)] [] _ rfl rfl (by simp) (fun _ _ => rfl)
    (by simp [wordOf, read, ← isZero])

lemma clear_runs (placed : P.Holds k d.code) (holds : P.HoldsMail cap queued s.memory queues slots)
    (content : slots d.agent.name = some e) :
    ∃ t, P.Works observed cap top queued c ⟨k + 4, t⟩ ∧ t.regs rax = e.schema ∧
      t.memory.word (P.symbolAt d.storage.slot) 16 = e.payload ∧
      P.HoldsMail cap queued t.memory queues (Function.update slots d.agent.name none) := by
  obtain ⟨t, works, memory, regs, flags⟩ := test_runs works stores member placed holds.slots
  have onward := works.passes placed (i := 1) rfl (.inl rfl) (by rw [flags, content]; rfl)
  have inSlot : ∀ x ∈ cells (P.symbolAt d.storage.slot) slotSize, P.mapped x :=
    fun x near => stores.mapped _ member x (.inr near)
  have narrow : slotSize ≤ UInt64.size := by decide
  have write (u : Machine) (v : Word) : P.write u (P.symbolAt d.storage.slot) .qword v =
      some { u with memory := u.memory.put (P.symbolAt d.storage.slot) 0 v } := by
    simpa using write_word inSlot (show 0 + 8 ≤ slotSize by decide) narrow u v
  have read := read_word inSlot (show 8 + 8 ≤ slotSize by decide) narrow
  have slot := holds.slots _ member
  rw [content] at slot
  have apart (i : Nat) (behind : 8 ≤ i) (inside : i + 8 ≤ slotSize) (v : Word) :
      (s.memory.put (P.symbolAt d.storage.slot) 0 v).word (P.symbolAt d.storage.slot) i =
        s.memory.word (P.symbolAt d.storage.slot) i :=
    Memory.word_put_of_apart (.inr behind) (inside.trans narrow) (by decide)
  have same : Set.EqOn (s.memory.put (P.symbolAt d.storage.slot) 0 0) s.memory
      (P.slotCells d.storage)ᶜ :=
    Memory.put_eqOn (by decide) narrow _ _
  have wider : Set.EqOn (s.memory.put (P.symbolAt d.storage.slot) 0 0) s.memory
      (stackCells top ∪ P.storageCells cap d.storage)ᶜ :=
    same.mono (Set.compl_subset_compl.2 (Set.subset_union_right.trans Set.subset_union_right))
  obtain ⟨u, works, memory', regs', -⟩ := onward.stores placed (Q := fun _ => True)
    [.move (wordOf d.storage.slot 0) (.imm 0), .move rax (wordOf d.storage.slot 8)]
    [(rax, e.schema)] _ rfl rfl (by simp +decide) (memory.symm ▸ Stores.eqOn_mainCells member wider)
    (by simp [wordOf, write, read, memory, apart 8 (by decide) (by decide), slot.schema])
  rw [memory] at memory'
  rw [← memory'] at same wider
  refine ⟨u, works, by simp [regs'], ?_, ?_⟩
  · rw [memory', apart 16 (by decide) (by decide), slot.payload]
  · have queue : QueueAt cap (P.symbolAt d.storage.queue) u.memory (queues d.agent.name) :=
      (holds.queues _ member).congr stores.fits fun x near =>
        same fun inside => Set.disjoint_left.1 (stores.slotApart _ member) near inside
    have cleared : SlotHolds (P.symbolAt d.storage.slot) u.memory none := by
      change u.memory.word _ 0 = 0
      rw [memory', Memory.word_put_self]
    simpa using stores.mail_congr member holds wider queue cleared

lemma skip_runs (distinct : P.HasDistinctLabels) (placed : P.Holds k d.code)
    (holds : P.HoldsMail cap queued s.memory queues slots) (nothing : d.dueArm slots = none) :
    ∃ t, P.Works observed cap top queued c ⟨k + d.code.length, t⟩ ∧
      P.HoldsMail cap queued t.memory queues (Function.update slots d.agent.name none) := by
  cases content : slots d.agent.name with
  | none =>
    obtain ⟨t, works, memory, -, flags⟩ := test_runs works stores member placed holds.slots
    have skips := works.branches placed (i := 1) rfl (.inl rfl) (by rw [flags, content]; rfl)
      (labelPosition_next distinct placed)
    rw [← content, Function.update_eq_self]
    exact ⟨t, leaves skips placed, memory ▸ holds⟩
  | some e =>
    obtain ⟨t, clears, number, -, holds⟩ := clear_runs works stores member placed holds content
    obtain ⟨arms, length⟩ := holds_code placed
    have others : ∀ arm ∈ d.arms, t.regs rax ≠ arm.schema.number := by
      rw [dueArm, content, Option.bind_some, Option.map_eq_none_iff, List.find?_eq_none] at nothing
      intro arm inside equal
      exact nothing arm inside (by simp [← equal, number])
    obtain ⟨u, passes, memory, -⟩ := arms_pass clears distinct arms others
    have last : k + 4 + 9 * d.arms.length = k + (d.code.length - 1) := by omega
    rw [last] at passes
    exact ⟨u, leaves passes placed, memory ▸ holds⟩

end

end

structure IsCall (P : Process) (d : Dispatch) (handler : Label) (e : Pending) (c : Config) :
    Prop where
  holds : P.Holds c.position (d.callCode handler)
  state : c.machine.regs rdi = P.symbolAt Pool.stateArena + BitVec.ofNat 64 d.agent.base
  payload : c.machine.regs rsi = e.payload

lemma due_runs (works : P.Works observed cap top queued c ⟨k, s⟩) (distinct : P.HasDistinctLabels)
    (stores : P.Stores cap top queued) (member : (d.agent, d.storage) ∈ queued)
    (small : d.agent.base ≤ maxInt32) (placed : P.Holds k d.code)
    (holds : P.HoldsMail cap queued s.memory queues slots) (due : d.dueArm slots = some (arm, e)) :
    ∃ c', P.Works observed cap top queued c c' ∧ d.IsCall P arm.handler e c' ∧
      P.HoldsMail cap queued c'.machine.memory queues
      (Function.update slots d.agent.name none) := by
  simp only [dueArm, Option.bind_eq_some_iff, Option.map_eq_some_iff, Prod.mk.injEq] at due
  obtain ⟨_, content, _, found, rfl, rfl⟩ := due
  obtain ⟨t, clears, number, payload, holds⟩ := clear_runs works stores member placed holds content
  obtain ⟨isNumber, before, after, split, others⟩ := List.find?_eq_some_iff_append.1 found
  simp only [decide_eq_true_eq] at isNumber
  obtain ⟨arms, -⟩ := holds_code placed
  rw [split, List.flatMap_append, List.flatMap_cons, holds_append, holds_append] at arms
  obtain ⟨first, own, -⟩ := arms
  have differ : ∀ arm ∈ before, t.regs rax ≠ arm.schema.number := by
    intro arm inside equal
    have other := others arm inside
    simp [← equal, number] at other
  obtain ⟨u, passes, memory, regs⟩ := arms_pass clears distinct first differ
  rw [length_flatMap_armCode] at own
  obtain ⟨v, works, call, memory', state, payload'⟩ := arm_reaches passes stores member small own
    (by rw [regs, number, isNumber])
  exact ⟨⟨_, v⟩, works, ⟨call, state, by rw [payload', memory, payload]⟩,
    (memory'.trans memory).symm ▸ holds⟩

/-- A handler has returned: status zero leads on to the next agent, any other to the exit. -/
lemma return_runs {j p : Nat} (works : P.Works observed cap top queued c ⟨p + 1, s⟩)
    (distinct : P.HasDistinctLabels) (placed : P.Holds k d.code) {handler : Label}
    (call : P.Holds p (d.callCode handler)) (target : P.labelPosition d.fail = some j) :
    ∃ t, t.memory = s.memory ∧ t.regs = s.regs ∧ P.Works observed cap top queued c
      ⟨if s.regs rax = 0 then k + d.code.length else j, t⟩ := by
  obtain ⟨t, works, memory, regs, fails⟩ := works.stores call
    (Q := fun flags => Condition.ne.holds flags = some (!(s.regs rax == 0))) [.check rax]
    [] _ rfl rfl (by simp) (fun _ _ => rfl) (by simp; rfl)
  refine ⟨t, memory, regs, ?_⟩
  split
  next zero =>
    have passes := works.passes call (i := 2) rfl (.inl rfl) (by simp [fails, zero])
    exact leaves (passes.jumps call (i := 3) rfl (.inl rfl) (labelPosition_next distinct placed))
      placed
  next other =>
    exact works.branches call (i := 2) rfl (.inl rfl) (by simpa [fails] using other) target

end Dispatch

end AgentCompiler
