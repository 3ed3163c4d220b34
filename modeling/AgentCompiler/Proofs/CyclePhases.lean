import AgentCompiler.Proofs.DispatchRuns
import AgentCompiler.Proofs.SeedRuns

/-!
The code of the main routine, next to the machine of seed, rest, sense and act. `Cycle.Shows` says
that a configuration of the process stands for a state of that machine: the queues in memory hold
what waits, the counter holds the complete cycles, and control is where the phase starts. From each
such configuration the code goes on to the next one; where a handler is due, it stands at the call.
-/

namespace AgentCompiler

open Process Function Option Tide Emit
open Register (rax rbx rsp rsi rdi rdx r14)

def Plan.IsHandler (plan : Plan) (l : Label) : Prop := ∃ agent schema,
    plan.handler? agent schema = some l

structure Cycle where
  rest : Label
  sense : Label
  fail : Label
  halt : Label
  bound : Code
  dispatches : List Dispatch

namespace Cycle

variable {u : Machine}

def queued (y : Cycle) : List (AgentLayout × Storage) := y.dispatches.map fun d =>
    (d.agent, d.storage)

def ending (y : Cycle) : Code :=
  [.arith .add rbx (.imm 1), .jmp y.rest, .label y.fail, .move rdi rax, .call Service.exit.label,
    .label y.halt, .zero rdi, .call Service.exit.label]

def sensing (y : Cycle) : Code :=
  y.queued.flatMap (fun pair => takeMessage pair.2) ++ (y.dispatches.flatMap (·.code) ++ y.ending)

def resting (y : Cycle) : Code := y.bound ++
    (y.queued.flatMap (fun pair => checkQueue y.sense pair.2) ++
    (.jmp y.halt :: .label y.sense :: y.sensing))

def code (y : Cycle) : Code := .label y.rest :: y.resting

structure Stands (y : Cycle) (P : Process) (plan : Plan) (top : Word) : Prop where
  distinct : P.HasDistinctLabels
  stores : P.Stores plan.settings.queueCapacity.toNat top y.queued
  placed : ∃ k, P.Holds k y.code
  queued_eq : y.queued = plan.queuedAgents
  bound : cycleBound plan.settings y.halt = .ok y.bound
  written : ∀ d ∈ y.dispatches, d.IsWritten plan ∧ d.fail = y.fail
  exitCode : ∃ k, P.Holds k Service.exitCode
  exit : P.outside Service.exit.label = none
  names : (plan.layout.agents.map (·.name)).Nodup
  handled : ∀ a ∈ plan.layout.agents, ∀ schema ∈ (plan.layout.agentUnits a.name).map (·.1),
    (plan.handler? a.name schema.name).isSome
  hidden : ∀ service : Service, ¬ plan.IsHandler service.label

structure Bears (y : Cycle) (P : Process) (plan : Plan) (top : Word) (t : Tide) (s : Machine) :
    Prop where
  queues : P.HoldsQueues plan.settings.queueCapacity.toNat y.queued s.memory fun name =>
    (t.queues name).map (·.message)
  others : ∀ name, name ∉ y.queued.map (·.1.name) → t.queues name = []
  counted : s.regs rbx = BitVec.ofNat 64 t.cycles
  bounded : 0 < plan.settings.maxCycles.toNat → t.cycles ≤ plan.settings.maxCycles.toNat
  stack : s.regs rsp = top

def Free (y : Cycle) (P : Process) (m : Memory) : Prop := P.HoldsSlots y.queued m fun _ => none

def deliveryCode (schema : SchemaLayout) (pair : AgentLayout × Storage) : Code :=
  [.lea rdi (.symbol pair.2.queue 0), .move rsi (Int64.ofNat schema.id), .move rdx r14,
    .call Service.enqueue.label]

def dues (layout : Layout) (letters : String → Option Letter) (todo : List Dispatch) : List Due :=
  todo.filterMap fun d => (letters d.agent.name).bind (layout.due? d.agent)

inductive IsAt (y : Cycle) (P : Process) (plan : Plan) (t : Tide) (c : Config) : Phase → Prop
  | seed {message : Pending} {schema : SchemaLayout} {pairs : List (AgentLayout × Storage)}
      (number : message.schema = schema.number) (payload : c.machine.regs r14 = message.payload)
      (within : pairs ⊆ y.queued) (nodup : (pairs.map (·.1.name)).Nodup)
      (empty : ∀ pair ∈ pairs, t.queues pair.1.name = []) (free : y.Free P c.machine.memory)
      (holds : P.Holds c.position (pairs.flatMap (deliveryCode schema) ++ y.code)) :
      IsAt y P plan t c (.seed message (pairs.map (·.1.name)))
  | rest (free : y.Free P c.machine.memory) (holds : P.Holds c.position y.resting) :
      IsAt y P plan t c .rest
  | act {d : Dispatch} {arm : Arm} {letter : Letter} {todo : List Dispatch}
      {letters : String → Option Letter} {k : Nat} (member : d ∈ y.dispatches) (arms : arm ∈ d.arms)
      (call : d.IsCall P arm.handler letter.message c) (within : todo ⊆ y.dispatches)
      (nodup : (todo.map (·.agent.name)).Nodup)
      (holds : P.Holds k (d.code ++ (todo.flatMap (·.code) ++ y.ending)))
      (slotted : P.HoldsSlots y.queued c.machine.memory fun name => (letters name).map (·.message))
      (others : ∀ name, name ∉ todo.map (·.agent.name) → letters name = none)
      (early : 0 < plan.settings.maxCycles.toNat → t.cycles < plan.settings.maxCycles.toNat) :
      IsAt y P plan t c (.act (⟨d.agent, arm.schema, letter⟩ :: dues plan.layout letters todo))
  | turn (free : y.Free P c.machine.memory) (holds : P.Holds c.position y.ending)
      (early : 0 < plan.settings.maxCycles.toNat → t.cycles < plan.settings.maxCycles.toNat) :
      IsAt y P plan t c (.act [])
  | ended {status : Word} (at_exit : P.code[c.position]? = some (.call Service.exit.label))
      (passed : c.machine.regs rdi = status) : IsAt y P plan t c (.ended status)

structure Shows (y : Cycle) (P : Process) (plan : Plan) (top : Word) (t : Tide) (c : Config) :
    Prop where
  bears : y.Bears P plan top t c.machine
  isAt : y.IsAt P plan t c t.phase

/-- From one memory to the other nothing has changed but the stack, the queues and the slots. -/
def Spares (y : Cycle) (P : Process) (plan : Plan) (top : Word) (m n : Memory) : Prop :=
  Set.EqOn n m (P.mainCells plan.settings.queueCapacity.toNat top y.queued)ᶜ

/-- The code goes on to a configuration that stands for a state of the machine. -/
def Reaches (y : Cycle) (P : Process) (plan : Plan) (top : Word) (c : Config) (u : Tide) : Prop :=
  ∃ c', Relation.TransGen (fun c d => P.Moves plan.IsHandler c [] d) c c' ∧
    y.Shows P plan top u c' ∧ y.Spares P plan top c.machine.memory c'.machine.memory

variable {y : Cycle} {P : Process} {plan : Plan} {top : Word} {t : Tide} {s : Machine} {c : Config}
  {k : Nat} {d : Dispatch} {letters : String → Option Letter}

abbrev Early (plan : Plan) (t : Tide) : Prop :=
  0 < plan.settings.maxCycles.toNat → t.cycles < plan.settings.maxCycles.toNat

abbrev Works (y : Cycle) (P : Process) (plan : Plan) (top : Word) : Config → Config → Prop :=
  P.Works plan.IsHandler plan.settings.queueCapacity.toNat top y.queued

lemma Bears.preserves (bears : y.Bears P plan top t s) (preserves : s.Preserves u)
    (queues : P.HoldsQueues plan.settings.queueCapacity.toNat y.queued u.memory
      fun name => (t.queues name).map (·.message)) : y.Bears P plan top t u where
  queues := queues
  others := bears.others
  counted := (preserves.saved rbx rfl).trans bears.counted
  bounded := bears.bounded
  stack := preserves.stack.trans bears.stack

namespace Stands

lemma mem_queued (member : d ∈ y.dispatches) : (d.agent, d.storage) ∈ y.queued :=
  List.mem_map_of_mem (f := fun d : Dispatch => (d.agent, d.storage)) member

section

variable (stands : y.Stands P plan top)
include stands

lemma mem_agents {pair : AgentLayout × Storage} (member : pair ∈ y.queued) :
    pair.1 ∈ plan.layout.agents ∧ plan.storage? pair.1.name = some pair.2 :=
  mem_queuedAgents (stands.queued_eq ▸ member)

lemma nodup_queued : (y.queued.map (·.1.name)).Nodup := by
  have agents : (plan.queuedAgents.map (·.1)).Sublist plan.layout.agents := by
    have filtered : plan.queuedAgents.map (·.1) = plan.layout.agents.filter fun a =>
        (plan.storage? a.name).isSome := by
      rw [Plan.queuedAgents]
      induction plan.layout.agents with
      | nil => rfl
      | cons a rest ih => cases found : plan.storage? a.name <;> simp [found, ih]
    exact filtered ▸ List.filter_sublist
  have mapped := agents.map (·.name)
  rw [List.map_map, ← stands.queued_eq] at mapped
  exact stands.names.sublist mapped

section

variable (member : d ∈ y.dispatches)
include member

lemma schemaFor?_eq (message : Pending) : plan.layout.schemaFor? d.agent message =
      (d.arms.find? (·.schema.number = message.schema)).map (·.schema) := by
  have agent := (stands.mem_agents (Stands.mem_queued member)).1
  have schemas := (stands.written d member).1.schemas
  rw [List.filter_eq_self.2 (stands.handled d.agent agent)] at schemas
  rw [Layout.schemaFor?, ← schemas, List.find?_map]
  rfl

lemma dueArm_eq_none (nothing : (letters d.agent.name).bind (plan.layout.due? d.agent) = none) :
    d.dueArm (fun name => (letters name).map (·.message)) = none := by
  cases taken : letters d.agent.name with
  | none => simp [Dispatch.dueArm, taken]
  | some letter =>
    simpa [Dispatch.dueArm, Layout.due?, taken, stands.schemaFor?_eq member] using nothing

lemma dueArm_eq_some {due : Due} (found : (letters d.agent.name).bind (plan.layout.due? d.agent) =
    some due) :
    ∃ arm ∈ d.arms, ∃ letter, due = ⟨d.agent, arm.schema, letter⟩ ∧
      d.dueArm (fun name => (letters name).map (·.message)) = some (arm, letter.message) := by
  obtain ⟨letter, taken, handled⟩ := bind_eq_some_iff.1 found
  rw [Layout.due?, stands.schemaFor?_eq member, map_map] at handled
  obtain ⟨arm, first, rfl⟩ := map_eq_some_iff.1 handled
  exact ⟨arm, List.mem_of_find?_eq_some first, letter, rfl, by simp [Dispatch.dueArm, taken, first]⟩

end

end

section

section

variable (stands : y.Stands P plan top)
include stands

lemma restPosition : ∃ k, P.labelPosition y.rest = some k ∧ P.Holds k y.code := by
  obtain ⟨k, placed⟩ := stands.placed
  exact ⟨k, placed.labelPosition stands.distinct, placed⟩

lemma sensePosition : ∃ k, P.labelPosition y.sense = some k ∧
    P.Holds k (.label y.sense :: y.sensing) := by
  obtain ⟨k, placed⟩ := stands.placed
  rw [code, holds_cons, resting, holds_append, holds_append, holds_cons] at placed
  obtain ⟨-, -, -, -, sense⟩ := placed
  exact ⟨_, sense.labelPosition stands.distinct, sense⟩

lemma ending_placed : ∃ k, P.Holds k y.ending := by
  obtain ⟨k, -, placed⟩ := stands.sensePosition
  rw [sensing, holds_cons, holds_append, holds_append] at placed
  exact ⟨_, placed.2.2.2⟩

lemma failPosition : ∃ k, P.labelPosition y.fail = some k ∧
    P.Holds k [.label y.fail, .move rdi rax, .call Service.exit.label] := by
  obtain ⟨k, placed⟩ := stands.ending_placed
  exact ⟨k + 2, labelPosition_of_at stands.distinct (placed.get (i := 2) rfl), placed.slice 2 3⟩

lemma haltPosition : ∃ k, P.labelPosition y.halt = some k ∧
    P.Holds k [.label y.halt, .zero rdi, .call Service.exit.label] := by
  obtain ⟨k, placed⟩ := stands.ending_placed
  exact ⟨k + 5, labelPosition_of_at stands.distinct (placed.get (i := 5) rfl), placed.slice 5 3⟩

lemma exit_flows (s : Machine) : ∃ k u,
    P.labelPosition Service.exit.label = some (k + 1) ∧ P.Holds k Service.exitCode ∧
    P.Flows ⟨k + 1, s⟩ ⟨k + 3, u⟩ ∧ u.regs rax = 60 ∧ u.regs rdi = s.regs rdi := by
  obtain ⟨k, placed⟩ := stands.exitCode
  obtain ⟨u, result⟩ := placed.flows (i := 1) [.label Service.exit.label, .move rax Service.sysExit]
    rfl rfl (show ∃ u, P.execute _ s = some u ∧ u.regs rax = 60 ∧ u.regs rdi = s.regs rdi by
      simp [Service.sysExit])
  exact ⟨k, u, labelPosition_of_at stands.distinct (placed.get (i := 1) rfl), placed, result⟩

section

variable (at_k : P.code[k]? = some (.call Service.exit.label))
include at_k

lemma exit_stops : ¬ P.Answers k Service.exit.label s u := by
  intro answers
  cases answers with
  | outside known => simp [stands.exit] at known
  | @followed d _ _ enters returns =>
    obtain ⟨j, v, entry, placed, flows, -⟩ := stands.exit_flows d.machine
    have position : d = ⟨j + 1, d.machine⟩ := by
      simp only [step, at_k, stands.exit, bind_some] at enters
      obtain ⟨pushed, -, jumps⟩ := bind_eq_some_iff.1 enters
      obtain ⟨_, target, rfl⟩ := map_eq_some_iff.1 jumps
      rw [entry] at target
      rw [some.inj target]
    rw [← position] at flows
    -- behind the call of the system stands an instruction that has no next state
    have at_trap := placed.get (i := 4) rfl
    have trapped (m : Machine) : P.step ⟨j + 4, m⟩ = none := by simp [step, at_trap, effect]
    have at_call := placed.get (i := 3) rfl
    cases returns.after_flows flows with
    | ret at_ret => simp [at_call] at at_ret
    | call at_other => simp [at_call] at at_other
    | step goes rest =>
      have next := goes.2
      simp only [step, at_call, bind_some] at next
      obtain ⟨m, -, rfl⟩ := map_eq_some_iff.1 next
      cases rest with
      | ret _ runs => simp [trapped] at runs
      | call at_other => simp [at_trap] at at_other
      | step goes => simp [Goes, trapped] at goes

lemma exits (stack : s.regs rsp = top) :
    ∃ d e, P.step ⟨k, s⟩ = some d ∧ P.Flows d e ∧ P.code[e.position]? = some .syscall ∧
      e.machine.regs rax = 60 ∧ e.machine.regs rdi = s.regs rdi := by
  obtain ⟨j, u, entry, placed, flows, number, status⟩ := stands.exit_flows (P.entering k s)
  have mapped : ∀ x ∈ cells (s.regs rsp - 8) Width.qword.bytes, P.mapped x := by
    rw [stack]
    exact stands.stores.stack
  exact ⟨_, _, P.step_call at_k stands.exit mapped entry, flows, placed.get (i := 3) rfl, number,
    status.trans (P.entering_regs (by decide))⟩

end

end

end

end Stands

lemma Reaches.after {c d : Config} {u : Tide} (reaches : y.Reaches P plan top d u)
    (works : y.Works P plan top c d) :
    y.Reaches P plan top c u := by
  obtain ⟨e, moves, shows, same⟩ := reaches
  exact ⟨e, .trans_right works.reaches moves, shows, same.trans works.memory⟩

lemma ends (bears : y.Bears P plan top t s) {l : Label} {i : Instruction} {status : Word}
    (placed : P.Holds k [.label l, i, .call Service.exit.label])
    (runs : ∃ u, P.effect i s = some u ∧ u.memory = s.memory ∧
    u.regs = putAll s.regs [(rdi, status)]) :
    y.Reaches P plan top ⟨k, s⟩ { t with phase := .ended status } := by
  obtain ⟨u, runs, memory, regs⟩ := runs
  refine ⟨⟨k + 2, u⟩, .tail (.single (.effect (placed.get (i := 0) rfl) rfl))
    (.effect (placed.get (i := 1) rfl) runs), ⟨⟨memory ▸ bears.queues, bears.others, ?_,
    bears.bounded, ?_⟩, .ended (placed.get (i := 2) rfl) (by simp [regs])⟩,
    fun _ _ => by rw [memory]⟩
  · simpa [regs] using bears.counted
  · simpa [regs] using bears.stack

section

variable (stands : y.Stands P plan top) (bears : y.Bears P plan top t s)
include stands bears

lemma Stands.halts
    (target : P.labelPosition y.halt = some k) : y.Reaches P plan top ⟨k, s⟩
    { t with phase := .ended 0 } := by
  obtain ⟨j, position, placed⟩ := stands.haltPosition
  obtain rfl := some.inj (position.symm.trans target)
  exact ends bears placed (by simp)

lemma Stands.fails (target : P.labelPosition y.fail = some k) :
    y.Reaches P plan top ⟨k, s⟩ { t with phase := .ended (s.regs rax) } := by
  obtain ⟨j, position, placed⟩ := stands.failPosition
  obtain rfl := some.inj (position.symm.trans target)
  exact ends bears placed (by simp)

end

section

variable {todo : List Dispatch}

lemma dues_update {name : String} (other : name ∉ todo.map (·.agent.name)) :
    dues plan.layout (update letters name none) todo = dues plan.layout letters todo := by
  refine List.filterMap_congr fun d inside => ?_
  have differ : d.agent.name ≠ name := fun equal =>
    other (equal ▸ List.mem_map_of_mem (f := fun d : Dispatch => d.agent.name) inside)
  rw [update_of_ne differ]

lemma map_update (letters : String → Option Letter) (name : String) :
    (fun n => (update letters name none n).map (·.message)) = update
        (fun n => (letters n).map (·.message)) name none :=
  comp_update (Option.map Letter.message) letters name none

lemma Stands.acts_run (stands : y.Stands P plan top) (works : y.Works P plan top c ⟨k, s⟩)
    (within : todo ⊆ y.dispatches) (nodup : (todo.map (·.agent.name)).Nodup)
    (placed : P.Holds k (todo.flatMap (·.code) ++ y.ending)) (bears : y.Bears P plan top t s)
    (slotted : P.HoldsSlots y.queued s.memory fun name => (letters name).map (·.message))
    (others : ∀ name, name ∉ todo.map (·.agent.name) → letters name = none) (early : Early plan t)
    (isPhase : t.phase = .act (dues plan.layout letters todo)) :
    ∃ c', y.Works P plan top c c' ∧ y.Shows P plan top t c' := by
  induction todo generalizing k s letters with
  | nil =>
    have free : y.Free P s.memory := by
      have nothing : (fun name => (letters name).map (·.message)) = fun _ => none := by
        funext name
        simp [others name]
      rwa [nothing] at slotted
    exact ⟨⟨k, s⟩, works, bears, isPhase ▸ .turn free placed early⟩
  | cons d rest ih =>
    obtain ⟨member, within⟩ := List.cons_subset.1 within
    rw [List.map_cons, List.nodup_cons] at nodup
    rw [List.flatMap_cons, List.append_assoc] at placed
    obtain ⟨own, behind⟩ := holds_append.1 placed
    have others' : ∀ name, name ∉ rest.map (·.agent.name) → update letters d.agent.name none
        name = none := by
      intro name outside
      by_cases equal : name = d.agent.name
      · rw [equal, update_self]
      · rw [update_of_ne equal]
        exact others name (by simp [equal, outside])
    have here : y.Works P plan top ⟨k, s⟩ ⟨k, s⟩ := .refl _
    cases found : (letters d.agent.name).bind (plan.layout.due? d.agent) with
    | none =>
      obtain ⟨u, skips, queues, slots⟩ := Dispatch.skip_runs here stands.stores
        (Stands.mem_queued member) stands.distinct own ⟨bears.queues, slotted⟩
        (stands.dueArm_eq_none member found)
      refine ih (works.trans skips) within nodup.2 behind (bears.preserves skips.preserves queues)
        (map_update letters d.agent.name ▸ slots) others' ?_
      rw [dues_update nodup.1, isPhase]
      exact congrArg _ (List.filterMap_cons_none found)
    | some due =>
      obtain ⟨arm, arms, letter, rfl, dueArm⟩ := stands.dueArm_eq_some member found
      obtain ⟨c', goes, call, queues, slots⟩ := Dispatch.due_runs here stands.distinct stands.stores
        (Stands.mem_queued member) (stands.written d member).1.base_le own
        ⟨bears.queues, slotted⟩ dueArm
      have isPhase' : t.phase = .act (⟨d.agent, arm.schema, letter⟩ ::
          dues plan.layout (update letters d.agent.name none) rest) := by
        rw [dues_update nodup.1, isPhase]
        exact congrArg _ (List.filterMap_cons_some found)
      refine ⟨c', works.trans goes, bears.preserves goes.preserves queues, ?_⟩
      rw [isPhase']
      exact .act member arms call within nodup.2 placed (map_update letters d.agent.name ▸ slots)
        others' early

end

section

section

variable (stands : y.Stands P plan top) (bears : y.Bears P plan top t s)
include stands bears

lemma Bears.all_empty : (∀ pair ∈ y.queued, (t.queues pair.1.name).map (·.message) = []) ↔
      ∀ a ∈ plan.layout.agents, (t.queues a.name).isEmpty = true := by
  constructor
  · intro empty a _
    by_cases known : a.name ∈ y.queued.map (·.1.name)
    · obtain ⟨pair, member, same⟩ := List.mem_map.1 known
      simpa [same] using empty pair member
    · simp [bears.others a.name known]
  · intro empty pair member
    simpa using empty pair.1 (stands.mem_agents member).1

lemma Bears.dues_eq : dues plan.layout (fun name => (t.queues name).head?) y.dispatches =
    t.due plan.layout := by
  have agents : y.dispatches.map (·.agent) = plan.queuedAgents.map (·.1) := by
    rw [← stands.queued_eq, queued, List.map_map]
    rfl
  have split : dues plan.layout (fun name => (t.queues name).head?) y.dispatches =
      (plan.queuedAgents.map (·.1)).filterMap (t.dueFor plan.layout) := by
    rw [← agents, List.filterMap_map]
    rfl
  rw [split, Plan.queuedAgents, List.map_filterMap, List.filterMap_filterMap, Tide.due]
  refine List.filterMap_congr fun a _ => ?_
  cases found : plan.storage? a.name with
  | some storage => simp
  | none =>
    have unknown : a.name ∉ y.queued.map (·.1.name) := by
      intro known
      obtain ⟨pair, member, same⟩ := List.mem_map.1 known
      have stored := (stands.mem_agents member).2
      rw [same, found] at stored
      cases stored
    simp [dueFor, bears.others a.name unknown]

section

variable (free : y.Free P s.memory)
include free

/-- The oldest messages are taken, and the first handler that is due is reached. -/
lemma Stands.senses (holds : P.Holds k y.sensing) (early : Early plan t) :
    ∃ c, y.Works P plan top ⟨k, s⟩ c ∧ y.Shows P plan top (t.sense plan.layout) c := by
  rw [sensing, holds_append] at holds
  have here : y.Works P plan top ⟨k, s⟩ ⟨k, s⟩ := .refl _
  obtain ⟨u, takes, queues, slots⟩ := takes_run here stands.stores (stands.hidden .dequeue)
    (List.Subset.refl _) stands.nodup_queued holds.1 bears.stack ⟨bears.queues, free⟩ fun _ _ => rfl
  have slots' : P.HoldsSlots y.queued u.memory fun name => ((t.queues name).head?).map
      (·.message) := by
    intro pair member
    have own := slots pair member
    simp only [Stores.mem_names member, if_true] at own
    simpa using own
  have bears' : y.Bears P plan top (t.sense plan.layout) u := {
    queues := fun pair member => by
      have own := queues pair member
      simp only [Stores.mem_names member, if_true] at own
      simpa [Tide.sense] using own
    others := fun name unknown => by simp [Tide.sense, bears.others name unknown]
    counted := (takes.preserves.saved rbx rfl).trans bears.counted
    bounded := bears.bounded
    stack := takes.preserves.stack.trans bears.stack }
  have names : y.dispatches.map (·.agent.name) = y.queued.map (·.1.name) := by
    rw [queued, List.map_map]
    rfl
  have others : ∀ name, name ∉ y.dispatches.map (·.agent.name) → (t.queues name).head? = none := by
    intro name unknown
    simp [bears.others name (names ▸ unknown)]
  rw [length_flatMap_takeMessage] at holds
  exact stands.acts_run takes (List.Subset.refl _) (names ▸ stands.nodup_queued) holds.2 bears'
    slots' others early (by rw [bears.dues_eq stands]; rfl)

lemma Stands.rests (holds : P.Holds k y.resting) :
    y.Reaches P plan top ⟨k, s⟩ (if t.IsOver plan.layout plan.settings.maxCycles.toNat
      then { t with phase := .ended 0 } else t.sense plan.layout) := by
  rw [resting, holds_append, holds_append, holds_cons, length_flatMap_checkQueue] at holds
  obtain ⟨bound, checks, at_jump, -⟩ := holds
  obtain ⟨h, haltAt, -⟩ := stands.haltPosition
  obtain ⟨j, senseAt, sensing⟩ := stands.sensePosition
  obtain ⟨at_sense, sensing⟩ := holds_cons.1 sensing
  have here : y.Works P plan top ⟨k, s⟩ ⟨k, s⟩ := .refl _
  obtain ⟨u, memory, compares⟩ := bound_runs here stands.bound bound haltAt bears.counted
    bears.bounded
  have bears' : y.Bears P plan top t u := bears.preserves compares.preserves (memory ▸ bears.queues)
  by_cases reached : 0 < plan.settings.maxCycles.toNat ∧ plan.settings.maxCycles.toNat ≤ t.cycles
  · rw [if_pos (show t.IsOver _ _ from .inl reached)]
    rw [if_pos reached] at compares
    exact (stands.halts bears' haltAt).after compares
  rw [if_neg reached] at compares
  obtain ⟨v, memory', looks⟩ := checks_run compares stands.stores (List.Subset.refl _) checks
    senseAt bears'.queues
  have bears'' : y.Bears P plan top t v := bears.preserves looks.preserves
    (memory' ▸ memory ▸ bears.queues)
  by_cases empty : ∀ pair ∈ y.queued, (t.queues pair.1.name).map (·.message) = []
  · rw [if_pos (show t.IsOver _ _ from .inr ((bears.all_empty stands).1 empty))]
    rw [if_pos empty] at looks
    exact (stands.halts bears'' haltAt).after
      (looks.trans ⟨.single (.jump at_jump haltAt), fun _ _ => rfl, fun _ _ => rfl⟩)
  · have notOver : ¬ t.IsOver plan.layout plan.settings.maxCycles.toNat := fun ends =>
      ends.elim reached fun all => empty ((bears.all_empty stands).2 all)
    rw [if_neg notOver]
    rw [if_neg empty] at looks
    obtain ⟨c, senses, shows⟩ := stands.senses bears'' (memory' ▸ memory ▸ free) sensing
        fun positive =>
      not_le.1 fun late => reached ⟨positive, late⟩
    have enters : P.Moves plan.IsHandler ⟨j, v⟩ [] ⟨j + 1, v⟩ := .effect at_sense
      (P.effect_label _ v)
    exact .after ⟨c, .head' enters senses.reaches, shows, senses.memory⟩ looks

lemma Stands.turns (holds : P.Holds k y.ending) (early : Early plan t) :
    y.Reaches P plan top ⟨k, s⟩ { t with cycles := t.cycles + 1, phase := .rest } := by
  obtain ⟨j, restAt, placed⟩ := stands.restPosition
  obtain ⟨at_rest, placed⟩ := holds_cons.1 placed
  obtain ⟨u, counts, memory, changes, counted⟩ : ∃ u, P.effect (.arith .add rbx (.imm 1))
      s = some u ∧ u.memory = s.memory ∧ s.ChangesOnly [rbx] u ∧ u.regs rbx = BitVec.ofNat 64
      (t.cycles + 1) := by
    simp +contextual [bears.counted, ofNat_succ, Machine.ChangesOnly]
  have jumps : P.Moves plan.IsHandler ⟨k + 1, u⟩ [] ⟨j, u⟩ := .jump (holds.get (i := 1) rfl) restAt
  have enters : P.Moves plan.IsHandler ⟨j, u⟩ [] ⟨j + 1, u⟩ := .effect at_rest (P.effect_label _ u)
  refine ⟨⟨j + 1, u⟩, .tail (.tail (.single (.effect (holds.get (i := 0) rfl) counts)) jumps)
    enters, ⟨?_, .rest (memory ▸ free) placed⟩, fun _ _ => by rw [memory]⟩
  exact {
    queues := memory ▸ bears.queues
    others := bears.others
    counted := counted
    bounded := fun positive => early positive
    stack := (changes rsp (by decide)).trans bears.stack }

end

end

end

section

variable {message : Pending} {schema : SchemaLayout} {pair : AgentLayout × Storage}
  {pairs : List (AgentLayout × Storage)}

lemma Stands.delivers (stands : y.Stands P plan top) (bears : y.Bears P plan top t s)
    (number : message.schema = schema.number) (payload : s.regs r14 = message.payload)
    (within : pair :: pairs ⊆ y.queued) (nodup : ((pair :: pairs).map (·.1.name)).Nodup)
    (empty : ∀ other ∈ pair :: pairs, t.queues other.1.name = []) (free : y.Free P s.memory)
    (holds : P.Holds k ((pair :: pairs).flatMap (deliveryCode schema) ++ y.code)) :
    y.Reaches P plan top ⟨k, s⟩ { t with
      queues := update t.queues pair.1.name (t.queues pair.1.name ++ [⟨message, 0⟩])
      phase := .seed message (pairs.map (·.1.name)) } := by
  obtain ⟨member, within⟩ := List.cons_subset.1 within
  rw [List.map_cons, List.nodup_cons] at nodup
  rw [List.forall_mem_cons] at empty
  rw [List.flatMap_cons, List.append_assoc, holds_append] at holds
  obtain ⟨own, behind⟩ := holds
  have room : ((t.queues pair.1.name).map (·.message)).length <
      plan.settings.queueCapacity.toNat := by
    rw [empty.1]
    exact stands.stores.services.elim fun _ services => services.positive
  obtain ⟨u, runs, queues, slots⟩ := seedDelivery_runs stands.stores (stands.hidden .enqueue)
    member own bears.stack ⟨bears.queues, free⟩ room
  have moves := (Relation.reflTransGen_iff_eq_or_transGen.1 runs.reaches).resolve_left (by simp)
  have queues' : P.HoldsQueues plan.settings.queueCapacity.toNat y.queued u.memory fun name =>
      (update t.queues pair.1.name (t.queues pair.1.name ++ [⟨message, 0⟩]) name).map
          (·.message) := by
    intro other inside
    have held := queues other inside
    by_cases same : other.1.name = pair.1.name
    · simpa [same, ← number, payload] using held
    · simpa [same] using held
  have different (other : AgentLayout × Storage) (inside : other ∈ pairs) :
      other.1.name ≠ pair.1.name :=
    fun equal => nodup.1 (equal ▸ Stores.mem_names inside)
  refine ⟨⟨k + 4, u⟩, moves, ⟨⟨queues', fun name unknown => ?_, (runs.preserves.saved rbx rfl).trans
    bears.counted, bears.bounded, runs.preserves.stack.trans bears.stack⟩,
    .seed number ((runs.preserves.saved r14 rfl).trans payload) within nodup.2
    (fun other inside => ?_) slots behind⟩, runs.memory⟩
  · have differ : name ≠ pair.1.name := fun equal =>
      unknown (equal ▸ Stores.mem_names member)
    exact (update_of_ne differ _ _).trans (bears.others name unknown)
  · exact (update_of_ne (different other inside) _ _).trans (empty.2 other inside)

lemma settles (bears : y.Bears P plan top t s) (free : y.Free P s.memory)
    (holds : P.Holds k y.code) :
    y.Reaches P plan top ⟨k, s⟩ { t with phase := .rest } := by
  obtain ⟨at_rest, placed⟩ := holds_cons.1 holds
  exact ⟨⟨k + 1, s⟩, .single (.effect at_rest (P.effect_label _ s)),
    ⟨⟨bears.queues, bears.others, bears.counted, bears.bounded, bears.stack⟩, .rest free placed⟩,
    fun _ _ => rfl⟩

end

lemma Stands.next (stands : y.Stands P plan top) {u : Tide} (shows : y.Shows P plan top t c)
    (goes : t.next? plan.layout plan.settings.maxCycles.toNat = some u) :
    y.Reaches P plan top c u := by
  obtain ⟨bears, isAt⟩ := shows
  generalize isPhase : t.phase = phase at isAt
  cases isAt with
  | @seed message schema pairs number payload within nodup empty free holds =>
    cases pairs with
    | nil =>
      obtain rfl : { t with phase := .rest } = u := by simpa [next?, isPhase] using goes
      exact settles bears free holds
    | cons pair pairs =>
      simp only [next?, isPhase, List.map_cons, some.injEq] at goes
      subst goes
      exact stands.delivers bears number payload within nodup empty free holds
  | rest free holds =>
    simp only [next?, isPhase, some.injEq] at goes
    subst goes
    exact stands.rests bears free holds
  | turn free holds early =>
    obtain rfl : { t with cycles := t.cycles + 1, phase := .rest } = u := by
      simpa [next?, isPhase] using goes
    exact stands.turns bears free holds early
  | act => simp [next?, isPhase] at goes
  | ended => simp [next?, isPhase] at goes

end Cycle

end AgentCompiler
