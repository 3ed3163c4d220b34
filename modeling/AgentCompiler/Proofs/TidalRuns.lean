import AgentCompiler.Proofs.CyclePhases

/-!
Runs of the main routine are runs of the machine of seed, rest, sense and act. Handlers may do
whatever they like, as long as they give back the stack and the registers of their caller, leave the
slots alone and change queues only by appending messages through the service.
-/

namespace AgentCompiler

open List Process

open Register (rax rbx rsi rdi)

structure Process.IsPolite (P : Process) (cap : Nat) (queued : List (AgentLayout × Storage))
    (s u : Machine) : Prop where
  preserves : s.Preserves u
  slots : ∀ pair ∈ queued, Set.EqOn u.memory s.memory (P.slotCells pair.2)
  queues : ∀ pair ∈ queued, ∃ sent : List Pending,
    QueueRun P cap (P.symbolAt pair.2.queue) s.memory (sent.map .enqueue) u.memory

lemma foldlM_enqueue {cap : Nat} {sent entries after : List Pending}
    (pending : (sent.map QueueCall.enqueue).foldlM (QueueCall.apply cap) entries = some after) :
    after = entries ++ sent := by
  induction sent generalizing entries with
  | nil => simpa using pending.symm
  | cons e rest ih =>
    rw [map_cons, foldlM_cons] at pending
    obtain ⟨next, applied, pending⟩ := Option.bind_eq_some_iff.1 pending
    have room : entries.length < cap := by
      by_contra full
      simp [QueueCall.apply, full] at applied
    obtain rfl : entries ++ [e] = next := by simpa [QueueCall.apply, room] using applied
    simp [ih pending]

lemma Process.IsPolite.sends {P : Process} {cap : Nat} {top : Word}
    {queued : List (AgentLayout × Storage)} {s u : Machine} {queues : String → List Pending}
    (polite : P.IsPolite cap queued s u) (stores : P.Stores cap top queued)
    (holds : P.HoldsQueues cap queued s.memory queues) :
    ∃ sent : String → List Pending, (∀ name, name ∉ queued.map (·.1.name) → sent name = []) ∧
      P.HoldsQueues cap queued u.memory fun name => queues name ++ sent name := by
  obtain ⟨overflow, services⟩ := stores.services
  have appended : ∀ name, ∃ sent : List Pending, (name ∉ queued.map (·.1.name) → sent = []) ∧
      ∀ pair ∈ queued, pair.1.name = name →
        QueueAt cap (P.symbolAt pair.2.queue) u.memory (queues name ++ sent) := by
    intro name
    by_cases known : name ∈ queued.map (·.1.name)
    · obtain ⟨pair, mem, rfl⟩ := mem_map.1 known
      obtain ⟨sent, run⟩ := polite.queues pair mem
      obtain ⟨after, pending, held⟩ := run.continues services
        (fun x near => stores.mapped pair mem x (.inl near)) (holds pair mem)
      refine ⟨sent, fun unknown => absurd known unknown, fun other inside same => ?_⟩
      obtain rfl := stores.unique other inside pair mem same
      exact foldlM_enqueue pending ▸ held
    · exact ⟨[], fun _ => rfl, fun pair mem same =>
        absurd (same ▸ Stores.mem_names mem) known⟩
  choose sent none_of held using appended
  exact ⟨sent, none_of, fun pair mem => held _ pair mem rfl⟩

/-- A call of a handler is what the machine says about it: the handler of the agent for the schema,
on the agent's state and the payload of the message, with its status and with what it has sent. -/
structure Plan.Records (plan : Plan) (P : Process) (h : Handling) (r : CallRecord) : Prop where
  label : plan.handler? h.due.agent.name h.due.schema.name = some r.label
  state : r.before.regs rdi = P.symbolAt Pool.stateArena + BitVec.ofNat 64 h.due.agent.base
  payload : r.before.regs rsi = h.due.letter.message.payload
  status : r.after.regs rax = h.status
  sent : ∀ pair ∈ plan.queuedAgents, ∃ entries,
    QueueAt plan.settings.queueCapacity.toNat (P.symbolAt pair.2.queue) r.before.memory entries ∧
    QueueAt plan.settings.queueCapacity.toNat (P.symbolAt pair.2.queue) r.after.memory
      (entries ++ h.sent pair.1.name)

namespace Cycle

variable {y : Cycle} {P : Process} {plan : Plan} {top : Word} {t first : Tide} {c e : Config}
  {due : Due} {more : List Due} {calls : List CallRecord}

section

variable (stands : y.Stands P plan top)
include stands

/-- Behind the call of a handler: the machine has its status and what it has sent, and the code goes
on to the next handler, to the end of the cycle or to the exit. -/
lemma Stands.resumes {s u : Machine} {d : Dispatch} {todo : List Dispatch}
    {letters : String → Option Letter} {handler : Label} {sent : String → List Pending} {k p : Nat}
    (bears : y.Bears P plan top t s) (preserves : s.Preserves u) (mem : d ∈ y.dispatches)
    (call : P.Holds p (d.callCode handler)) (within : todo ⊆ y.dispatches)
    (nodup : (todo.map (·.agent.name)).Nodup)
    (holds : P.Holds k (d.code ++ (todo.flatMap (·.code) ++ y.ending)))
    (queues : P.HoldsQueues plan.settings.queueCapacity.toNat y.queued u.memory
      fun name => (t.queues name).map (·.message) ++ sent name)
    (silent : ∀ name, name ∉ y.queued.map (·.1.name) → sent name = [])
    (slotted : P.HoldsSlots y.queued u.memory fun name => (letters name).map (·.message))
    (others : ∀ name, name ∉ todo.map (·.agent.name) → letters name = none)
    (early : Early plan t) : ∃ c, P.Quietly plan.IsHandler ⟨p + 1, u⟩ c ∧
      y.Shows P plan top (t.after (dues plan.layout letters todo) (u.regs rax) sent) c ∧
      y.Spares P plan top u.memory c.machine.memory := by
  obtain ⟨own, behind⟩ := holds_append.1 holds
  obtain ⟨j, failAt, -⟩ := stands.failPosition
  rw [← (stands.written d mem).2] at failAt
  have here : y.Works P plan top ⟨p + 1, u⟩ ⟨p + 1, u⟩ := .refl _
  obtain ⟨v, memory, regs, returns⟩ := Dispatch.return_runs here stands.distinct own call failAt
  have bears' : y.Bears P plan top (t.after (dues plan.layout letters todo) (u.regs rax) sent) v :=
    {
    queues := by
      simp only [memory, Tide.after, map_append, map_map, Function.comp_def, map_id']
      exact queues
    others := fun name unknown => by
      simp [Tide.after, bears.others name unknown, silent name unknown]
    counted := by
      rw [regs]
      exact (preserves.saved rbx rfl).trans bears.counted
    bounded := bears.bounded
    stack := by
      rw [regs]
      exact preserves.stack.trans bears.stack }
  split at returns
  next zero =>
    have isPhase : (t.after (dues plan.layout letters todo) (u.regs rax) sent).phase =
        .act (dues plan.layout letters todo) := if_pos zero
    obtain ⟨c, acts, shows⟩ := stands.acts_run returns within nodup behind bears' (memory ▸ slotted)
      others early isPhase
    exact ⟨c, acts.reaches, shows, acts.memory⟩
  next other =>
    rw [(stands.written d mem).2] at failAt
    obtain ⟨c, ends, shows, same⟩ := (stands.fails bears' failAt).after returns
    refine ⟨c, ends.to_reflTransGen, ?_, same⟩
    have isPhase : (t.after (dues plan.layout letters todo) (u.regs rax) sent).phase =
        .ended (v.regs rax) := by
      rw [regs]
      exact if_neg other
    rw [← isPhase] at shows
    exact shows

lemma Shows.handles (shows : y.Shows P plan top t c) (acts : t.phase = .act (due :: more))
    (moves : P.Moves plan.IsHandler c calls e)
    (polite : ∀ l u, P.code[c.position]? = some (.call l) → plan.IsHandler l →
      P.Answers c.position l c.machine u → P.IsPolite plan.settings.queueCapacity.toNat
      plan.queuedAgents c.machine u) :
    ∃ r sent c', calls = [r] ∧ r.before = c.machine ∧
      plan.Records P ⟨t.cycles + 1, due, r.after.regs rax, sent⟩ r ∧ P.Quietly plan.IsHandler e c' ∧
      y.Shows P plan top (t.after more (r.after.regs rax) sent) c' ∧
      y.Spares P plan top r.after.memory c'.machine.memory := by
  obtain ⟨bears, isAt⟩ := shows
  rw [acts] at isAt
  generalize isPhase : Phase.act (due :: more) = phase at isAt
  cases isAt with
  | @act d arm letter todo letters k mem arms call within nodup holds slotted others early =>
    obtain ⟨rfl, rfl⟩ := cons.inj (Phase.act.inj isPhase)
    have at_call := call.holds.get (i := 0) rfl
    have known := (stands.written d mem).1.handlers arm arms
    cases moves with
    | step plain => exact absurd at_call (plain _)
    | call at_k hidden =>
      obtain rfl := called_eq at_call at_k
      exact absurd ⟨_, _, known⟩ hidden
    | @observe p l s u at_k seen answers =>
      obtain rfl := called_eq at_call at_k
      have kept := polite _ _ at_k seen answers
      rw [← stands.queued_eq] at kept
      obtain ⟨sent, silent, queues⟩ := kept.sends stands.stores bears.queues
      have slots := fun pair inside => (slotted pair inside).congr (kept.slots pair inside)
      obtain ⟨c', quiet, shows, same⟩ := stands.resumes bears kept.preserves mem call.holds within
        nodup holds queues silent slots others early
      refine ⟨⟨arm.handler, s, u⟩, sent, c', rfl, rfl, ⟨known, call.state, call.payload, rfl, ?_⟩,
        quiet, shows, same⟩
      intro pair inside
      rw [← stands.queued_eq] at inside
      exact ⟨_, bears.queues pair inside, queues pair inside⟩
  | seed => cases isPhase
  | rest => cases isPhase
  | turn => cases isPhase
  | ended => cases isPhase

lemma Shows.stops (shows : y.Shows P plan top t c) {status : Word} (ended : t.phase = .ended status)
    : ¬ P.Moves plan.IsHandler c calls e := by
  intro moves
  obtain ⟨-, isAt⟩ := shows
  rw [ended] at isAt
  cases isAt with
  | ended at_exit =>
    cases moves with
    | step plain => exact plain _ at_exit
    | call at_k _ answers =>
      obtain rfl := called_eq at_exit at_k
      exact stands.exit_stops at_k answers
    | observe at_k seen =>
      obtain rfl := called_eq at_exit at_k
      exact stands.hidden .exit seen

def lastMemory (origin : Memory) (calls : List CallRecord) : Memory := calls.getLast?.elim origin
    (·.after.memory)

/-- A run has come as far as a state of the machine, with these handlers run. Between the calls
nothing has changed but the stack, the queues and the slots. -/
structure Follows (y : Cycle) (P : Process) (plan : Plan) (top : Word) (first : Tide)
    (origin : Memory)
    (calls : List CallRecord) (c : Config) (hs : List Handling) (t : Tide) (c' : Config) :
    Prop where
  run : Tide.Run plan.layout plan.settings.maxCycles.toNat first hs t
  records : List.Forall₂ (plan.Records P) hs calls
  quiet : P.Quietly plan.IsHandler c c'
  shows : y.Shows P plan top t c'
  spares : calls.IsChain fun r r' => y.Spares P plan top r.after.memory r'.before.memory
  leads : ∀ r ∈ calls.head?, y.Spares P plan top origin r.before.memory
  since : y.Spares P plan top (lastMemory origin calls) c'.machine.memory

lemma Follows.step {origin : Memory} {hs : List Handling} {more : List CallRecord}
    (follows : y.Follows P plan top first origin calls c hs t c)
    (polite : ∀ l u, P.code[c.position]? = some (.call l) → plan.IsHandler l →
      P.Answers c.position l c.machine u → P.IsPolite plan.settings.queueCapacity.toNat
      plan.queuedAgents c.machine u)
    (moves : P.Moves plan.IsHandler c more e) :
    ∃ hs' t' c', y.Follows P plan top first origin (calls ++ more) e hs' t' c' := by
  obtain ⟨run, records, -, shows, spares, leads, since⟩ := follows
  cases goes : t.next? plan.layout plan.settings.maxCycles.toNat with
  | some u =>
    obtain ⟨c', reaches, shows', same⟩ := stands.next shows goes
    obtain ⟨d, moves', quiet⟩ := Relation.TransGen.head'_iff.1 reaches
    obtain ⟨rfl, rfl⟩ := moves.unique moves'
    rw [append_nil]
    exact ⟨hs, u, c', run.next goes, records, quiet, shows', spares, leads, same.trans since⟩
  | none =>
    obtain ⟨due, rest, acts⟩ | ⟨status, ended⟩ := Tide.next?_eq_none goes
    · obtain ⟨r, sent, c', rfl, before, recorded, quiet, shows', same⟩ :=
        shows.handles stands acts moves polite
      have reached := before ▸ since
      refine ⟨_, _, c', run.handle acts _ sent, rel_append records (.cons recorded .nil), quiet,
        shows', ?_, ?_, ?_⟩
      · rw [isChain_append]
        refine ⟨spares, .singleton r, fun r' last r'' first => ?_⟩
        obtain rfl : r = r'' := by simpa using first
        rwa [lastMemory, last] at reached
      · intro r' first
        cases calls with
        | nil =>
          obtain rfl : r = r' := by simpa using first
          exact reached
        | cons => exact leads r' first
      · rw [lastMemory, getLast?_concat]
        exact same
    · exact absurd moves (shows.stops stands ended)

lemma Stands.traces {start c0 : Config} (begins : P.Quietly plan.IsHandler start c0)
    (shows : y.Shows P plan top first c0)
    (polite : ∀ calls c l u, P.Traces plan.IsHandler start calls c → P.code[c.position]? = some
      (.call l) → plan.IsHandler l → P.Answers c.position l c.machine u →
      P.IsPolite plan.settings.queueCapacity.toNat plan.queuedAgents c.machine u)
    (run : P.Traces plan.IsHandler start calls c) :
    ∃ hs t c', y.Follows P plan top first c0.machine.memory calls c hs t c' := by
  induction run with
  | refl => exact ⟨[], first, c0, .refl first, .nil, begins, shows, .nil, by simp, fun _ _ => rfl⟩
  | @tail d e calls more run last ih =>
    obtain ⟨hs, t, c', follows⟩ := ih
    obtain rfl | ⟨d', moves, quiet⟩ := Relation.ReflTransGen.cases_head follows.quiet
    · exact follows.step stands (polite calls d · · run) last
    · obtain ⟨rfl, rfl⟩ := last.unique moves
      rw [append_nil]
      exact ⟨hs, t, c', { follows with quiet := quiet }⟩

end

end Cycle

end AgentCompiler
