import AgentCompiler.Proofs.EntryPoints
import AgentCompiler.Proofs.QueueRing

/-!
The machine of seed, rest, sense and act, without code and memory.

Its state is what waits in the queue of each agent and how far the current cycle has come. The seed
goes to one destination after the other. At rest the machine ends, or it takes the oldest message of
every queue at once; then the handlers that are due run one after the other. What a handler sends
and with what status it returns is not up to the machine.

Messages carry the cycle that they were sent in, so that the two rules of a cycle can be said of
whole runs: an agent handles at most one message in a cycle, and none that was sent in the same
cycle.
-/

namespace AgentCompiler

open List Option

/-- A message that waits, and the cycle it was sent in. The seed counts as sent in cycle zero. -/
structure Letter where
  message : Pending
  cycle : Nat

structure Due where
  agent : AgentLayout
  schema : SchemaLayout
  letter : Letter

inductive Phase
  | seed (message : Pending) (goals : List String)
  | rest
  | act (due : List Due)
  | ended (status : Word)

structure Tide where
  /-- What waits for each agent, the oldest first. -/
  queues : String → List Letter
  cycles : Nat
  phase : Phase

structure Handling where
  cycle : Nat
  due : Due
  status : Word
  sent : String → List Pending

def SchemaLayout.number (s : SchemaLayout) : Word := BitVec.ofNat 64 s.id

def Layout.schemaFor? (layout : Layout) (agent : AgentLayout) (message : Pending) :
    Option SchemaLayout :=
  ((layout.agentUnits agent.name).map (·.1)).find? (·.number = message.schema)

def Layout.due? (layout : Layout) (agent : AgentLayout) (letter : Letter) : Option Due :=
  (layout.schemaFor? agent letter.message).map (⟨agent, ·, letter⟩)

namespace Tide

def start (message : Pending) (goals : List String) : Tide := ⟨fun _ => [], 0, .seed message goals⟩

/-- The bound on cycles is reached, or nothing waits; a bound of zero is none. -/
def IsOver (layout : Layout) (bound : Nat) (t : Tide) : Prop :=
  (0 < bound ∧ bound ≤ t.cycles) ∨ ∀ a ∈ layout.agents, (t.queues a.name).isEmpty = true

instance (layout : Layout) (bound : Nat) (t : Tide) : Decidable (t.IsOver layout bound) :=
  inferInstanceAs (Decidable (_ ∨ _))

def dueFor (layout : Layout) (t : Tide) (a : AgentLayout) : Option Due :=
  (t.queues a.name).head?.bind (layout.due? a)

/-- The handlers for the oldest messages, in declaration order of the agents. -/
def due (layout : Layout) (t : Tide) : List Due := layout.agents.filterMap (t.dueFor layout)

def sense (layout : Layout) (t : Tide) : Tide :=
  { t with queues := fun name => (t.queues name).tail, phase := .act (t.due layout) }

/-- What the machine does by itself. While a handler is due, it waits for it. -/
def next? (layout : Layout) (bound : Nat) (t : Tide) : Option Tide :=
  match t.phase with
  | .seed message (goal :: goals) =>
    some { t with
      queues := Function.update t.queues goal (t.queues goal ++ [⟨message, 0⟩])
      phase := .seed message goals }
  | .seed _ [] => some { t with phase := .rest }
  | .rest => some (if t.IsOver layout bound then { t with phase := .ended 0 } else t.sense layout)
  | .act [] => some { t with cycles := t.cycles + 1, phase := .rest }
  | .act (_ :: _) | .ended _ => none

/-- A handler has sent messages and returned a status; any but zero ends the machine. -/
def after (t : Tide) (more : List Due) (status : Word) (sent : String → List Pending) : Tide where
  queues name := t.queues name ++ (sent name).map (⟨·, t.cycles + 1⟩)
  cycles := t.cycles
  phase := if status = 0 then .act more else .ended status

inductive Run (layout : Layout) (bound : Nat) : Tide → List Handling → Tide → Prop
  | refl (t : Tide) : Run layout bound t [] t
  | next {t u v : Tide} {hs : List Handling} (run : Run layout bound t hs u)
      (goes : u.next? layout bound = some v) : Run layout bound t hs v
  | handle {t u : Tide} {hs : List Handling} {due : Due} {more : List Due}
      (run : Run layout bound t hs u) (acts : u.phase = .act (due :: more)) (status : Word)
      (sent : String → List Pending) :
      Run layout bound t (hs ++ [⟨u.cycles + 1, due, status, sent⟩]) (u.after more status sent)

variable {layout : Layout} {bound : Nat} {t u : Tide} {hs : List Handling} {message : Pending}
  {goals : List String}

lemma next?_cases (goes : t.next? layout bound = some u) :
    (∃ message goal goals, t.phase = .seed message (goal :: goals) ∧ u = { t with
      queues := Function.update t.queues goal (t.queues goal ++ [⟨message, 0⟩])
      phase := .seed message goals }) ∨
    (∃ message, t.phase = .seed message [] ∧ u = { t with phase := .rest }) ∨
    (t.phase = .rest ∧ t.IsOver layout bound ∧ u = { t with phase := .ended 0 }) ∨
    (t.phase = .rest ∧ ¬ t.IsOver layout bound ∧ u = t.sense layout) ∨
    t.phase = .act [] ∧ u = { t with cycles := t.cycles + 1, phase := .rest } := by
  unfold next? at goes
  split at goes
  next message goal goals isPhase =>
    exact .inl ⟨message, goal, goals, isPhase, (some.inj goes).symm⟩
  next message isPhase => exact .inr (.inl ⟨message, isPhase, (some.inj goes).symm⟩)
  next isPhase =>
    split at goes
    next ends => exact .inr (.inr (.inl ⟨isPhase, ends, (some.inj goes).symm⟩))
    next ends => exact .inr (.inr (.inr (.inl ⟨isPhase, ends, (some.inj goes).symm⟩)))
  next isPhase => exact .inr (.inr (.inr (.inr ⟨isPhase, (some.inj goes).symm⟩)))
  next => cases goes
  next => cases goes

lemma next?_eq_none (stays : t.next? layout bound = none) :
    (∃ due more, t.phase = .act (due :: more)) ∨ ∃ status, t.phase = .ended status := by
  cases isPhase : t.phase with
  | seed message goals => cases goals <;> simp [next?, isPhase] at stays
  | rest => simp [next?, isPhase] at stays
  | act due =>
    cases due with
    | nil => simp [next?, isPhase] at stays
    | cons due more => exact .inl ⟨due, more, rfl⟩
  | ended status => exact .inr ⟨status, rfl⟩

section

def cycle (t : Tide) : Nat :=
  match t.phase with
  | .act _ | .ended _ => t.cycles + 1
  | _ => t.cycles

structure IsTimely (t : Tide) (hs : List Handling) : Prop where
  waiting : ∀ name, ∀ letter ∈ t.queues name, letter.cycle ≤ t.cycle
  past : ∀ h ∈ hs, h.cycle ≤ t.cycle
  ready : ∀ due, t.phase = .act due → ∀ d ∈ due, d.letter.cycle ≤ t.cycles ∧
    ∀ h ∈ hs, h.cycle = t.cycles + 1 → h.due.agent.name ≠ d.agent.name
  nodup : ∀ due, t.phase = .act due → (due.map (·.agent.name)).Nodup
  once : hs.Pairwise fun h h' => h.cycle = h'.cycle → h.due.agent.name ≠ h'.due.agent.name
  earlier : ∀ h ∈ hs, h.due.letter.cycle < h.cycle

lemma dueFor_eq_some {a : AgentLayout} {d : Due} (found : t.dueFor layout a = some d) :
    d.agent = a ∧ (t.queues a.name).head? = some d.letter ∧ layout.schemaFor? a d.letter.message =
        some d.schema := by
  simp only [dueFor, Layout.due?, bind_eq_some_iff, map_eq_some_iff] at found
  obtain ⟨letter, oldest, schema, isSchema, rfl⟩ := found
  exact ⟨rfl, oldest, isSchema⟩

lemma map_agent_due (layout : Layout) (t : Tide) :
    (t.due layout).map (·.agent) = layout.agents.filter fun a => (t.dueFor layout a).isSome := by
  rw [due]
  induction layout.agents with
  | nil => rfl
  | cons a rest ih =>
    cases found : t.dueFor layout a with
    | none => simpa [found] using ih
    | some d =>
      obtain ⟨rfl, -⟩ := dueFor_eq_some found
      simpa [found] using ih

lemma mem_due {d : Due} (mem : d ∈ t.due layout) :
    d.agent ∈ layout.agents ∧ (t.queues d.agent.name).head? = some d.letter ∧
      layout.schemaFor? d.agent d.letter.message = some d.schema := by
  obtain ⟨a, inside, found⟩ := mem_filterMap.1 mem
  obtain ⟨rfl, oldest, isSchema⟩ := dueFor_eq_some found
  exact ⟨inside, oldest, isSchema⟩

lemma IsTimely.start (message : Pending) (goals : List String) :
    (start message goals).IsTimely [] where
  waiting := by simp [Tide.start]
  past := by simp
  ready := by simp [Tide.start]
  nodup := by simp [Tide.start]
  once := .nil
  earlier := by simp

lemma IsTimely.next (timely : t.IsTimely hs) (names : (layout.agents.map (·.name)).Nodup)
    (goes : t.next? layout bound = some u) : u.IsTimely hs := by
  obtain ⟨waiting, past, ready, nodup, once, earlier⟩ := timely
  obtain ⟨message, goal, goals, isPhase, rfl⟩ | ⟨message, isPhase, rfl⟩ | ⟨isPhase, -, rfl⟩ |
    ⟨isPhase, -, rfl⟩ | ⟨isPhase, rfl⟩ := next?_cases goes
  all_goals simp only [cycle, isPhase] at waiting past
  · refine ⟨fun name letter mem => ?_, past, by simp, by simp, once, earlier⟩
    by_cases same : name = goal
    · subst same
      simp only [Function.update_self, mem_append, mem_singleton] at mem
      obtain old | rfl := mem
      · exact waiting name letter old
      · exact Nat.zero_le _
    · simp only [Function.update_of_ne same] at mem
      exact waiting name letter mem
  · exact ⟨waiting, past, by simp, by simp, once, earlier⟩
  · exact ⟨fun name letter mem => (waiting name letter mem).trans (Nat.le_succ _),
      fun h mem => (past h mem).trans (Nat.le_succ _), by simp, by simp, once, earlier⟩
  · -- messages are taken that were sent before this cycle, one for each agent
    refine ⟨fun name letter mem => ?_, fun h mem => ?_, fun due same d mem => ?_,
      fun due same => ?_, once, earlier⟩
    · exact (waiting name letter (mem_of_mem_tail mem)).trans (Nat.le_succ _)
    · exact (past h mem).trans (Nat.le_succ _)
    · obtain rfl := Phase.act.inj same
      obtain ⟨-, oldest, -⟩ := mem_due mem
      refine ⟨waiting _ _ (mem_of_mem_head? oldest), fun h member' now => ?_⟩
      have early := past h member'
      simp only [sense] at now
      omega
    · obtain rfl := Phase.act.inj same
      have agents : ((t.due layout).map (·.agent)).Sublist layout.agents := by
        rw [map_agent_due]
        exact filter_sublist
      have mapped := agents.map (·.name)
      rw [List.map_map] at mapped
      exact names.sublist mapped
  · exact ⟨waiting, past, by simp, by simp, once, earlier⟩

lemma IsTimely.after {due : Due} {more : List Due} (timely : t.IsTimely hs)
    (acts : t.phase = .act (due :: more)) (status : Word) (sent : String → List Pending) :
    (t.after more status sent).IsTimely (hs ++ [⟨t.cycles + 1, due, status, sent⟩]) := by
  obtain ⟨waiting, past, ready, nodup, once, earlier⟩ := timely
  simp only [cycle, acts] at waiting past
  have now : (t.after more status sent).cycle = t.cycles + 1 := by
    by_cases zero : status = 0
    · simp only [cycle, Tide.after, if_pos zero]
    · simp only [cycle, Tide.after, if_neg zero]
  have continues : ∀ due', (t.after more status sent).phase = .act due' → due' = more := by
    intro due' same
    simp only [Tide.after] at same
    split at same
    · exact (Phase.act.inj same).symm
    · cases same
  have first := ready _ acts
  have distinct := nodup _ acts
  rw [map_cons, nodup_cons] at distinct
  refine ⟨fun name letter mem => ?_, fun h mem => ?_, fun due' same d mem => ?_,
    fun due' same => continues due' same ▸ distinct.2, ?_, fun h mem => ?_⟩
  · rw [now]
    obtain old | new := mem_append.1 mem
    · exact waiting name letter old
    · obtain ⟨e, -, rfl⟩ := List.mem_map.1 new
      exact le_rfl
  · rw [now]
    obtain old | rfl := by simpa using mem
    · exact past h old
    · exact le_rfl
  · obtain rfl := continues due' same
    obtain ⟨early, others⟩ := first d (mem_cons_of_mem _ mem)
    refine ⟨early, fun h member' isNow => ?_⟩
    obtain old | rfl := by simpa using member'
    · exact others h old isNow
    · exact fun equal => distinct.1 (equal ▸ List.mem_map_of_mem mem)
  · rw [pairwise_append]
    refine ⟨once, pairwise_singleton _ _, fun h mem h' last isNow => ?_⟩
    obtain rfl := mem_singleton.1 last
    exact (first due mem_cons_self).2 h mem isNow
  · obtain old | rfl := by simpa using mem
    · exact earlier h old
    · exact Nat.lt_succ_of_le (first due mem_cons_self).1

/-- In every run an agent handles at most one message in a cycle, and none that was sent in it. -/
lemma Run.isTimely (names : (layout.agents.map (·.name)).Nodup) (first : t.IsTimely [])
    (run : Run layout bound t hs u) : u.IsTimely hs := by
  induction run with
  | refl => exact first
  | next _ goes ih => exact ih.next names goes
  | handle _ acts status sent ih => exact ih.after acts status sent

end

section

structure IsDeliverable (layout : Layout) (t : Tide) : Prop where
  waiting : ∀ a ∈ layout.agents, ∀ letter ∈ t.queues a.name,
    (layout.schemaFor? a letter.message).isSome
  seed : ∀ message goals, t.phase = .seed message goals → ∀ a ∈ layout.agents, a.name ∈ goals →
    (layout.schemaFor? a message).isSome

def Sends (layout : Layout) (sent : String → List Pending) : Prop :=
  ∀ a ∈ layout.agents, ∀ e ∈ sent a.name, (layout.schemaFor? a e).isSome

lemma IsDeliverable.next (able : t.IsDeliverable layout) (goes : t.next? layout bound = some u) :
    u.IsDeliverable layout := by
  obtain ⟨waiting, seed⟩ := able
  obtain ⟨message, goal, goals, isPhase, rfl⟩ | ⟨message, isPhase, rfl⟩ | ⟨isPhase, -, rfl⟩ |
    ⟨isPhase, -, rfl⟩ | ⟨isPhase, rfl⟩ := next?_cases goes
  · constructor
    · intro a inside letter mem
      by_cases same : a.name = goal
      · simp only [same, Function.update_self, mem_append, mem_singleton] at mem
        obtain old | rfl := mem
        · exact waiting a inside letter (same ▸ old)
        · exact seed message _ isPhase a inside (same ▸ mem_cons_self)
      · simp only [Function.update_of_ne same] at mem
        exact waiting a inside letter mem
    · intro message' goals' same a inside mem
      obtain ⟨rfl, rfl⟩ := Phase.seed.inj same
      exact seed message _ isPhase a inside (mem_cons_of_mem _ mem)
  · exact ⟨waiting, by simp⟩
  · exact ⟨waiting, by simp⟩
  · exact ⟨fun a inside letter mem => waiting a inside letter
      (mem_of_mem_tail mem), by simp [sense]⟩
  · exact ⟨waiting, by simp⟩

lemma IsDeliverable.after (able : t.IsDeliverable layout) (more : List Due) (status : Word)
    {sent : String → List Pending} (sends : Sends layout sent) :
    (t.after more status sent).IsDeliverable layout := by
  constructor
  · intro a inside letter mem
    obtain old | new := mem_append.1 mem
    · exact able.waiting a inside letter old
    · obtain ⟨e, isSent, rfl⟩ := List.mem_map.1 new
      exact sends a inside e isSent
  · intro message goals same
    simp only [Tide.after] at same
    split at same <;> cases same

lemma Run.isDeliverable (first : t.IsDeliverable layout) (run : Run layout bound t hs u)
    (sends : ∀ h ∈ hs, Sends layout h.sent) : u.IsDeliverable layout := by
  induction run with
  | refl => exact first
  | next _ goes ih => exact (ih sends).next goes
  | handle _ _ _ _ ih =>
    rw [forall_mem_append] at sends
    exact (ih sends.1).after _ _ (sends.2 _ mem_cons_self)

lemma IsDeliverable.map_agent_due (able : t.IsDeliverable layout) :
    (t.due layout).map (·.agent) = layout.agents.filter fun a => !(t.queues a.name).isEmpty := by
  rw [Tide.map_agent_due]
  refine filter_congr fun a inside => ?_
  cases waits : t.queues a.name with
  | nil => simp [dueFor, waits]
  | cons letter rest =>
    have handled := able.waiting a inside letter (waits ▸ mem_cons_self)
    simp [dueFor, Layout.due?, waits, handled]

end

end Tide

end AgentCompiler
