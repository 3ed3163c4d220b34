import AgentCompiler.Proofs.Deliveries
import AgentCompiler.Proofs.EntryPoints

/-!
No message is lost. Whatever is put into a queue has a number for which the dispatch of the queue's
agent has exactly one arm, and that arm calls the routine of the agent's handler on the agent's own
state.
-/

namespace AgentCompiler

open Instruction Layout List

/-- One comparison of a dispatch: the schema it is for, the handler it calls, the label behind it.
-/
structure Arm where
  schema : SchemaLayout
  handler : Label
  other : Label

/-- How the main routine handles the message in the slot of one agent. -/
structure Dispatch where
  agent : AgentLayout
  storage : Storage
  fail : Label
  next : Label
  arms : List Arm

namespace Dispatch

/-- The message in the slot is of the arm's schema: the handler gets the agent's own state and the
payload, and a nonzero answer is a failure. -/
def armCode (d : Dispatch) (arm : Arm) : Code :=
  [arith .cmp Register.rax (Int64.ofNat arm.schema.id), .jcc .ne arm.other,
    .lea Register.rdi (.symbol Pool.stateArena (Int32.ofNat d.agent.base)),
    .move Register.rsi (wordOf d.storage.slot 16), .call arm.handler,
    .check Register.rax, .jcc .ne d.fail, .jmp d.next, .label arm.other]

def code (d : Dispatch) : Code := [arith .cmp (wordOf d.storage.slot 0) (.imm 0), .jcc .e d.next,
    .move (wordOf d.storage.slot 0) (.imm 0), .move Register.rax (wordOf d.storage.slot 8)] ++
    d.arms.flatMap d.armCode ++ [label d.next]

structure IsWritten (plan : Plan) (d : Dispatch) : Prop where
  base_le : d.agent.base ≤ maxInt32
  schemas : d.arms.map (·.schema) = ((plan.layout.agentUnits d.agent.name).map (·.1)).filter
    fun s => (plan.handler? d.agent.name s.name).isSome
  handlers : ∀ arm ∈ d.arms, plan.handler? d.agent.name arm.schema.name = some arm.handler

end Dispatch

namespace Emit

variable {plan : Plan} {p q : Pool} {code : Code} {agent : AgentLayout} {storage : Storage}
  {fail : Label}

lemma dispatchArms_ok {base : Int32} {next : Label} {schemas : List SchemaLayout}
    (h : dispatchArms plan agent base storage fail next schemas p = .ok (code, q)) :
    ∃ arms : List Arm, code = arms.flatMap (fun arm =>
        dispatchArm base storage fail next arm.other arm.handler arm.schema.id) ∧
      arms.map (·.schema) = schemas.filter (fun s => (plan.handler? agent.name s.name).isSome) ∧
      ∀ arm ∈ arms, plan.handler? agent.name arm.schema.name = some arm.handler := by
  induction schemas generalizing p code with
  | nil =>
    obtain ⟨rfl, -⟩ := pure_ok.1 h
    exact ⟨[], rfl, rfl, by simp⟩
  | cons schema rest ih =>
    obtain ⟨absent, more⟩ | ⟨handler, other, p1, tail, handled, -, later, rfl⟩ :=
      dispatchArms_cons h
    · obtain ⟨arms, coded, found, handlers⟩ := ih more
      exact ⟨arms, coded, by simpa [absent] using found, handlers⟩
    · obtain ⟨arms, rfl, found, handlers⟩ := ih later
      refine ⟨⟨schema, handler, other⟩ :: arms, rfl, by simp [handled, found], ?_⟩
      rw [forall_mem_cons]
      exact ⟨handled, handlers⟩

lemma act_isDispatch (h : act plan fail agent storage p = .ok (code, q)) :
    ∃ d : Dispatch, code = d.code ∧ (d.agent, d.storage) = (agent, storage) ∧ d.IsWritten plan ∧
        d.fail = fail := by
  obtain ⟨next, p1, arms, -, base, armed, rfl⟩ := act_ok h
  obtain ⟨arms, rfl, schemas, handlers⟩ := dispatchArms_ok armed
  exact ⟨⟨agent, storage, fail, next, arms⟩, rfl, rfl, ⟨base, schemas, handlers⟩, rfl⟩

lemma acts_areDispatches {queued : List (AgentLayout × Storage)} {actions : List Code}
    (h : MapRun (fun pair => act plan fail pair.1 pair.2) p queued actions q) :
    ∃ ds : List Dispatch, actions.flatten = ds.flatMap (·.code) ∧
      ds.map (fun d => (d.agent, d.storage)) = queued ∧ ∀ d ∈ ds, d.IsWritten plan ∧
      d.fail = fail := by
  induction h with
  | nil p => exact ⟨[], rfl, rfl, by simp⟩
  | cons first _ ih =>
    obtain ⟨d, rfl, paired, written⟩ := act_isDispatch first
    obtain ⟨ds, coded, waits, all⟩ := ih
    refine ⟨d :: ds, by simp [coded], by simp [paired, waits], ?_⟩
    rw [forall_mem_cons]
    exact ⟨written, all⟩

lemma mainRoutine_dispatches {start : Label} (h : mainRoutine plan p = .ok ((start, code), q)) :
    ∃ ds : List Dispatch, ds.flatMap (·.code) <:+: code ∧
      ds.map (fun d => (d.agent, d.storage)) = plan.queuedAgents ∧ ∀ d ∈ ds, d.IsWritten plan := by
  obtain ⟨p0, rest, p1, sense, p2, fail, p3, halt, p4, first, p5, bound, actions, -, -, -,
    -, -, -, -, acts, rfl⟩ := mainRoutine_ok h
  obtain ⟨ds, coded, queued, all⟩ := acts_areDispatches acts
  refine ⟨ds, ?_, queued, fun d hd => (all d hd).1⟩
  rw [← coded, cycleCode]
  exact (infix_append _ _ _).trans (suffix_append _ _).isInfix

lemma MapRun.exists_of_mem {α β : Type} {f : α → Emit β} {items : List α} {results : List β}
    (h : MapRun f p items results q) {a : α} (among : a ∈ items) : ∃ p' b q', f a p' = .ok (b, q') ∧
    b ∈ results := by
  induction h with
  | nil p => simp at among
  | @cons p s q first b items results begins _ ih =>
    obtain rfl | among := mem_cons.1 among
    · exact ⟨p, b, s, begins, mem_cons_self⟩
    · obtain ⟨p', b', q', run, mem⟩ := ih among
      exact ⟨p', b', q', run, mem_cons_of_mem b mem⟩

end Emit

section

variable {α β : Type}

lemma exists_of_forall₂ {R : α → β → Prop} {items : List α} {results : List β}
    (h : List.Forall₂ R items results) {b : β} (mem : b ∈ results) : ∃ a ∈ items, R a b := by
  induction h with
  | nil => simp at mem
  | @cons a b' items results first _ ih =>
    obtain rfl | mem := mem_cons.1 mem
    · exact ⟨a, mem_cons_self, first⟩
    · obtain ⟨a', ha', hR⟩ := ih mem
      exact ⟨a', mem_cons_of_mem a ha', hR⟩

lemma filter_eq_singleton [DecidableEq β] {f : α → β} {items : List α}
    (nodup : (items.map f).Nodup) {a : α} (mem : a ∈ items) : items.filter (fun b => f b = f a) =
    [a] := by
  induction items with
  | nil => simp at mem
  | cons b rest ih =>
    rw [map_cons, nodup_cons] at nodup
    obtain rfl | mem := mem_cons.1 mem
    · rw [filter_cons_of_pos (by simp), filter_eq_nil_iff.2]
      intro c hc eq
      exact nodup.1 (mem_map.2 ⟨c, hc, by simpa using eq⟩)
    · have ne : f b ≠ f a := fun eq => nodup.1 (mem_map.2 ⟨a, mem, eq.symm⟩)
      rw [filter_cons_of_neg (by simpa using ne), ih nodup.2 mem]

end

def ObjectCode.HasHandler (object : ObjectCode) (plan : Plan) (agent : AgentLayout)
    (template : Template) (handler : Handler) (entry : Label) : Prop :=
  ∃ p code q rest, Emit.handler plan agent template handler p = .ok (code, q) ∧
    code = .align 16 :: .label entry :: rest ∧ code <:+: object.code ∧
    object.code.count (.label entry) = 1

/-- A dispatch has exactly one arm with the number of a schema, and it calls the routine of the
agent's handler for that schema. -/
def Dispatch.Serves (d : Dispatch) (plan : Plan) (object : ObjectCode) (schema : SchemaLayout) :
    Prop :=
  ∃ arm template handler, d.arms.filter (·.schema.id = schema.id) = [arm] ∧ arm.schema = schema ∧
    plan.program.template? d.agent.template = some template ∧ handler ∈ template.handlers ∧
    handler.schema = schema.name ∧ object.HasHandler plan d.agent template handler arm.handler

section

variable {program : Program} {layout : Layout} {settings : Settings} {plan : Plan} {pool : Pool}
  {object : ObjectCode} {agent : AgentLayout} {schema : SchemaLayout} {source : Endpoint}

lemma Plan.IsMade.handler?_isSome (h : plan.IsMade program layout settings pool)
    (haccepted : IsAccepted program layout) (owner : agent ∈ layout.agents)
    (known : schema ∈ (layout.agentUnits agent.name).map (·.1)) :
    (plan.handler? agent.name schema.name).isSome = true := by
  have keyed : (agent.name, schema.name) ∈ plan.handlers.map (·.1) := by
    rw [h.handlers, mem_flatMap]
    obtain ⟨pair, paired, rfl⟩ := mem_map.1 known
    exact ⟨agent, owner, mem_map.2 ⟨pair, paired, rfl⟩⟩
  obtain ⟨⟨key, l⟩, paired, rfl⟩ := mem_map.1 keyed
  have lookup := lookup_of_mem (h.handlers ▸ nodup_handlerKeys haccepted) paired
  rw [Plan.handler?, lookup, Option.isSome_some]

lemma Layout.mem_agentUnits {agent : String} : schema ∈ (layout.agentUnits agent).map (·.1) ↔
      schema ∈ layout.schemas ∧ ⟨agent, schema.name⟩ ∈ layout.units := by
  rw [agentUnits_schemas, mem_filter, unit?_isSome]

lemma Layout.IsAccepted.handles (h : IsAccepted program layout) {goal schema : String}
    (leads : goal ∈ layout.destinations source schema) :
    ⟨goal, schema⟩ ∈ layout.units ∧ ∃ agent ∈ layout.agents, agent.name = goal ∧
      ∃ template, program.template? agent.template = some template ∧
        ∃ handler ∈ template.handlers, handler.schema = schema := by
  obtain absent | ⟨route, routed, -, rfl, goals⟩ := destinationsIn_cases layout.routes source schema
  · rw [destinations, absent] at leads
    simp at leads
  · rw [destinations, goals] at leads
    have unit := h.handled route routed goal leads
    obtain ⟨agent, owner, template, kept, handler, handled, eq⟩ := (h.units _).1 unit
    obtain ⟨rfl, known⟩ := HandlerUnit.mk.inj eq
    exact ⟨unit, agent, owner, rfl, template, kept, handler, handled, known.symm⟩

section

variable (haccepted : IsAccepted program layout)
  (hplan : Plan.make program layout settings .initial = .ok (plan, pool))
  (hobject : generate program layout settings = .ok object)
include haccepted hplan hobject

lemma generate_hasHandler (owner : agent ∈ layout.agents) {template : Template}
    (kept : program.template? agent.template = some template) {handler : Handler}
    (handled : handler ∈ template.handlers) {entry : Label}
    (starts : plan.handler? agent.name handler.schema = some entry) :
    object.HasHandler plan agent template handler entry := by
  have text := generate_text hobject
  obtain ⟨plan', pool', start, main, p1, codes, p2, support, q, planned', -, hcodes, -, -, coded⟩ :=
    generate_ok hobject
  obtain ⟨rfl, rfl⟩ := Prod.mk.inj (Except.ok.inj (hplan.symm.trans planned'))
  have made := Plan.make_isMade hplan
  rw [← made.layout_eq] at owner
  obtain ⟨p, routines, q', written, mem⟩ := hcodes.exists_of_mem owner
  obtain ⟨template', handlers, p', helpers, kept', hhandlers, -, rfl⟩ :=
    Emit.agentRoutines_ok written
  rw [made.program_eq] at kept'
  obtain rfl := Option.some.inj (kept.symm.trans kept')
  obtain ⟨s, code, t, run, mem'⟩ := hhandlers.exists_of_mem handled
  obtain ⟨schema, entry', leave, -, body, frame, -, starts', -, -, shape⟩ := Emit.handler_ok run
  obtain rfl := Option.some.inj (starts.symm.trans starts')
  have inside : code <:+: object.code := by
    have first : code <:+: handlers.flatten ++ helpers.flatten :=
      (infix_of_mem_flatten mem').trans (prefix_append _ _).isInfix
    have second : handlers.flatten ++ helpers.flatten <:+: main ++ codes.flatten ++ support :=
      (infix_of_mem_flatten mem).trans (infix_append _ _ _)
    rw [coded]
    exact first.trans second
  obtain ⟨rest, more⟩ : ∃ rest, code = .align 16 :: .label entry :: rest := ⟨_, shape⟩
  refine ⟨s, code, t, rest, run, more, inside, ?_⟩
  refine text.count_label haccepted (inside.subset ?_)
  rw [more]
  simp

lemma dispatch_serves {ds : List Dispatch}
    (queued : ds.map (fun d => (d.agent, d.storage)) = plan.queuedAgents)
    (written : ∀ d ∈ ds, d.IsWritten plan) (known : schema ∈ layout.schemas) {goal : String}
    {storage : Storage} (leads : goal ∈ layout.destinations source schema.name)
    (stored : plan.storage? goal = some storage) : ∃ d ∈ ds, d.storage = storage ∧
    d.Serves plan object schema := by
  have made := Plan.make_isMade hplan
  obtain ⟨unit, agent, owner, rfl, template, kept, handler, handled, name⟩ :=
    haccepted.handles leads
  have pair : (agent, storage) ∈ ds.map (fun d => (d.agent, d.storage)) := by
    rw [queued, Plan.queuedAgents, made.layout_eq, mem_filterMap]
    exact ⟨agent, owner, by rw [stored, Option.map_some]⟩
  obtain ⟨d, hd, eq⟩ := mem_map.1 pair
  obtain ⟨rfl, rfl⟩ := Prod.mk.inj eq
  have schemas := (written d hd).schemas
  rw [made.layout_eq, agentUnits_schemas] at schemas
  have units := mem_agentUnits.2 ⟨known, unit⟩
  obtain ⟨arm, chosen, rfl⟩ : ∃ arm ∈ d.arms, arm.schema = schema := by
    rw [← mem_map, schemas, mem_filter, ← agentUnits_schemas]
    exact ⟨units, made.handler?_isSome haccepted owner units⟩
  have ids : (d.arms.map (·.schema.id)).Nodup := by
    have sub : (d.arms.map (·.schema)).Sublist layout.schemas := by
      rw [schemas]
      exact filter_sublist.trans filter_sublist
    have mapped := haccepted.schemas.nodup_ids.sublist (sub.map (·.id))
    rwa [map_map] at mapped
  refine ⟨d, hd, rfl, arm, template, handler, filter_eq_singleton ids chosen, rfl, ?_, handled,
    name, ?_⟩
  · rw [made.program_eq, kept]
  · refine generate_hasHandler haccepted hplan hobject owner kept handled ?_
    rw [name]
    exact (written d hd).handlers arm chosen

end

lemma arm_delivered (haccepted : IsAccepted program layout) (laid : plan.layout = layout)
    {d : Dispatch} (written : d.IsWritten plan) {arm : Arm} (chosen : arm ∈ d.arms) :
    ∃ route ∈ layout.routes, route.schema = arm.schema.name ∧
        d.agent.name ∈ route.destinations := by
  have mem := mem_map_of_mem (f := fun arm : Arm => arm.schema) chosen
  rw [written.schemas, mem_filter, laid, mem_agentUnits] at mem
  have delivered := haccepted.delivered _ mem.1.2
  simp only [isDelivered, any_eq_true, Bool.and_eq_true, beq_iff_eq, contains_iff_mem] at delivered
  exact delivered

lemma nodup_destinations (haccepted : IsAccepted program layout) (source : Endpoint)
    (schema : String) : (layout.destinations source schema).Nodup := by
  rw [destinations]
  obtain absent | ⟨route, routed, -, -, goals⟩ := destinationsIn_cases layout.routes source schema
  · rw [absent]
    exact nodup_nil
  · rw [goals]
    exact (haccepted.routes.accepted route routed).nodup

/-- Whatever code puts into a queue is handled. The dispatches stand in the main routine, one for
each agent with a queue. Every delivery goes to the queue of an agent whose dispatch serves its
schema; every arm has a route; and the deliveries are those of the seed and of the statements that
emit, each to the destinations of its route, every destination once. -/
theorem generate_dispatches (laid : Layout.analyze program settings = .ok layout)
    (hobject : generate program layout settings = .ok object) :
    ∃ plan pool, ∃ ds : List Dispatch,
      Plan.make program layout settings .initial = .ok (plan, pool) ∧
      (∀ agent storage, plan.storage? agent = some storage →
        Plan.IsStorageOf object.symbols agent storage) ∧
      ds.flatMap (·.code) <:+: object.code ∧
      ds.map (fun d => (d.agent, d.storage)) = plan.queuedAgents ∧
      (∀ d ∈ ds, d.agent.base ≤ maxInt32) ∧
      (∀ m ∈ deliveries object.code, ∃ delivery, m = some delivery ∧ ∃ schema ∈ layout.schemas,
        delivery.schema = Int64.ofNat schema.id ∧
        ∃ d ∈ ds, delivery.queue = d.storage.queue ∧ d.Serves plan object schema) ∧
      (∀ d ∈ ds, ∀ arm ∈ d.arms, ∃ route ∈ layout.routes, route.schema = arm.schema.name ∧
        d.agent.name ∈ route.destinations) ∧
      (∃ parts, List.Forall₂ plan.Sends (program.sends layout) parts ∧
        deliveries object.code = parts.flatten) ∧
      ∀ source schema, (layout.destinations source schema).Nodup := by
  have haccepted := Layout.analyze_isAccepted laid
  obtain ⟨plan, pool, start, main, p1, codes, p2, support, q, hplan, started, -, -, -, coded⟩ :=
    generate_ok hobject
  have made := Plan.make_isMade hplan
  obtain ⟨ds, inside, queued, written⟩ := Emit.mainRoutine_dispatches started
  obtain ⟨pool', grows, symbols, -⟩ := generate_grows hplan hobject
  obtain ⟨parts, split, delivered⟩ := generate_delivers hplan hobject []
  refine ⟨plan, pool, ds, hplan, ?_, ?_, queued, fun d hd => (written d hd).base_le, ?_, ?_,
    ⟨parts, split, delivered⟩, nodup_destinations haccepted⟩
  · intro agent storage stored
    rw [symbols]
    exact (made.isStorage agent storage stored).keeps grows.keeps
  · rw [coded, List.append_assoc]
    exact inside.trans (List.prefix_append _ _).isInfix
  · intro m hm
    rw [deliveries, delivered, List.mem_flatten] at hm
    obtain ⟨part, piece, hm⟩ := hm
    obtain ⟨send, -, schema, payload, known, sent⟩ := exists_of_forall₂ split piece
    obtain ⟨goal, leads, storage, stored, rfl⟩ := exists_of_forall₂ sent hm
    rw [made.layout_eq] at known leads
    have mem : schema ∈ layout.schemas := List.mem_of_find?_eq_some known
    obtain ⟨d, hd, rfl, serves⟩ :=
      dispatch_serves haccepted hplan hobject queued written mem leads stored
    exact ⟨_, rfl, schema, mem, rfl, d, hd, rfl, serves⟩
  · exact fun d hd arm chosen => arm_delivered haccepted made.layout_eq (written d hd) chosen

end

theorem generate_dispatches_counter : ∃ layout object,
    Layout.analyze counterProgram {} = .ok layout ∧
      generate counterProgram layout {} = .ok object ∧
      ∃ plan, ∃ ds : List Dispatch, ds.flatMap (·.code) <:+: object.code ∧
        ∀ m ∈ deliveries object.code, ∃ delivery, m = some delivery ∧ ∃ schema ∈ layout.schemas,
          delivery.schema = Int64.ofNat schema.id ∧
          ∃ d ∈ ds, delivery.queue = d.storage.queue ∧ d.Serves plan object schema := by
  obtain ⟨layout, object, -, laid, hobject⟩ := counterProgram_generates
  obtain ⟨plan, _, ds, -, -, inside, -, -, served, -⟩ := generate_dispatches laid hobject
  exact ⟨layout, object, laid, hobject, plan, ds, inside, served⟩

end AgentCompiler
