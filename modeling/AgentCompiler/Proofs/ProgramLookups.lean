import AgentCompiler.Proofs.PlanFacts

/-!
What code is written from. Of a program, the writer reads the seed and looks up templates by name;
of a template, a routine that calls a helper reads its name, parameters and result, and never its
body; of the settings it reads four. Programs that answer these look-ups alike therefore have the
same code.
-/

namespace AgentCompiler

open Plan Program

def Helper.signature (h : Helper) : String × List FieldDecl × Option ValueType :=
  (h.name, h.params, h.returns)

structure Template.CallsAlike (t u : Template) : Prop where
  name : u.name = t.name
  helpers : u.helpers.map Helper.signature = t.helpers.map Helper.signature

lemma Template.CallsAlike.refl (t : Template) : t.CallsAlike t := ⟨rfl, rfl⟩

lemma Template.CallsAlike.find? {t u : Template} (alike : t.CallsAlike u) (name : String) :
    (u.helpers.find? (·.name == name)).map Helper.signature =
      (t.helpers.find? (·.name == name)).map Helper.signature := by
  have first := congrArg (List.find? (·.1 == name)) alike.helpers
  rwa [List.find?_map, List.find?_map] at first

structure Settings.WritesAlike (s o : Settings) : Prop where
  cycles : o.maxCycles = s.maxCycles
  reports : o.debugReports = s.debugReports
  heap : o.heapSize = s.heapSize
  queues : o.queueCapacity = s.queueCapacity

lemma Settings.WritesAlike.refl (s : Settings) : s.WritesAlike s := ⟨rfl, rfl, rfl, rfl⟩

/-- The same names and data for another program or under other settings. -/
def Plan.over (plan : Plan) (q : Program) (o : Settings) : Plan :=
  { plan with program := q, settings := o }

@[simp] lemma Plan.settings_over (plan : Plan) (q : Program) (o : Settings) :
    (plan.over q o).settings = o := rfl

@[simp] lemma Plan.program_over (plan : Plan) (q : Program) (o : Settings) :
    (plan.over q o).program = q := rfl

namespace Lower

variable {plan : Plan} {r : Routine} {t : Template}

lemma helperNamed_alike (alike : r.template.CallsAlike t) (name : String) :
    (∃ fault, helperNamed { r with template := t } name = .error fault ∧ helperNamed r name =
      .error fault) ∨
    ∃ helper other, helperNamed { r with template := t } name = .ok other ∧
      helperNamed r name = .ok helper ∧ other.params = helper.params ∧
      other.returns = helper.returns := by
  have same := alike.find? name
  cases found : r.template.helpers.find? (·.name == name) with
  | none =>
    rw [found, Option.map_none, Option.map_eq_none_iff] at same
    exact .inl ⟨_, by simp only [helperNamed, same]; rfl,
      by simp only [helperNamed, found, alike.name]; rfl⟩
  | some helper =>
    rw [found, Option.map_some, Option.map_eq_some_iff] at same
    obtain ⟨other, found', signature⟩ := same
    simp only [Helper.signature, Prod.mk.injEq] at signature
    exact .inr ⟨helper, other, by simp only [helperNamed, found']; rfl,
      by simp only [helperNamed, found]; rfl, signature.2⟩

variable {q : Program} {o : Settings}

lemma operands_alike {es : List Expr}
    (each : ∀ e ∈ es, expression (plan.over q o) { r with template := t } e =
      expression plan r e) (callee : String) (index : Nat) (wants : List ValueKind) :
    operands (plan.over q o) { r with template := t } callee index es wants =
      operands plan r callee index es wants := by
  induction es generalizing index wants with
  | nil => rfl
  | cons e rest ih =>
    rw [List.forall_mem_cons] at each
    cases wants with
    | nil => rfl
    | cons want wants =>
      rw [operands, operands, each.1]
      simp only [ih each.2]
      rfl

lemma expression_alike (alike : r.template.CallsAlike t) (e : Expr) :
    expression (plan.over q o) { r with template := t } e = expression plan r e := by
  induction e using Expr.induction with
  | int value => rfl
  | bool value => rfl
  | str value => rfl
  | state name => rfl
  | field name => rfl
  | var name => rfl
  | unary op operand ih =>
    rw [expression, expression, ih]
    rfl
  | binary op lhs rhs left right =>
    rw [expression, expression, left, right]
    rfl
  | builtin name args ih =>
    by_cases read : name = .readInput ∧ args = []
    · obtain ⟨rfl, rfl⟩ := read
      rfl
    · have general := fun h h' => read ⟨h, h'⟩
      rw [expression, expression]
      · simp only [operands_alike ih]
        rfl
      · exact general
      · exact general
  | call name args ih =>
    rw [expression, expression]
    simp only [operands_alike ih]
    obtain ⟨fault, failed, failed'⟩ | ⟨helper, other, found, found', params, returns⟩ :=
      helperNamed_alike alike name
    · rw [failed, failed']
      rfl
    · have lifted (h : Helper) : (liftM (.ok h : Outcome Helper) : Lower Helper) = pure h := rfl
      simp only [found, found', lifted, pure_bind, params, returns]
      rfl

section

variable (alike : r.template.CallsAlike t)

include alike in
lemma messageFields_alike (schema : SchemaLayout)
    (payload : Register) (fields : List (String × Expr)) (slots : List Slot) :
    messageFields (plan.over q o) { r with template := t } schema payload fields slots =
      messageFields plan r schema payload fields slots := by
  induction slots with
  | nil => rfl
  | cons slot rest ih =>
    simp only [messageFields, ih, expression_alike alike]
    rfl

lemma deliver_alike (schema : SchemaLayout) (payload : Register) (goals : List String) :
    deliver (plan.over q o) { r with template := t } schema payload goals = deliver plan r schema
        payload goals := by
  induction goals with
  | nil => rfl
  | cons goal rest ih =>
    rw [deliver, deliver, ih]
    rfl

include alike in
lemma message_alike (schema : String) (fields : List (String × Expr)) :
    message (plan.over q o) { r with template := t } schema fields = message plan r
        schema fields := by
  simp only [message, messageFields_alike alike, deliver_alike]
  rfl

include alike in
lemma condition_alike (cond : Expr) (otherwise : Label) (what : String) :
    condition (plan.over q o) { r with template := t } cond otherwise what = condition plan r cond
        otherwise what := by
  rw [condition, condition, expression_alike alike]
  rfl

include alike in
lemma returnCode_alike (value : Option Expr) : returnCode (plan.over q o)
    { r with template := t } value =
      returnCode plan r value := by
  simp only [returnCode, expression_alike alike]
  rfl

lemma statements_alike {body : List Stmt}
    (each : ∀ s ∈ body, statement (plan.over q o) { r with template := t } s =
      statement plan r s) : statements (plan.over q o) { r with template := t } body = statements
      plan r body := by
  induction body with
  | nil => rfl
  | cons s rest ih =>
    rw [List.forall_mem_cons] at each
    rw [statements, statements, each.1, ih each.2]

include alike in
lemma statement_alike (same : plan.settings.WritesAlike o) (s : Stmt) :
    statement (plan.over q o) { r with template := t } s = statement plan r s := by
  induction s using Stmt.induction with
  | declare name value =>
    rw [statement, statement, expression_alike alike]
    rfl
  | assign target value =>
    rw [statement, statement, expression_alike alike]
    rfl
  | emit schema fields => exact message_alike alike schema fields
  | branch cond onTrue onFalse first second =>
    simp only [statement, condition_alike alike, statements_alike first, statements_alike second]
  | loop cond body ih => simp only [statement, condition_alike alike, statements_alike ih]
  | block body ih => simp only [statement, statements_alike ih]
  | write value =>
    rw [statement, statement, expression_alike alike]
    rfl
  | report value =>
    rw [statement, statement, expression_alike alike]
    simp only [settings_over, same.reports]
    rfl
  | ret value => exact returnCode_alike alike value

include alike in
lemma block_alike (same : plan.settings.WritesAlike o) (body : List Stmt) :
    block (plan.over q o) { r with template := t } body = block plan r body := by
  rw [block, block, statements_alike fun s _ => statement_alike alike same s]

end

end Lower

namespace Emit

variable {plan : Plan} {q : Program} {o : Settings}

section

variable {t u : Template} (alike : t.CallsAlike u) (same : plan.settings.WritesAlike o)
include alike same

lemma handler_alike (agent : AgentLayout) (h : Handler) :
    handler (plan.over q o) agent u h = handler plan agent t h := by
  have body (name : String) (schema : SchemaLayout) (leave : Label) :=
    Lower.block_alike (q := q) (r := ⟨name, agent, t, some schema, .status, leave⟩) alike
      same h.body
  simp only [handler, body]
  rfl

lemma helper_alike (agent : AgentLayout) (h : Helper) : helper (plan.over q o) agent u h =
    helper plan agent t h := by
  have body (name : String) (leave : Label) :=
    Lower.block_alike (q := q) (r := ⟨name, agent, t, none, .value h.returns, leave⟩) alike
      same h.body
  simp only [helper, body]
  rfl

end

lemma dispatchArms_alike (agent : AgentLayout) (base : Int32) (storage : Storage)
    (fail next : Label) (schemas : List SchemaLayout) :
    dispatchArms (plan.over q o) agent base storage fail next schemas =
      dispatchArms plan agent base storage fail next schemas := by
  induction schemas with
  | nil => rfl
  | cons schema rest ih =>
    simp only [dispatchArms, ih]
    rfl

lemma mainRoutine_alike (seed : q.seed = plan.program.seed) (same : plan.settings.WritesAlike o) :
    mainRoutine (plan.over q o) = mainRoutine plan := by
  simp only [mainRoutine, act, dispatchArms_alike, Emit.seed, cycleBound, program_over,
    settings_over, seed, same.cycles]
  rfl

end Emit

/-- Templates whose difference no code can show: they have the same state, handle the same schemas,
are called alike, and have the same routines in every plan under the settings. -/
structure Template.WritesAlike (settings : Settings) (t u : Template) : Prop where
  state : u.state = t.state
  schemas : u.handlers.map (·.schema) = t.handlers.map (·.schema)
  calls : t.CallsAlike u
  handlers : ∀ plan agent, plan.settings = settings →
    u.handlers.mapM (Emit.handler plan agent t) = t.handlers.mapM (Emit.handler plan agent t)
  helpers : ∀ plan agent, plan.settings = settings →
    u.helpers.mapM (Emit.helper plan agent t) = t.helpers.mapM (Emit.helper plan agent t)

lemma Template.WritesAlike.refl (settings : Settings) (t : Template) : t.WritesAlike settings t :=
  ⟨rfl, rfl, .refl t, fun _ _ _ => rfl, fun _ _ _ => rfl⟩

structure Program.WritesAlike (settings : Settings) (p q : Program) : Prop where
  seed : q.seed = p.seed
  templates : ∀ name, Option.Rel (Template.WritesAlike settings) (p.template? name)
    (q.template? name)

lemma Program.WritesAlike.refl (settings : Settings) (p : Program) : p.WritesAlike settings p where
  seed := rfl
  templates name := by
    cases p.template? name with
    | none => exact .none
    | some t => exact .some (.refl settings t)

variable {p q : Program} {settings : Settings}

section

lemma Layout.agentUnitsOf_eq (routes : List Route) (agent : AgentLayout) (handlers : List Handler) :
    agentUnitsOf routes agent handlers = (handlers.map (·.schema)).mapM fun schema =>
      if isDelivered routes agent.name schema then pure ⟨agent.name, schema⟩
      else throw (.reference s!"handler {agent.name}.{schema}"
        "no routing edge delivers this schema to the agent") := by
  rw [List.mapM_map]
  rfl

lemma Layout.placeAgents_alike (alike : p.WritesAlike settings q) (limit : Nat)
    (done : List AgentLayout) (cursor : Nat) (instances : List AgentInstance) :
    placeAgents q.templates limit done cursor instances = placeAgents p.templates limit done
        cursor instances := by
  induction instances generalizing done cursor with
  | nil => rfl
  | cons agent rest ih =>
    have both := alike.templates agent.template
    simp only [placeAgents, ih]
    revert both
    rw [template?, template?]
    generalize p.templates.find? (·.name == agent.template) = t, q.templates.find?
      (·.name == agent.template) = u
    rintro (alike | _)
    · simp only [alike.state, alike.calls.name]
    · rfl

lemma Layout.collectUnits_alike (alike : p.WritesAlike settings q) (routes : List Route)
    (agents : List AgentLayout) :
    collectUnits q.templates routes agents = collectUnits p.templates routes agents := by
  unfold collectUnits
  congr 2
  funext agent
  have both := alike.templates agent.template
  revert both
  rw [template?, template?]
  generalize p.templates.find? (·.name == agent.template) = t, q.templates.find?
    (·.name == agent.template) = u
  rintro (alike | _)
  · simp only [agentUnitsOf_eq, alike.schemas]
  · rfl

end

section

lemma Plan.nameHelpers_eq (agent : AgentLayout) (t : Template) :
    nameHelpers agent (some t) = (t.helpers.map (·.name)).mapM fun name =>
      Emit.entry s!"helper.{agent.name}.{name}" >>= fun l => pure ((agent.name, name), l) := by
  rw [List.mapM_map]
  rfl

lemma Plan.nameHelpers_alike {t u : Option Template}
    (alike : Option.Rel (Template.WritesAlike settings) t u) (agent : AgentLayout) :
    nameHelpers agent u = nameHelpers agent t := by
  cases alike with
  | none => rfl
  | @some t u alike =>
    have names : u.helpers.map (·.name) = t.helpers.map (·.name) := by
      simpa [Helper.signature, Function.comp_def] using congrArg (List.map Prod.fst)
        alike.calls.helpers
    rw [nameHelpers_eq, nameHelpers_eq, names]

lemma Plan.initialValues_alike (alike : p.WritesAlike settings q) (layout : Layout) :
    initialValues q layout = initialValues p layout := by
  unfold initialValues
  congr 1
  funext agent
  have both := alike.templates agent.template
  revert both
  generalize p.template? agent.template = t, q.template? agent.template = u
  rintro (alike | _)
  · simp only [alike.state]
  · rfl

lemma Plan.make_alike {o : Settings} (alike : p.WritesAlike settings q)
    (same : settings.WritesAlike o) (layout : Layout) : make q layout o = (·.over q o) <$> make p
    layout settings := by
  have names : nameRoutines q layout = nameRoutines p layout := by
    simp only [nameRoutines, nameHelpers_alike (alike.templates _)]
  have data : layOutData q layout = layOutData p layout := by
    simp only [layOutData, initialValues_alike alike]
  have storage : layOutStorage layout o = layOutStorage layout settings := by
    funext sections
    simp only [layOutStorage, same.queues, same.heap]
  simp only [make, names, data, storage, map_bind, map_pure]
  rfl

end

section

variable {plan : Plan} {o : Settings} (alike : plan.program.WritesAlike plan.settings q)
  (same : plan.settings.WritesAlike o)
include alike same

lemma Emit.agentRoutines_alike (agent : AgentLayout) :
    agentRoutines (plan.over q o) agent = agentRoutines plan agent := by
  have both := alike.templates agent.template
  simp only [agentRoutines, program_over]
  revert both
  generalize plan.program.template? agent.template = t, q.template? agent.template = u
  rintro (alike | _)
  · simp only [funext (handler_alike (q := q) alike.calls same agent),
      funext (helper_alike (q := q) alike.calls same agent), alike.handlers plan agent rfl,
      alike.helpers plan agent rfl]
  · rfl

lemma Emit.program_alike : program (plan.over q o) = program plan := by
  have support : services o = services plan.settings := by
    simp only [services, same.queues, same.heap]
  simp only [program, mainRoutine_alike alike.seed same, funext (agentRoutines_alike alike same),
    settings_over, support]
  rfl

end

lemma generate_alike {o : Settings} (alike : p.WritesAlike settings q)
    (same : settings.WritesAlike o) (layout : Layout) : generate q layout o =
    generate p layout settings := by
  rw [generate, make_alike alike same, StateT.run_map, generate]
  cases planned : (Plan.make p layout settings).run .initial with
  | error fault => rfl
  | ok result =>
    obtain ⟨plan, pool⟩ := result
    have isMade := make_isMade planned
    rw [← isMade.program_eq, ← isMade.settings_eq] at alike
    rw [← isMade.settings_eq] at same
    simp only [bind, Except.bind, Functor.map, Except.map, Emit.program_alike alike same]
    rfl

end AgentCompiler
