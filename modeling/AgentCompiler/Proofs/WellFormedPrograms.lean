import AgentCompiler.Proofs.DeclaredNames

/-!
Which programs have a layout. The rules are stated for the program as it is declared: names, values,
sizes and routes, without the order in which they are looked at. Every check of the analysis is read
as the rule that it decides, and together they accept exactly the programs that follow all rules.
-/

namespace AgentCompiler

open Record List

variable {name : String} {u : Unit} {names : List String} {value : Literal}
  {fields : List FieldDecl}

section

namespace Program

def stateSize (templates : List Template) (agent : AgentInstance) : Nat :=
  match templates.find? (·.name == agent.template) with
  | some template => (pack (template.state.map (·.decl))).size
  | none => 0

/-- Where the regions of agents end when the first of them starts behind `start`: each starts at the
next multiple of sixteen and has eight bytes at least. -/
def arenaEnd (templates : List Template) (start : Nat) : List AgentInstance → Nat
  | [] => start
  | agent :: rest =>
    arenaEnd templates (16 * ((start + 15) / 16) + max (stateSize templates agent) 8) rest

def Handles (p : Program) (agent schema : String) : Prop :=
  ∃ a ∈ p.instances, a.name = agent ∧ ∃ t, p.templates.find? (·.name == a.template) = some t ∧
    ∃ handler ∈ t.handlers, handler.schema = schema

def Delivers (p : Program) (agent schema : String) : Prop :=
  ∃ route ∈ p.routes, route.schema = schema ∧ agent ∈ route.destinations

structure IsWellFormed (p : Program) (settings : Settings) : Prop where
  schemas : ∀ s ∈ p.schemas, s.IsWellFormed
  schemaNames : (p.schemas.map (·.name)).Nodup
  templates : ∀ t ∈ p.templates, t.IsWellFormed (p.schemas.map (·.name))
  templateNames : (p.templates.map (·.name)).Nodup
  agents : ∀ a ∈ p.instances, a.IsWellFormed p.templates
  agentNames : (p.instances.map (·.name)).Nodup
  arena : arenaEnd p.templates 0 p.instances ≤ settings.maxStateBytes.toNat
  routes : ∀ r ∈ p.routes, r.IsWellFormed (p.schemas.map (·.name)) (p.instances.map (·.name))
  /-- No destination twice among all routes of a source and a schema. -/
  destinations : ∀ source schema, (Layout.declaredDestinations p.routes source schema).Nodup
  answered : ∀ agent schema, p.Handles agent schema ↔ p.Delivers agent schema
  seed : p.seed.IsWellFormed p.schemas

end Program

end

namespace Layout

variable {routes : List Route}

section

variable {templates : List Template} {limit cursor : Nat} {done : List AgentLayout}

lemma le_arenaEnd (templates : List Template) (start : Nat) (instances : List AgentInstance) :
    start ≤ Program.arenaEnd templates start instances := by
  induction instances generalizing start with
  | nil => exact le_rfl
  | cons agent rest ih =>
    have next := ih (16 * ((start + 15) / 16) + max (Program.stateSize templates agent) 8)
    rw [Program.arenaEnd]
    omega

lemma exists_placeAgents_cons_iff {agent : AgentInstance} {rest : List AgentInstance}
    {template : Template} {state : Record} {base : Nat}
    (found : templates.find? (·.name == agent.template) = some template)
    (packed : state = pack (template.state.map (·.decl)))
    (start : base = 16 * ((cursor + 15) / 16)) :
    (∃ result, placeAgents templates limit done cursor (agent :: rest) = .ok result) ↔
      IsIdentifier agent.name ∧ agent.name ∉ done.map (·.name) ∧
      (template.state.map (·.name)).Nodup ∧ base + max state.size 8 ≤ limit ∧
      ∃ result, placeAgents templates limit
      (done ++ [⟨agent.name, template.name, base, max state.size 8, state⟩])
        (base + max state.size 8) rest = .ok result := by
  have aligned : alignUp cursor agentAlign = base := start ▸ alignUp_eq_mul rfl
  have names : (template.state.map (·.decl)).map (·.name) = template.state.map (·.name) := by
    simp [StateField.decl]
  simp only [placeAgents, found, bind_ok, ite_throw_ok, checkName_ok_iff, build_ok_iff,
    aligned, minAgentSize, names, ← packed]
  simp

lemma exists_placeAgents_iff {instances : List AgentInstance} (inside : cursor ≤ limit) :
    (∃ result, placeAgents templates limit done cursor instances = .ok result) ↔
      (∀ a ∈ instances, a.IsWellFormed templates) ∧
      AreNew (done.map (·.name)) (instances.map (·.name)) ∧
      Program.arenaEnd templates cursor instances ≤ limit := by
  induction instances generalizing done cursor with
  | nil => simp [placeAgents, areNew_nil, Program.arenaEnd, inside]
  | cons agent rest ih =>
    rw [forall_mem_cons, map_cons, areNew_cons, Program.arenaEnd, Program.stateSize,
      AgentInstance.isWellFormed_iff]
    cases found : templates.find? (·.name == agent.template) with
    | none => simp [placeAgents, found, bind_ok, ite_throw_ok]
    | some template =>
      rw [exists_placeAgents_cons_iff found rfl rfl]
      simp only [Option.some.injEq, exists_eq_left']
      have least := le_arenaEnd templates (16 * ((cursor + 15) / 16) +
        max (pack (template.state.map (·.decl))).size 8) rest
      constructor
      · rintro ⟨name, new, state, fits, later⟩
        obtain ⟨agents, others, size⟩ := (ih fits).1 later
        rw [map_append, map_singleton, areNew_append_singleton] at others
        exact ⟨⟨⟨name, state⟩, agents⟩, ⟨new, others⟩, size⟩
      · rintro ⟨⟨⟨name, state⟩, agents⟩, ⟨new, others⟩, size⟩
        have fits := least.trans size
        refine ⟨name, new, state, fits, (ih fits).2 ⟨agents, ?_, size⟩⟩
        rwa [map_append, map_singleton, areNew_append_singleton]

end

section

variable {schemas : List SchemaLayout} {agents : List AgentLayout} {table : List Route}

lemma exists_addRoutes_iff (isTable : IsTable schemas agents table) :
    (∃ table', routes.foldlM (addRoute schemas agents) table = .ok table') ↔
      (∀ r ∈ routes, r.IsWellFormed (schemas.map (·.name)) (agents.map (·.name))) ∧
      ∀ source schema, (destinationsIn table source schema ++ declaredDestinations routes source
      schema).Nodup := by
  induction routes generalizing table with
  | nil =>
    simpa [declaredDestinations] using fun source schema =>
      (isTable.accepted_destinationsIn source schema).1
  | cons route rest ih =>
    set joined := putRoute { route with
      destinations := destinationsIn table route.source route.schema ++ route.destinations } table
    have step : (∃ table', (route :: rest).foldlM (addRoute schemas agents) table = .ok table') ↔
        addRoute schemas agents table route = .ok joined ∧
        ∃ table', rest.foldlM (addRoute schemas agents) joined = .ok table' := by
      simp only [foldlM_cons, bind_ok, addRoute_ok_iff]
      aesop
    rw [step, forall_mem_cons]
    constructor
    · rintro ⟨added, later⟩
      obtain ⟨wellFormed, nodup⟩ := (ih (addRoute_ok added isTable)).1 later
      refine ⟨⟨(addRoute_ok_iff.1 added).1, wellFormed⟩, fun source schema => ?_⟩
      rw [← destinationsIn_join isTable.sorted]
      exact nodup source schema
    · rintro ⟨⟨first, wellFormed⟩, nodup⟩
      have new : AreNew (destinationsIn table route.source route.schema) route.destinations := by
        rw [areNew_iff_append (isTable.accepted_destinationsIn _ _).1]
        refine (nodup route.source route.schema).sublist (List.Sublist.append_left ?_ _)
        simp [declaredDestinations]
      have added := addRoute_ok_iff.2 ⟨first, new, rfl⟩
      refine ⟨added, (ih (addRoute_ok added isTable)).2 ⟨wellFormed, fun source schema => ?_⟩⟩
      rw [destinationsIn_join isTable.sorted]
      exact nodup source schema

end

section

variable {table : List Route}

lemma isDelivered_iff_declared (sorted : table.Pairwise fun a b => routeBefore a b = true)
    (declared : ∀ source schema, destinationsIn table source schema = declaredDestinations routes
    source schema) {agent schema : String} : isDelivered table agent schema = true ↔
      ∃ r ∈ routes, r.schema = schema ∧ agent ∈ r.destinations := by
  have listed (r : Route) : agent ∈ declaredDestinations routes r.source schema ↔
      ∃ o ∈ routes, o.source = r.source ∧ o.schema = schema ∧ agent ∈ o.destinations := by
    simp [declaredDestinations, and_assoc]
  rw [isDelivered_iff]
  constructor
  · rintro ⟨r, mem, rfl, inside⟩
    rw [← destinationsIn_of_mem sorted mem, declared, listed] at inside
    obtain ⟨o, mem, -, same, inside⟩ := inside
    exact ⟨o, mem, same, inside⟩
  · rintro ⟨r, mem, rfl, inside⟩
    have known := (listed r).2 ⟨r, mem, rfl, rfl, inside⟩
    rw [← declared] at known
    obtain none | ⟨o, mem, -, same, destinations⟩ := destinationsIn_cases table r.source r.schema
    · simp [none] at known
    · exact ⟨o, mem, same, destinations ▸ known⟩

end

section

variable {schemas : List SchemaLayout} {declared : List Schema}

lemma exists_slot?_iff (nodup : (fields.map (·.name)).Nodup) :
    (∃ slot, (pack fields).slot? name = some slot ∧ value.Fits slot.type) ↔
      ∃ field ∈ fields, field.name = name ∧ value.Fits field.type := by
  have slots : (pack fields).slots.map Slot.decl = fields := map_placeFields
  constructor
  · rintro ⟨slot, found, fits⟩
    refine ⟨slot.decl, ?_, by simpa [Slot.decl] using find?_some found, fits⟩
    rw [← slots]
    exact mem_map_of_mem (mem_of_find?_eq_some found)
  · rintro ⟨field, mem, rfl, fits⟩
    obtain ⟨slot, found⟩ := exists_slot? mem
    exact ⟨slot, found, type_of_slot? nodup mem found ▸ fits⟩

lemma checkSeed_ok_iff {seed : Seed} (payloads : (schemas.map fun s => (s.name, s.payload)) =
      declared.map fun s => (s.name, pack s.fields)) (names : (declared.map (·.name)).Nodup)
    (fields : ∀ s ∈ declared, (s.fields.map (·.name)).Nodup) :
    checkSeed schemas seed = .ok u ↔ seed.IsWellFormed declared := by
  have same : (schemas.find? (·.name == seed.schema)).map (fun s => (s.name, s.payload)) =
      (declared.find? (·.name == seed.schema)).map (fun s => (s.name, pack s.fields)) := by
    have first := congrArg (List.find? (·.1 == seed.schema)) payloads
    rwa [find?_map, find?_map] at first
  cases found : declared.find? (·.name == seed.schema) with
  | none =>
    have unknown : schemas.find? (·.name == seed.schema) = none := by simpa [found] using same
    simp only [checkSeed, unknown, throw_ok, false_iff]
    rintro ⟨schema, mem, named, -⟩
    exact find?_eq_none.1 found schema mem (by simp [named])
  | some schema =>
    obtain ⟨layout, known, pair⟩ := Option.map_eq_some_iff.1 (same.trans (congrArg _ found))
    have payload : layout.payload = pack schema.fields := congrArg Prod.snd pair
    have mem := mem_of_find?_eq_some found
    have named : schema.name = seed.schema := by simpa using find?_some found
    -- the schema of that name is the only one, so the seed's fields are fields of it
    have only : seed.IsWellFormed declared ↔ ∀ pair ∈ seed.fields,
        ∃ field ∈ schema.fields, field.name = pair.1 ∧ pair.2.Fits field.type := by
      constructor
      · rintro ⟨other, inside, alike, all⟩
        obtain rfl := inj_on_of_nodup_map names inside mem (alike.trans named.symm)
        exact all
      · exact fun all => ⟨schema, mem, named, all⟩
    rw [only]
    simp only [checkSeed, known, forM_ok, payload]
    refine forall₂_congr fun pair _ => ?_
    rw [← exists_slot?_iff (fields schema mem)]
    cases (pack schema.fields).slot? pair.1 with
    | none => simp
    | some slot => simp [checkLiteral_ok_iff]

end

section

variable {program : Program} {settings : Settings}

lemma handles_iff {agents : List AgentLayout}
    (instances : (agents.map fun a => ⟨a.name, a.template⟩) = program.instances)
    {agent schema : String} :
    Handles program.templates agents ⟨agent, schema⟩ ↔ program.Handles agent schema := by
  rw [Handles, Program.Handles, ← instances]
  constructor
  · rintro ⟨a, mem, template, found, handler, inside, same⟩
    obtain ⟨rfl, rfl⟩ := HandlerUnit.mk.inj same
    exact ⟨_, mem_map_of_mem mem, rfl, template, found, handler, inside, rfl⟩
  · rintro ⟨_, listed, rfl, template, found, handler, inside, rfl⟩
    obtain ⟨a, mem, rfl⟩ := mem_map.1 listed
    exact ⟨a, mem, template, found, handler, inside, rfl⟩

lemma isWellFormed_of_analyze {layout : Layout} (h : analyze program settings = .ok layout) :
    program.IsWellFormed settings := by
  have accepted := analyze_isAccepted h
  have declared := analyze_isDeclared h
  have names : layout.agents.map (·.name) = program.instances.map (·.name) := by
    simp [← declared.instances]
  simp only [analyze, bind_ok, pure_ok, Prod.exists] at h
  obtain ⟨schemas, placed, _, templates, agents, stateSize, regions, table, routes, units,
    collected, _, deliveries, _, seed, rfl⟩ := h
  obtain ⟨⟨wellFormed, schemaNames⟩, -⟩ := placeSchemas_ok_iff.1 placed
  obtain ⟨wellFormedTemplates, templateNames⟩ := checkTemplates_ok_iff.1 templates
  obtain ⟨wellFormedAgents, agentNames, arena⟩ := (exists_placeAgents_iff (Nat.zero_le _)).1
    ⟨_, regions⟩
  have empty : IsTable schemas agents [] := ⟨.nil, by simp⟩
  obtain ⟨wellFormedRoutes, destinations⟩ := (exists_addRoutes_iff empty).1 ⟨_, routes⟩
  have nodup := areNew_iff_nodup.1 schemaNames
  rw [accepted.schemaNames] at wellFormedTemplates wellFormedRoutes
  rw [names] at wellFormedRoutes
  exact {
    schemas := wellFormed
    schemaNames := nodup
    templates := wellFormedTemplates
    templateNames := areNew_iff_nodup.1 templateNames
    agents := wellFormedAgents
    agentNames := areNew_iff_nodup.1 agentNames
    arena := arena
    routes := wellFormedRoutes
    destinations := destinations
    answered := fun agent schema => by
      rw [Program.Delivers, ← handles_iff declared.instances,
        ← isDelivered_iff_declared accepted.routes.sorted declared.routes, ← accepted.units]
      exact ⟨accepted.delivered _, checkDeliveries_ok_iff.1 deliveries agent schema⟩
    seed := (checkSeed_ok_iff declared.schemas nodup fun s mem => (wellFormed s mem).fields).1
      seed }

lemma exists_analyze (h : program.IsWellFormed settings) : ∃ layout, analyze program settings =
    .ok layout := by
  obtain ⟨schemas, placed⟩ : ∃ schemas, placeSchemas [] program.schemas = .ok schemas :=
    ⟨_, placeSchemas_ok_iff.2 ⟨⟨h.schemas, areNew_iff_nodup.2 h.schemaNames⟩, rfl⟩⟩
  obtain rfl := placeSchemas_ok placed
  have schemaNames := names_numbered program.schemas
  have templates : checkTemplates (numbered program.schemas) [] program.templates = .ok () :=
    checkTemplates_ok_iff.2 ⟨schemaNames ▸ h.templates, areNew_iff_nodup.2 h.templateNames⟩
  obtain ⟨⟨agents, stateSize⟩, regions⟩ : ∃ result, placeAgents program.templates
      settings.maxStateBytes.toNat [] 0 program.instances = .ok result :=
    (exists_placeAgents_iff (Nat.zero_le _)).2 ⟨h.agents, areNew_iff_nodup.2 h.agentNames, h.arena⟩
  have instances : (agents.map fun a => ⟨a.name, a.template⟩) = program.instances :=
    (placeAgents_ok regions (by constructor <;> simp) (Nat.zero_le _)).2.2
  have agentNames : agents.map (·.name) = program.instances.map (·.name) := by
    simp [← instances]
  have empty : IsTable (numbered program.schemas) agents [] := ⟨.nil, by simp⟩
  obtain ⟨table, routes⟩ := (exists_addRoutes_iff empty).2 ⟨schemaNames ▸ agentNames ▸ h.routes,
    h.destinations⟩
  have delivered (agent schema : String) :
      isDelivered table agent schema = true ↔ Handles program.templates agents ⟨agent, schema⟩ := by
    rw [isDelivered_iff_declared (addRoutes_ok routes empty).sorted
      (destinationsIn_addRoutes routes empty), handles_iff instances]
    exact (h.answered agent schema).symm
  obtain ⟨units, collected⟩ : ∃ units, collectUnits program.templates table agents = .ok units :=
    ⟨_, collectUnits_ok_iff.2 ⟨fun u => (delivered u.agent u.schema).2, rfl⟩⟩
  have deliveries : table.forM (checkDelivery units) = .ok () := checkDeliveries_ok_iff.2 fun agent
      schema reached =>
      (mem_collectUnits collected).2 ((delivered agent schema).1 reached)
  have seed : checkSeed (numbered program.schemas) program.seed = .ok () :=
    (checkSeed_ok_iff (payloads_numbered _) h.schemaNames fun s mem => (h.schemas s mem).fields).2
      h.seed
  refine ⟨⟨numbered program.schemas, agents, table, units, stateSize⟩, ?_⟩
  simp only [analyze, bind_ok, pure_ok]
  exact ⟨_, placed, (), templates, (agents, stateSize), regions, table, routes, units, collected,
    (), deliveries, (), seed, rfl⟩

end

/-- The programs with a layout are the well-formed ones. -/
theorem analyze_accepts_iff (program : Program) (settings : Settings) :
    (∃ layout, analyze program settings = .ok layout) ↔ program.IsWellFormed settings :=
  ⟨fun ⟨_, analyzed⟩ => isWellFormed_of_analyze analyzed, exists_analyze⟩

section

/-- Two fields of one name, in a schema or in the state of some agent. A template without agents
counts for nothing here. -/
def RepeatsField (p : Program) : Prop :=
  (∃ s ∈ p.schemas, ¬ (s.fields.map (·.name)).Nodup) ∨
    ∃ a ∈ p.instances, ∃ t ∈ p.templates, t.name = a.template ∧ ¬ (t.state.map (·.name)).Nodup

/-- Whatever else it declares, a program with such fields has no layout. -/
theorem analyze_refuses_repeated_field {program : Program} (repeats : RepeatsField program)
    (settings : Settings) :
    ∃ fault, analyze program settings = .error fault := by
  cases analyzed : analyze program settings with
  | error fault => exact ⟨fault, rfl⟩
  | ok layout =>
    have rules := isWellFormed_of_analyze analyzed
    obtain ⟨s, mem, twice⟩ | ⟨a, mem, t, listed, named, twice⟩ := repeats
    · exact absurd (rules.schemas s mem).fields twice
    · obtain ⟨u, found, once⟩ := (rules.agents a mem).template
      have other : u.name = a.template := by simpa using List.find?_some found
      obtain rfl := List.inj_on_of_nodup_map rules.templateNames listed
        (List.mem_of_find?_eq_some found) (named.trans other.symm)
      exact absurd once twice

/-- A template with two fields of one name, beside one that is in use. -/
def spareTemplate (agents : List AgentInstance) : Program where
  schemas := [⟨"Tick", []⟩]
  templates := [⟨"Counter", [], [⟨"Tick", []⟩], []⟩,
    ⟨"Spare", [⟨"n", .i64, none⟩, ⟨"n", .bool, none⟩], [], []⟩]
  instances := ⟨"counter", "Counter"⟩ :: agents
  routes := [⟨.external, "Tick", ["counter"]⟩]
  seed := ⟨"Tick", []⟩

theorem analyze_refuses_repeated_field_spare :
    ∃ fault, analyze (spareTemplate [⟨"spare", "Spare"⟩]) {} = .error fault :=
  analyze_refuses_repeated_field (.inr ⟨_, .tail _ (.head _), _, .tail _ (.head _), rfl, by decide⟩)
    {}

/-- Only states that agents have are looked at. -/
theorem analyze_accepts_repeated_field_unused :
    (∃ t ∈ (spareTemplate []).templates, ¬ (t.state.map (·.name)).Nodup) ∧
      ∃ layout, analyze (spareTemplate []) {} = .ok layout :=
  ⟨⟨_, .tail _ (.head _), by decide⟩, _, rfl⟩

end

end Layout

end AgentCompiler
