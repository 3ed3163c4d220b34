import AgentCompiler.Proofs.LayoutFacts

/-!
What the layout of an accepted program takes over from its declarations. Schemas and agents stand in
declaration order with the records of their fields, routes of one source and schema are joined in
declaration order, and texts that become constants have no NUL.
-/

namespace AgentCompiler

open Record

lemma Record.slot?_pack (fields : List FieldDecl) (name : String) :
    ((pack fields).slot? name).map (·.type.kind) = (fields.find? (·.name == name)).map
        (·.type.kind) := by
  have slots : (pack fields).slots.map Slot.decl = fields := map_placeFields
  conv => rhs; rw [← slots, List.find?_map]
  rw [slot?, Option.map_map]
  rfl

lemma Record.kinds_pack (fields : List FieldDecl) :
    ((pack fields).slots.map fun slot => (slot.name, slot.type.kind)) =
      fields.map fun field => (field.name, field.type.kind) := by
  have slots : (pack fields).slots.map Slot.decl = fields := map_placeFields
  conv => rhs; rw [← slots, List.map_map]
  rfl

lemma dot_notMem_of_isIdentifier {name : String} (h : isIdentifier name = true) :
    '.' ∉ name.toList := by
  have letter : ∀ c, isNameStart c = true → isNameRest c = true := by
    intro c start
    simp only [isNameStart, isNameRest, Char.isAlphanum, Bool.or_eq_true] at start ⊢
    tauto
  unfold isIdentifier at h
  cases split : name.toList with
  | nil => simp
  | cons first rest =>
    simp only [split, Bool.and_eq_true] at h
    have all : ∀ c ∈ first :: rest, isNameRest c = true := by
      rw [List.forall_mem_cons]
      exact ⟨letter first h.1, List.all_eq_true.1 h.2⟩
    intro dot
    exact absurd (all '.' dot) (by decide)

namespace Layout

section

variable {schemas : List SchemaLayout} {agents : List AgentLayout} {table : List Route}

lemma destinationsIn_putRoute (sorted : table.Pairwise fun a b => routeBefore a b = true)
    (route : Route) (source : Endpoint) (schema : String) : destinationsIn (putRoute route table)
    source schema =
      if routeKey route = (source, schema) then route.destinations else destinationsIn table
          source schema := by
  have after := sorted_putRoute (a := route) sorted
  split
  next key =>
    obtain ⟨rfl, rfl⟩ := Prod.mk.inj key
    exact destinationsIn_of_mem after ((mem_putRoute sorted).2 (.inl rfl))
  next key =>
    rcases destinationsIn_cases table source schema with none | ⟨r, mem, rfl, rfl, same⟩
    · rcases destinationsIn_cases (putRoute route table) source schema with none' | ⟨r, mem, rfl,
        rfl, same⟩
      · rw [none, none']
      · rcases (mem_putRoute sorted).1 mem with rfl | ⟨old, -⟩
        · exact absurd rfl key
        · rw [same, destinationsIn_of_mem sorted old]
    · have kept := (mem_putRoute sorted).2 (.inr ⟨mem, fun same => key same.symm⟩)
      rw [same, destinationsIn_of_mem after kept]

def declaredDestinations (routes : List Route) (source : Endpoint) (schema : String) :
    List String :=
  (routes.filter fun r => r.source == source && r.schema == schema).flatMap (·.destinations)

lemma destinationsIn_join (sorted : table.Pairwise fun a b => routeBefore a b = true)
    (route : Route) (rest : List Route) (source : Endpoint) (schema : String) : destinationsIn
    (putRoute { route with
        destinations := destinationsIn table route.source route.schema ++ route.destinations }
          table)
        source schema ++ declaredDestinations rest source schema =
      destinationsIn table source schema ++ declaredDestinations (route :: rest) source schema := by
  rw [destinationsIn_putRoute sorted]
  by_cases key : route.source = source ∧ route.schema = schema
  · obtain ⟨rfl, rfl⟩ := key
    simp [routeKey, declaredDestinations]
  · have skipped : (route.source == source && route.schema == schema) = false := by
      simpa [Bool.and_eq_false_iff] using fun same => not_and.1 key same
    rw [if_neg (by simpa [routeKey] using key)]
    simp [declaredDestinations, skipped]

lemma destinationsIn_addRoutes {routes table' : List Route}
    (h : routes.foldlM (addRoute schemas agents) table = .ok table')
    (isTable : IsTable schemas agents table) (source : Endpoint) (schema : String) :
    destinationsIn table' source schema =
      destinationsIn table source schema ++ declaredDestinations routes source schema := by
  induction routes generalizing table with
  | nil =>
    obtain rfl := pure_ok.1 h
    simp [declaredDestinations]
  | cons route rest ih =>
    rw [List.foldlM_cons, bind_ok] at h
    obtain ⟨next, added, later⟩ := h
    rw [ih later (addRoute_ok added isTable)]
    obtain ⟨-, -, rfl⟩ := addRoute_ok_iff.1 added
    rw [destinationsIn_join isTable.sorted]

end

lemma checkSeed_ok {schemas : List SchemaLayout} {seed : Seed} {u : Unit}
    (h : checkSeed schemas seed = .ok u) :
    (∃ schema, schemas.find? (·.name == seed.schema) = some schema) ∧
      ∀ name text, (name, Literal.str text) ∈ seed.fields → hasNul text = false := by
  unfold checkSeed at h
  cases found : schemas.find? (·.name == seed.schema) with
  | none => simp [found] at h
  | some schema =>
    simp only [found, forM_ok] at h
    refine ⟨⟨schema, rfl⟩, fun name text mem => ?_⟩
    have checked := h _ mem
    dsimp only at checked
    split at checked
    next => simp at checked
    next => exact (checkLiteral_ok_iff.1 checked).plain

structure IsDeclared (program : Program) (layout : Layout) : Prop where
  schemas : (layout.schemas.map fun s => (s.name, s.payload)) =
    program.schemas.map fun s => (s.name, pack s.fields)
  templates : ∀ template ∈ program.templates, template.IsWellFormed (layout.schemas.map (·.name))
  instances : (layout.agents.map fun a => ⟨a.name, a.template⟩) = program.instances
  identifiers : ∀ a ∈ layout.agents, isIdentifier a.name = true
  routes : ∀ source schema, layout.destinations source schema = declaredDestinations program.routes
    source schema
  seed : ∃ schema, layout.schema? program.seed.schema = some schema
  seedTexts : ∀ name text, (name, Literal.str text) ∈ program.seed.fields → hasNul text = false

lemma analyze_isDeclared {program : Program} {settings : Settings} {layout : Layout}
    (h : analyze program settings = .ok layout) : IsDeclared program layout := by
  simp only [analyze, bind_ok, pure_ok, Prod.exists] at h
  obtain ⟨schemas, placed, _, templates, agents, stateSize, instances, routes, table, units, -, _,
      -, _, seed, rfl⟩ := h
  obtain ⟨placed', -, same⟩ := placeAgents_ok instances (by constructor <;> simp) (Nat.zero_le _)
  obtain ⟨found, plain⟩ := checkSeed_ok seed
  exact {
    schemas := placeSchemas_ok placed ▸ payloads_numbered program.schemas
    templates := (checkTemplates_ok_iff.1 templates).1
    instances := same
    identifiers := placed'.identifiers
    routes := fun source schema =>
      (destinationsIn_addRoutes table ⟨.nil, by simp⟩ source schema).trans (List.nil_append _)
    seed := found
    seedTexts := plain }

end Layout

end AgentCompiler
