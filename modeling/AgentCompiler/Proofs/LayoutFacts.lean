import AgentCompiler.Proofs.DeclarationChecks

/-!
What an accepted layout guarantees. Names are distinct and resolve, schemas are numbered from one,
each agent has the record of its template inside the arena, and the routing table and the units
answer to each other: a unit for whatever is delivered, and a route for whatever is handled.
-/

namespace AgentCompiler

open List

def Slot.decl (s : Slot) : FieldDecl := ⟨s.name, s.type⟩

namespace Record

variable {offset : Nat} {fields : List FieldDecl} {field : FieldDecl} {slot : Slot}

lemma le_placeFields (offset : Nat) : offset ≤ (placeFields offset fields).2 := by
  induction fields generalizing offset with
  | nil => exact le_rfl
  | cons field rest ih =>
    have more := ih (alignUp offset field.type.align + field.type.size)
    have start := le_alignUp offset field.type.align
    simp only [placeFields]
    omega

lemma placeFields_bounds : ∀ slot ∈ (placeFields offset fields).1,
    offset ≤ slot.offset ∧ slot.offset + slot.type.size ≤ (placeFields offset fields).2 := by
  induction fields generalizing offset with
  | nil => simp [placeFields]
  | cons field rest ih =>
    have start := le_alignUp offset field.type.align
    simp only [placeFields, forall_mem_cons]
    refine ⟨⟨start, le_placeFields _⟩, fun slot within => ?_⟩
    have bounds := ih slot within
    omega

lemma map_placeFields : (placeFields offset fields).1.map Slot.decl = fields := by
  induction fields generalizing offset with
  | nil => rfl
  | cons field rest ih => simp [placeFields, Slot.decl, ih]

lemma pack_bounds (h : slot ∈ (pack fields).slots) :
    slot.offset + slot.type.size ≤ (pack fields).size :=
  (placeFields_bounds slot h).2.trans (le_alignUp _ _)

lemma type_of_slot? (nodup : (fields.map (·.name)).Nodup) (hfield : field ∈ fields)
    (within : (pack fields).slot? field.name = some slot) : slot.type = field.type := by
  have mem : slot ∈ (pack fields).slots := mem_of_find?_eq_some within
  have name : slot.name = field.name := by simpa using find?_some within
  have decl : slot.decl ∈ (placeFields 0 fields).1.map Slot.decl := mem_map_of_mem mem
  rw [map_placeFields] at decl
  have eq := inj_on_of_nodup_map nodup decl hfield name
  exact congrArg FieldDecl.type eq

lemma exists_slot? (hfield : field ∈ fields) : ∃ slot, (pack fields).slot? field.name =
    some slot := by
  have slots : (pack fields).slots.map Slot.decl = fields := map_placeFields
  rw [← slots] at hfield
  obtain ⟨slot, within, rfl⟩ := mem_map.1 hfield
  exact Option.isSome_iff_exists.1 (find?_isSome.2 ⟨slot, within, by simp [Slot.decl]⟩)

end Record

namespace Layout

variable {templates : List Template} {program : Program} {settings : Settings} {layout : Layout}

section

structure AreNumbered (schemas : List SchemaLayout) : Prop where
  nodup : (schemas.map (·.name)).Nodup
  id_eq : ∀ {k : Nat} {s : SchemaLayout}, schemas[k]? = some s → s.id = k + 1

lemma AreNumbered.nodup_ids {schemas : List SchemaLayout} (h : AreNumbered schemas) :
    (schemas.map (·.id)).Nodup := by
  have ids : schemas.map (·.id) = List.range' 1 schemas.length := by
    refine ext_getElem? fun k => ?_
    by_cases below : k < schemas.length
    · have named := h.id_eq (getElem?_eq_getElem below)
      simp [below, named, add_comm]
    · simp [below]
  rw [ids]
  exact nodup_range'

def numbered (schemas : List Schema) : List SchemaLayout :=
  schemas.mapIdx fun k s => ⟨s.name, k + 1, Record.pack s.fields⟩

lemma placeSchemas_ok {schemas : List Schema} {result : List SchemaLayout}
    (h : placeSchemas [] schemas = .ok result) : result = numbered schemas := by
  simpa [eq_comm, numbered] using (placeSchemas_ok_iff.1 h).2

lemma payloads_numbered (schemas : List Schema) :
      ((numbered schemas).map fun s => (s.name, s.payload)) = schemas.map fun s =>
      (s.name, Record.pack s.fields) := by
  refine ext_getElem? fun k => ?_
  simp [numbered, Function.comp_def]

lemma names_numbered (schemas : List Schema) : (numbered schemas).map (·.name) = schemas.map
    (·.name) := by
  simpa [Function.comp_def] using congrArg (List.map Prod.fst) (payloads_numbered schemas)

lemma areNumbered_numbered {schemas : List Schema} (nodup : (schemas.map (·.name)).Nodup) :
    AreNumbered (numbered schemas) := by
  refine ⟨names_numbered schemas ▸ nodup, fun {k s} found => ?_⟩
  simp only [numbered, getElem?_mapIdx, Option.map_eq_some_iff] at found
  obtain ⟨schema, -, rfl⟩ := found
  rfl

end

section

variable {instances : List AgentInstance}

structure IsPlaced (templates : List Template) (agent : AgentLayout) (template : Template) :
    Prop where
  found : templates.find? (·.name == agent.template) = some template
  state : agent.state = Record.pack (template.state.map (·.decl))
  nodup : (template.state.map (·.name)).Nodup
  size : agent.size = max agent.state.size minAgentSize

/-- Agents under distinct names, one behind the other inside the first `final` bytes. -/
structure ArePlaced (templates : List Template) (agents : List AgentLayout) (final : Nat) :
    Prop where
  nodup : (agents.map (·.name)).Nodup
  placed : ∀ a ∈ agents, (∃ t, IsPlaced templates a t) ∧ a.base + a.size ≤ final
  identifiers : ∀ a ∈ agents, isIdentifier a.name = true
  aligned : ∀ a ∈ agents, 16 ∣ a.base
  apart : agents.Pairwise fun a b => a.base + a.size ≤ b.base

lemma ArePlaced.append {agents : List AgentLayout} {a : AgentLayout} {t : Template} {final : Nat}
    (h : ArePlaced templates agents final) (placed : IsPlaced templates a t)
    (new : a.name ∉ agents.map (·.name)) (identifier : isIdentifier a.name = true)
    (base : a.base = alignUp final agentAlign) : ArePlaced templates (agents ++ [a])
    (a.base + a.size) := by
  have start := base ▸ le_alignUp final agentAlign
  constructor
  case nodup =>
    rw [map_append, nodup_append']
    exact ⟨h.nodup, by simp, by simpa using new⟩
  case apart =>
    refine pairwise_append.2 ⟨h.apart, by simp, ?_⟩
    intro b mem _ last
    obtain rfl := mem_singleton.1 last
    exact (h.placed b mem).2.trans start
  all_goals rw [forall_mem_append, forall_mem_singleton]
  case placed =>
    refine ⟨fun b mem => ?_, ⟨t, placed⟩, le_rfl⟩
    obtain ⟨before, ends⟩ := h.placed b mem
    exact ⟨before, by omega⟩
  case identifiers => exact ⟨h.identifiers, identifier⟩
  case aligned => exact ⟨h.aligned, base ▸ dvd_alignUp (by decide)⟩

lemma placeAgents_ok {limit cursor final : Nat} {done agents : List AgentLayout}
    (h : placeAgents templates limit done cursor instances = .ok (agents, final))
    (hdone : ArePlaced templates done cursor) (inside : cursor ≤ limit) :
    ArePlaced templates agents final ∧ final ≤ limit ∧
      (agents.map fun a => (⟨a.name, a.template⟩ : AgentInstance)) =
        (done.map fun a => ⟨a.name, a.template⟩) ++ instances := by
  induction instances generalizing done cursor with
  | nil =>
    obtain ⟨rfl, rfl⟩ := Prod.mk.inj (pure_ok.1 h)
    exact ⟨hdone, inside, (append_nil _).symm⟩
  | cons agent rest ih =>
    simp only [placeAgents, bind_ok, ite_throw_ok] at h
    obtain ⟨_, checked, new, h⟩ := h
    cases found : templates.find? (·.name == agent.template) with
    | none => simp [found] at h
    | some template =>
      simp only [found, bind_ok, ite_throw_ok, build_ok_iff] at h
      obtain ⟨_, ⟨nodup, rfl⟩, room, more⟩ := h
      have name : template.name = agent.template := by simpa using find?_some found
      rw [map_map] at nodup
      have next := ih more (hdone.append (t := template) ⟨by simpa [name] using found, rfl,
        nodup, rfl⟩ (by simpa using new) (isIdentifier_iff.2 (checkName_ok_iff.1 checked)) rfl)
        (not_lt.1 room)
      simpa [name] using next

end

section

variable {schemas : List SchemaLayout} {agents : List AgentLayout} {r a b c : Route}
  {table table' : List Route}

lemma endpointBefore_trans {a b c : Endpoint} (h : endpointBefore a b = true)
    (h' : endpointBefore b c = true) : endpointBefore a c = true := by
  cases a <;> cases b <;> cases c <;> simp only [endpointBefore, Bool.false_eq_true,
    decide_eq_true_eq] at h h' ⊢
  exact String.lt_trans h h'

lemma endpointBefore_irrefl (a : Endpoint) : endpointBefore a a = false := by
  cases a with
  | external => rfl
  | agent name => exact decide_eq_false (String.lt_irrefl name)

lemma endpointBefore_total {a b : Endpoint} (h : endpointBefore a b = false)
    (h' : endpointBefore b a = false) : a = b := by
  cases a <;> cases b <;> simp only [endpointBefore, Bool.true_eq_false,
    decide_eq_false_iff_not] at h h' ⊢
  exact congrArg _ (String.le_antisymm (String.not_lt.1 h') (String.not_lt.1 h))

lemma routeBefore_iff : routeBefore a b = true ↔
    endpointBefore a.source b.source = true ∨ (a.source = b.source ∧ a.schema < b.schema) := by
  rw [routeBefore, Bool.or_eq_true, Bool.and_eq_true, beq_iff_eq, decide_eq_true_eq]

lemma routeBefore_trans (h : routeBefore a b = true) (h' : routeBefore b c = true) :
    routeBefore a c = true := by
  rw [routeBefore_iff] at h h' ⊢
  obtain h | ⟨source, h⟩ := h
  · obtain h' | ⟨source', -⟩ := h'
    · exact .inl (endpointBefore_trans h h')
    · exact .inl (source' ▸ h)
  · obtain h' | ⟨source', h'⟩ := h'
    · exact .inl (source ▸ h')
    · exact .inr ⟨source.trans source', String.lt_trans h h'⟩

def routeKey (r : Route) : Endpoint × String := (r.source, r.schema)

lemma routeKey_ne_of_routeBefore (h : routeBefore a b = true) : routeKey a ≠ routeKey b := by
  intro key
  obtain ⟨source, schema⟩ := Prod.mk.inj key
  rw [routeBefore_iff, source, schema, endpointBefore_irrefl] at h
  obtain h | h := h
  · exact Bool.false_ne_true h
  · exact String.lt_irrefl _ h.2

lemma routeKey_eq_of_not_routeBefore (h : ¬ routeBefore a b = true)
    (h' : ¬ routeBefore b a = true) :
    routeKey a = routeKey b := by
  rw [routeBefore_iff, not_or, Bool.not_eq_true] at h h'
  have source := endpointBefore_total h.1 h'.1
  have schema := String.le_antisymm (String.not_lt.1 fun lt => h'.2 ⟨source.symm, lt⟩)
      (String.not_lt.1 fun lt => h.2 ⟨source, lt⟩)
  exact Prod.ext source schema

section

variable (hsorted : table.Pairwise fun a b => routeBefore a b = true)
include hsorted

lemma mem_putRoute : r ∈ putRoute a table ↔ r = a ∨ (r ∈ table ∧ routeKey r ≠ routeKey a) := by
  induction table with
  | nil => simp [putRoute]
  | cons other rest ih =>
    rw [pairwise_cons] at hsorted
    unfold putRoute
    split
    next before =>
      have later : ∀ r ∈ other :: rest, routeKey r ≠ routeKey a := by
        rw [forall_mem_cons]
        refine ⟨(routeKey_ne_of_routeBefore before).symm, fun r hr => ?_⟩
        exact (routeKey_ne_of_routeBefore (routeBefore_trans before (hsorted.1 r hr))).symm
      rw [mem_cons]
      exact or_congr_right ⟨fun hr => ⟨hr, later r hr⟩, And.left⟩
    next hnot =>
      split
      next before =>
        rw [mem_cons, ih hsorted.2, mem_cons]
        have differs := routeKey_ne_of_routeBefore before
        constructor
        · rintro (rfl | rfl | ⟨hr, key⟩)
          · exact .inr ⟨.inl rfl, differs⟩
          · exact .inl rfl
          · exact .inr ⟨.inr hr, key⟩
        · rintro (rfl | ⟨rfl | hr, key⟩)
          · exact .inr (.inl rfl)
          · exact .inl rfl
          · exact .inr (.inr ⟨hr, key⟩)
      next not' =>
        have key := routeKey_eq_of_not_routeBefore hnot not'
        rw [mem_cons, mem_cons]
        refine or_congr_right ⟨fun hr => ⟨.inr hr, ?_⟩, ?_⟩
        · exact key ▸ (routeKey_ne_of_routeBefore (hsorted.1 r hr)).symm
        · rintro ⟨rfl | hr, ne⟩
          · exact absurd key.symm ne
          · exact hr

lemma sorted_putRoute : (putRoute a table).Pairwise fun a b => routeBefore a b = true := by
  induction table with
  | nil => simp [putRoute]
  | cons other rest ih =>
    have all := hsorted
    rw [pairwise_cons] at hsorted
    unfold putRoute
    split
    next before =>
      refine pairwise_cons.2 ⟨?_, all⟩
      rw [forall_mem_cons]
      exact ⟨before, fun r hr => routeBefore_trans before (hsorted.1 r hr)⟩
    next hnot =>
      split
      next before =>
        refine pairwise_cons.2 ⟨fun r hr => ?_, ih hsorted.2⟩
        obtain rfl | ⟨hr, -⟩ := (mem_putRoute hsorted.2).1 hr
        · exact before
        · exact hsorted.1 r hr
      next not' =>
        refine pairwise_cons.2 ⟨fun r hr => ?_, hsorted.2⟩
        obtain ⟨source, schema⟩ := Prod.mk.inj (routeKey_eq_of_not_routeBefore hnot not')
        have before := hsorted.1 r hr
        rw [routeBefore_iff] at before ⊢
        rwa [source, schema]

structure AcceptsRoute (schemas : List SchemaLayout) (agents : List AgentLayout) (route : Route) :
    Prop where
  schema : route.schema ∈ schemas.map (·.name)
  nodup : route.destinations.Nodup
  known : ∀ goal ∈ route.destinations, goal ∈ agents.map (·.name)

structure IsTable (schemas : List SchemaLayout) (agents : List AgentLayout) (table : List Route) :
    Prop where
  sorted : table.Pairwise fun a b => routeBefore a b = true
  accepted : ∀ r ∈ table, AcceptsRoute schemas agents r

lemma nodup_routeKey : (table.map routeKey).Nodup := pairwise_map.2
    (hsorted.imp routeKey_ne_of_routeBefore)

lemma destinationsIn_of_mem (mem : r ∈ table) : destinationsIn table r.source r.schema =
    r.destinations := by
  cases find : table.find? (fun o => o.source == r.source && o.schema == r.schema) with
  | none =>
    have absent := find?_eq_none.1 find r mem
    simp at absent
  | some o =>
    have key : routeKey o = routeKey r := by
      have matched := find?_some find
      simp only [Bool.and_eq_true, beq_iff_eq] at matched
      exact Prod.ext matched.1 matched.2
    obtain rfl := inj_on_of_nodup_map (nodup_routeKey hsorted) (mem_of_find?_eq_some find) mem key
    simp [destinationsIn, find]

end

lemma destinationsIn_cases (table : List Route) (source : Endpoint) (schema : String) :
    destinationsIn table source schema = [] ∨ ∃ r ∈ table, r.source = source ∧ r.schema = schema ∧
      destinationsIn table source schema = r.destinations := by
  unfold destinationsIn
  split
  next r hr =>
    have matched := find?_some hr
    simp only [Bool.and_eq_true, beq_iff_eq] at matched
    exact .inr ⟨r, mem_of_find?_eq_some hr, matched.1, matched.2, rfl⟩
  next => exact .inl rfl

lemma IsTable.accepted_destinationsIn (h : IsTable schemas agents table) (source : Endpoint)
    (schema : String) : (destinationsIn table source schema).Nodup ∧
      ∀ goal ∈ destinationsIn table source schema, goal ∈ agents.map (·.name) := by
  obtain none | ⟨r, mem, -, -, same⟩ := destinationsIn_cases table source schema
  · simp [none]
  · rw [same]
    exact ⟨(h.accepted r mem).nodup, (h.accepted r mem).known⟩

lemma addRoute_ok {route : Route} (h : addRoute schemas agents table route = .ok table')
    (htable : IsTable schemas agents table) : IsTable schemas agents table' := by
  obtain ⟨wellFormed, new, rfl⟩ := addRoute_ok_iff.1 h
  obtain ⟨nodup, known⟩ := htable.accepted_destinationsIn route.source route.schema
  refine ⟨sorted_putRoute htable.sorted, fun r hr => ?_⟩
  obtain rfl | ⟨hr, -⟩ := (mem_putRoute htable.sorted).1 hr
  · exact ⟨wellFormed.schema, (areNew_iff_append nodup).1 new,
      forall_mem_append.2 ⟨known, wellFormed.destinations⟩⟩
  · exact htable.accepted r hr

lemma addRoutes_ok {routes : List Route}
    (h : routes.foldlM (addRoute schemas agents) table = .ok table')
    (htable : IsTable schemas agents table) : IsTable schemas agents table' := by
  induction routes generalizing table with
  | nil =>
    obtain rfl := pure_ok.1 h
    exact htable
  | cons route rest ih =>
    rw [foldlM_cons, bind_ok] at h
    obtain ⟨next, after, more⟩ := h
    exact ih more (addRoute_ok after htable)

end

section

variable {templates : List Template} {routes : List Route} {agents : List AgentLayout}
  {units sorted : List HandlerUnit} {u : HandlerUnit}

lemma mem_putUnit {v : HandlerUnit} : v ∈ putUnit u sorted ↔ v = u ∨ v ∈ sorted := by
  induction sorted with
  | nil => simp [putUnit]
  | cons other rest ih =>
    unfold putUnit
    split
    · exact mem_cons
    · rw [mem_cons, ih, mem_cons]
      exact or_left_comm

lemma mem_foldl_putUnit {found : List HandlerUnit} :
    u ∈ found.foldl (fun sorted u => putUnit u sorted) sorted ↔ u ∈ found ∨ u ∈ sorted := by
  induction found generalizing sorted with
  | nil => simp
  | cons first rest ih =>
    rw [foldl_cons, ih, mem_putUnit, mem_cons]
    exact or_left_comm.trans (or_assoc.symm)

def Handles (templates : List Template) (agents : List AgentLayout) (u : HandlerUnit) : Prop :=
  ∃ agent ∈ agents, ∃ template, templates.find? (·.name == agent.template) = some template ∧
    ∃ handler ∈ template.handlers, u = ⟨agent.name, handler.schema⟩

def unitsOf (templates : List Template) (agent : AgentLayout) : List HandlerUnit :=
  ((templates.find? (·.name == agent.template)).elim [] (·.handlers)).map fun handler =>
    ⟨agent.name, handler.schema⟩

lemma mem_unitsOf : u ∈ agents.flatMap (unitsOf templates) ↔ Handles templates agents u := by
  simp only [mem_flatMap, unitsOf, mem_map, Handles]
  refine exists_congr fun agent => and_congr_right fun _ => ?_
  cases templates.find? (·.name == agent.template) <;> simp [eq_comm]

lemma agentUnitsOf_ok_iff {agent : AgentLayout} {handlers : List Handler} :
    agentUnitsOf routes agent handlers = .ok units ↔
      (∀ handler ∈ handlers, isDelivered routes agent.name handler.schema = true) ∧
      handlers.map (fun handler => ⟨agent.name, handler.schema⟩) = units := by
  refine mapM_ok_iff_map fun handler u => ?_
  split <;> simp_all

lemma collectUnits_ok_iff : collectUnits templates routes agents = .ok units ↔
    (∀ u, Handles templates agents u → isDelivered routes u.agent u.schema = true) ∧
      (agents.flatMap (unitsOf templates)).foldl (fun sorted u => putUnit u sorted) [] = units := by
  rw [collectUnits, bind_ok]
  refine (exists_congr fun found => and_congr_left' (mapM_ok_iff_map (g := unitsOf templates)
    (c := fun agent => ∀ u ∈ unitsOf templates agent, isDelivered routes u.agent u.schema = true)
    fun agent units => ?_)).trans ?_
  · unfold unitsOf
    cases templates.find? (·.name == agent.template) with
    | none => simp
    | some template => simp [agentUnitsOf_ok_iff]
  · simp only [pure_ok, existsAndEq, and_true, ← mem_unitsOf, flatMap_def]
    aesop

lemma mem_collectUnits (h : collectUnits templates routes agents = .ok units) :
    u ∈ units ↔ Handles templates agents u := by
  obtain ⟨-, rfl⟩ := collectUnits_ok_iff.1 h
  rw [mem_foldl_putUnit, mem_unitsOf]
  simp

lemma isDelivered_iff {agent schema : String} : isDelivered routes agent schema = true ↔
      ∃ r ∈ routes, r.schema = schema ∧ agent ∈ r.destinations := by
  simp [isDelivered]

lemma checkDeliveries_ok_iff {x : Unit} : routes.forM (checkDelivery units) = .ok x ↔
    ∀ agent schema, isDelivered routes agent schema = true → ⟨agent, schema⟩ ∈ units := by
  have one (goal schema : String) {fault : Diagnostic} :
      (if units.contains ⟨goal, schema⟩ then pure () else throw fault : Outcome Unit) = .ok () ↔
        ⟨goal, schema⟩ ∈ units := by
    split <;> simp_all
  simp only [forM_ok, checkDelivery, one, isDelivered_iff]
  aesop

end

structure IsAccepted (program : Program) (layout : Layout) : Prop where
  schemas : AreNumbered layout.schemas
  schemaNames : layout.schemas.map (·.name) = program.schemas.map (·.name)
  templates : ∀ template ∈ program.templates, template.IsWellFormed (layout.schemas.map (·.name))
  agents : ArePlaced program.templates layout.agents layout.stateSize
  routes : IsTable layout.schemas layout.agents layout.routes
  units : ∀ u, u ∈ layout.units ↔ Handles program.templates layout.agents u
  delivered : ∀ u ∈ layout.units, isDelivered layout.routes u.agent u.schema = true
  handled : ∀ route ∈ layout.routes, ∀ goal ∈ route.destinations,
    ⟨goal, route.schema⟩ ∈ layout.units

lemma analyze_isAccepted (h : analyze program settings = .ok layout) :
    IsAccepted program layout := by
  simp only [analyze, bind_ok, pure_ok, Prod.exists] at h
  obtain ⟨schemas, found, _, htemplates, agents, stateSize, hagents, routes, hroutes, units, hunits,
    _, deliveries, _, -, rfl⟩ := h
  have nodup := areNew_iff_nodup.1 (placeSchemas_ok_iff.1 found).1.2
  obtain rfl := placeSchemas_ok found
  exact {
    schemas := areNumbered_numbered nodup
    schemaNames := names_numbered program.schemas
    templates := (checkTemplates_ok_iff.1 htemplates).1
    agents := (placeAgents_ok hagents (by constructor <;> simp) (Nat.zero_le _)).1
    routes := addRoutes_ok hroutes ⟨.nil, by simp⟩
    units := fun u => mem_collectUnits hunits
    delivered := fun u hu => (collectUnits_ok_iff.1 hunits).1 u ((mem_collectUnits hunits).1 hu)
    handled := fun route routed goal leads => checkDeliveries_ok_iff.1 deliveries _ _
      (isDelivered_iff.2 ⟨route, routed, rfl, leads⟩) }

lemma analyze_stateSize_le (h : analyze program settings = .ok layout) :
    layout.stateSize ≤ settings.maxStateBytes.toNat := by
  simp only [analyze, bind_ok, pure_ok, Prod.exists] at h
  obtain ⟨_, -, _, -, agents, stateSize, placed, _, -, _, -, _, -, _, -, rfl⟩ := h
  exact (placeAgents_ok placed (by constructor <;> simp) (Nat.zero_le _)).2.1

end Layout

end AgentCompiler
