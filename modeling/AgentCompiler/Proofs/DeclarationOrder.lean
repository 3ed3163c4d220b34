import AgentCompiler.Proofs.ProgramLookups
import AgentCompiler.Proofs.ProgramText
import AgentCompiler.Proofs.WellFormedPrograms

/-!
The order of declarations. Templates are only looked up by name, and the routing table has an order
of its own, so neither the order of templates nor that of routes of different sources or schemas
shows in the layout, the code or the image. Routes of one source and schema are joined, and their
order is the order of deliveries.
-/

namespace AgentCompiler

open List

/-- The same routes in another order. Routes of one source and schema keep their order. -/
structure Route.Reorders (routes others : List Route) : Prop where
  perm : others.Perm routes
  kept : ∀ source schema, others.filter (fun r => r.source == source && r.schema == schema) =
      routes.filter fun r => r.source == source && r.schema == schema

namespace Layout

section

variable {schemas : List SchemaLayout} {agents : List AgentLayout}
  {table table' routes : List Route} {key : Endpoint × String}

instance : Std.Irrefl fun a b : Route => routeBefore a b = true :=
  ⟨fun _ before => routeKey_ne_of_routeBefore before rfl⟩

instance : Std.Antisymm fun a b : Route => routeBefore a b = true :=
  ⟨fun _ _ before behind => absurd rfl (routeKey_ne_of_routeBefore
    (routeBefore_trans before behind))⟩

section

variable (sorted : table.Pairwise fun a b => routeBefore a b = true)
include sorted

lemma mem_table_iff {r : Route} : r ∈ table ↔ routeKey r ∈ table.map routeKey ∧
      r.destinations = destinationsIn table r.source r.schema := by
  constructor
  · intro mem
    exact ⟨mem_map_of_mem mem, (destinationsIn_of_mem sorted mem).symm⟩
  · rintro ⟨listed, destinations⟩
    obtain ⟨o, mem, key⟩ := mem_map.1 listed
    obtain ⟨source, schema⟩ := Prod.mk.inj key
    rw [← source, ← schema, destinationsIn_of_mem sorted mem] at destinations
    obtain rfl : o = r := by
      obtain ⟨_, _, _⟩ := o
      obtain ⟨_, _, _⟩ := r
      simp_all
    exact mem

lemma mem_keys_putRoute {route : Route} :
    key ∈ (putRoute route table).map routeKey ↔ key = routeKey route ∨
        key ∈ table.map routeKey := by
  simp only [mem_map, mem_putRoute sorted]
  constructor
  · rintro ⟨r, rfl | ⟨mem, -⟩, rfl⟩
    · exact .inl rfl
    · exact .inr ⟨r, mem, rfl⟩
  · rintro (rfl | ⟨r, mem, rfl⟩)
    · exact ⟨route, .inl rfl, rfl⟩
    · by_cases same : routeKey r = routeKey route
      · exact ⟨route, .inl rfl, same.symm⟩
      · exact ⟨r, .inr ⟨mem, same⟩, rfl⟩

end

lemma mem_keys_addRoutes (h : routes.foldlM (addRoute schemas agents) table = .ok table')
    (isTable : IsTable schemas agents table) :
    key ∈ table'.map routeKey ↔ key ∈ table.map routeKey ∨ key ∈ routes.map routeKey := by
  induction routes generalizing table with
  | nil =>
    obtain rfl := pure_ok.1 h
    simp
  | cons route rest ih =>
    rw [foldlM_cons, bind_ok] at h
    obtain ⟨next, added, later⟩ := h
    rw [ih later (addRoute_ok added isTable)]
    obtain ⟨-, -, rfl⟩ := addRoute_ok_iff.1 added
    rw [mem_keys_putRoute isTable.sorted, map_cons, mem_cons]
    exact or_right_comm.trans or_comm

lemma addRoutes_reordered {others : List Route} (reordered : Route.Reorders routes others)
    (h : routes.foldlM (addRoute schemas agents) [] = .ok table) :
    others.foldlM (addRoute schemas agents) [] = .ok table := by
  have empty : IsTable schemas agents [] := ⟨.nil, by simp⟩
  have declared (source : Endpoint) (schema : String) :
      declaredDestinations others source schema = declaredDestinations routes source schema := by
    rw [declaredDestinations, declaredDestinations, reordered.kept]
  obtain ⟨wellFormed, nodup⟩ := (exists_addRoutes_iff empty).1 ⟨table, h⟩
  obtain ⟨table', h'⟩ : ∃ table', others.foldlM (addRoute schemas agents) [] = .ok table' :=
    (exists_addRoutes_iff empty).2 ⟨fun r mem => wellFormed r (reordered.perm.mem_iff.1 mem),
      by simpa only [declared] using nodup⟩
  rw [h']
  congr 1
  have sorted := (addRoutes_ok h empty).sorted
  have sorted' := (addRoutes_ok h' empty).sorted
  refine sorted'.eq_of_mem_iff sorted fun r => ?_
  rw [mem_table_iff sorted, mem_table_iff sorted', mem_keys_addRoutes h empty,
    mem_keys_addRoutes h' empty, (reordered.perm.map routeKey).mem_iff,
    destinationsIn_addRoutes h empty, destinationsIn_addRoutes h' empty, declared]

end

section

variable {templates others : List Template}

lemma find?_permuted (permuted : others.Perm templates) (nodup : (templates.map (·.name)).Nodup)
    (name : String) : others.find? (·.name == name) = templates.find? (·.name == name) := by
  refine (find?_eq_find?_of_perm permuted.symm ?_).symm
  rintro t ⟨mem, named⟩ u ⟨member', named'⟩
  exact inj_on_of_nodup_map nodup mem member' (by simp_all)

lemma checkTemplates_permuted {schemas : List SchemaLayout} {u : Unit}
    (permuted : others.Perm templates) (h : checkTemplates schemas [] templates = .ok u) :
    checkTemplates schemas [] others = .ok u := by
  obtain ⟨wellFormed, new⟩ := checkTemplates_ok_iff.1 h
  refine checkTemplates_ok_iff.2 ⟨fun t mem => wellFormed t (permuted.mem_iff.1 mem), ?_⟩
  rw [areNew_iff_nodup] at new ⊢
  exact (permuted.map _).nodup_iff.2 new

end

end Layout

section

variable {program : Program} {settings : Settings} {layout : Layout} {templates : List Template}
  {routes : List Route}

lemma Program.writesAlike_permuted (nodup : (program.templates.map (·.name)).Nodup)
    (permuted : templates.Perm program.templates) (settings : Settings) :
    program.WritesAlike settings { program with templates, routes } where
  seed := rfl
  templates name := by
    have found : ({ program with templates, routes } : Program).template? name =
        program.template? name := Layout.find?_permuted permuted nodup name
    rw [found]
    cases program.template? name with
    | none => exact .none
    | some t => exact .some (.refl settings t)

lemma Layout.analyze_reordered (analyzed : analyze program settings = .ok layout)
    (permuted : templates.Perm program.templates)
    (reordered : Route.Reorders program.routes routes) :
    analyze { program with templates, routes } settings = .ok layout := by
  have nodup := (isWellFormed_of_analyze analyzed).templateNames
  have alike : program.WritesAlike settings { program with templates, routes } :=
    Program.writesAlike_permuted nodup permuted settings
  simp only [analyze, bind_ok, pure_ok] at analyzed ⊢
  obtain ⟨schemas, placed, u, checked, ⟨agents, stateSize⟩, regions, table, joined, rest⟩ :=
    analyzed
  refine ⟨schemas, placed, u, checkTemplates_permuted permuted checked, (agents, stateSize),
    ?_, table, addRoutes_reordered reordered joined, ?_⟩
  · rw [← regions]
    exact placeAgents_alike alike _ _ _ _
  · rw [← collectUnits_alike alike] at rest
    exact rest

/-- The order of templates, and of routes that have not both source and schema in common, makes no
difference. -/
theorem compile_reordered (analyzed : Layout.analyze program settings = .ok layout)
    (permuted : templates.Perm program.templates)
    (reordered : Route.Reorders program.routes routes) :
    Layout.analyze { program with templates, routes } settings = .ok layout ∧
      (∀ others, generate { program with templates, routes } layout others =
        generate program layout others) ∧
      compile { program with templates, routes } settings = compile program settings := by
  have nodup := (Layout.isWellFormed_of_analyze analyzed).templateNames
  have again := Layout.analyze_reordered analyzed permuted reordered
  have codes (others : Settings) : generate { program with templates, routes } layout others =
      generate program layout others :=
    generate_alike (Program.writesAlike_permuted nodup permuted others) (.refl others) layout
  refine ⟨again, codes, ?_⟩
  simp only [compile, lower, describeLayout, analyzed, again]
  cases settings.validate with
  | error fault => rfl
  | ok _ => exact congrArg (· >>= (·.link settings.loadAddress.toNat)) (codes settings)

end

section

def relayTemplate : Template := ⟨"Relay", [], [⟨"Ping", [.emit "Pong" [("n", .field "n")]]⟩], []⟩

def sinkTemplate : Template := ⟨"Sink", [⟨"last", .i64, none⟩],
  [⟨"Pong", [.assign (.state "last") (.field "n"), .write (.state "last")]⟩], []⟩

/-- Two routes of one source and schema, which are joined to the deliveries right and left. -/
def relayProgram : Program where
  schemas := [⟨"Ping", [⟨"n", .i64⟩]⟩, ⟨"Pong", [⟨"n", .i64⟩]⟩]
  templates := [relayTemplate, sinkTemplate]
  instances := [⟨"relay", "Relay"⟩, ⟨"left", "Sink"⟩, ⟨"right", "Sink"⟩]
  routes := [⟨.external, "Ping", ["relay"]⟩, ⟨.agent "relay", "Pong", ["right"]⟩,
    ⟨.agent "relay", "Pong", ["left"]⟩]
  seed := ⟨"Ping", [("n", .int 7)]⟩

def shuffledRelay : Program := { relayProgram with
    templates := [sinkTemplate, relayTemplate]
    routes := [⟨.agent "relay", "Pong", ["right"]⟩, ⟨.external, "Ping", ["relay"]⟩,
      ⟨.agent "relay", "Pong", ["left"]⟩] }

set_option maxRecDepth 100000 in
lemma relayProgram_lowers : (lower relayProgram {}).isOk = true := by decide +kernel

theorem compile_reordered_relay : ∃ layout, Layout.analyze relayProgram {} = .ok layout ∧
    Layout.analyze shuffledRelay {} = .ok layout ∧
    generate shuffledRelay layout {} = generate relayProgram layout {} ∧
    compile shuffledRelay {} = compile relayProgram {} ∧
    ∃ object, generate relayProgram layout {} = .ok object := by
  have lowers := relayProgram_lowers
  cases lowered : lower relayProgram {} with
  | error fault => simp [lowered, Except.isOk, Except.toBool] at lowers
  | ok object =>
    simp only [lower, describeLayout, bind_ok] at lowered
    obtain ⟨layout, ⟨_, -, analyzed⟩, generated⟩ := lowered
    have reordered : Route.Reorders relayProgram.routes shuffledRelay.routes := by
      refine ⟨by decide, fun source schema => ?_⟩
      cases source <;> rfl
    obtain ⟨again, codes, images⟩ := compile_reordered analyzed (.swap _ _ _) reordered
    exact ⟨layout, analyzed, again, codes {}, images, object, generated⟩

end

end AgentCompiler
