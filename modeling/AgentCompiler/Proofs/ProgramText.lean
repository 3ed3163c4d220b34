import AgentCompiler.Compile
import AgentCompiler.Proofs.PlanFacts
import AgentCompiler.Proofs.RoutineText
import AgentCompiler.Proofs.ServiceText

/-!
The code of a whole program, opened into its routines: the main routine, the routines of the agents
and the services, each of which starts at a label of its own and binds the labels that were named
while it was written.
-/

namespace AgentCompiler

open List Emit

structure PlacedRoutine where
  agent : AgentLayout
  entry : Label
  params : Nat
  slots : Nat
  code : Code

inductive RoutineRuns (plan : Plan) : Pool → List PlacedRoutine → Pool → Prop
  | nil (p : Pool) : RoutineRuns plan p [] p
  | cons {p s q : Pool} {u : PlacedRoutine} {rest : List PlacedRoutine} :
      IsRoutine plan u.agent u.entry u.params u.slots p u.code s →
      RoutineRuns plan s rest q → RoutineRuns plan p (u :: rest) q

def Template.slotCounts (t : Template) : List Nat := t.handlers.map
    (fun h => Stmt.declarationsIn h.body) ++ t.helpers.map fun h =>
    h.params.length + Stmt.declarationsIn h.body

namespace Plan

/-- The entry points of the routines of an agent, as they stand in an image. -/
def entries (plan : Plan) (agent : AgentLayout) : List (Option Label) :=
  ((plan.program.template? agent.template).map fun t =>
    t.handlers.map (fun h => plan.handler? agent.name h.schema) ++
      t.helpers.map fun h => plan.helper? agent.name h.name).getD []

def slotCounts (plan : Plan) (agent : AgentLayout) : List Nat :=
  ((plan.program.template? agent.template).map Template.slotCounts).getD []

end Plan

section

variable {plan : Plan} {p q s : Pool} {agent : AgentLayout} {codes : List Code}

lemma Plan.IsMade.entry_bounds {program : Program} {layout : Layout} {settings : Settings}
    (h : plan.IsMade program layout settings q) {l : Label} (mem : some l ∈ plan.entries agent) :
    Service.labels.size ≤ l.id ∧ l.id < q.labels.size := by
  unfold Plan.entries at mem
  cases template : plan.program.template? agent.template with
  | none => simp [template] at mem
  | some t =>
    simp only [template, Option.map_some, Option.getD_some, mem_append, mem_map] at mem
    obtain ⟨handler, -, lookup⟩ | ⟨helper, -, lookup⟩ := mem
    · exact h.label_bounds (.inl (mem_of_lookup_eq_some lookup))
    · exact h.label_bounds (.inr (mem_of_lookup_eq_some lookup))

lemma RoutineRuns.append {first second : List PlacedRoutine} (h : RoutineRuns plan p first s)
    (h' : RoutineRuns plan s second q) : RoutineRuns plan p (first ++ second) q := by
  induction h with
  | nil p => exact h'
  | cons routine _ ih => exact .cons routine (ih h')

lemma RoutineRuns.grows {routines : List PlacedRoutine} (h : RoutineRuns plan p routines q)
    (knows : plan.Knows p) : p.Grows q := by
  induction h with
  | nil p => exact .refl p
  | cons routine _ ih =>
    have grows := routine.grows knows
    exact grows.trans (ih (grows.knows knows))

lemma routineRuns_of_mapRun {α : Type} {f : α → Emit Code} {label? : α → Option Label}
    {params slots : α → Nat} {items : List α} (h : Emit.MapRun f p items codes q)
    (hf : ∀ a {p q : Pool} {code : Code}, f a p = .ok (code, q) → ∃ entry, label? a = some entry ∧
        IsRoutine plan agent entry (params a) (slots a) p code q) :
    ∃ units, RoutineRuns plan p units q ∧ codes.flatten = units.flatMap (·.code) ∧
      units.map (fun u => some u.entry) = items.map label? ∧
      units.map (·.slots) = items.map slots := by
  induction h with
  | nil p => exact ⟨[], .nil p, rfl, rfl, rfl⟩
  | @cons p s q a code items codes first _ ih =>
    obtain ⟨units, runs, coded, entries, hslots⟩ := ih
    obtain ⟨entry, starts, routine⟩ := hf a first
    refine ⟨⟨agent, entry, params a, slots a, code⟩ :: units, .cons routine runs, ?_, ?_, ?_⟩
    · simp [coded]
    · simp [entries, starts]
    · simp [hslots]

lemma Emit.agentRoutines_runs {code : Code} (h : agentRoutines plan agent p = .ok (code, q)) :
    ∃ units, RoutineRuns plan p units q ∧ code = units.flatMap (·.code) ∧
      units.map (fun u => some u.entry) = plan.entries agent ∧
      units.map (·.slots) = plan.slotCounts agent := by
  obtain ⟨template, handlers, p1, helpers, kept, handled, helped, rfl⟩ := agentRoutines_ok h
  obtain ⟨units, runs, coded, entries, slots⟩ := routineRuns_of_mapRun handled fun _ =>
    handler_isRoutine
  obtain ⟨units', runs', code', entries', slots'⟩ := routineRuns_of_mapRun helped fun _ =>
    helper_isRoutine
  refine ⟨units ++ units', runs.append runs', ?_, ?_, ?_⟩
  · rw [coded, code', flatMap_append]
  · simp [Plan.entries, kept, entries, entries']
  · simp [Plan.slotCounts, Template.slotCounts, kept, slots, slots']

lemma Emit.allRoutines_runs {agents : List AgentLayout}
    (h : MapRun (agentRoutines plan) p agents codes q) :
    ∃ units, RoutineRuns plan p units q ∧ codes.flatten = units.flatMap (·.code) ∧
      units.map (fun u => some u.entry) = agents.flatMap plan.entries ∧
      units.map (·.slots) = agents.flatMap plan.slotCounts := by
  induction h with
  | nil p => exact ⟨[], .nil p, rfl, rfl, rfl⟩
  | cons first _ ih =>
    obtain ⟨units, runs, rfl, entries, slots⟩ := agentRoutines_runs first
    obtain ⟨units', runs', coded, entries', slots'⟩ := ih
    refine ⟨units ++ units', runs.append runs', ?_, ?_, ?_⟩
    · rw [flatten_cons, coded, flatMap_append]
    · rw [map_append, flatMap_cons, entries, entries']
    · rw [map_append, flatMap_cons, slots, slots']

end

inductive ProgramText (program : Program) (layout : Layout) (settings : Settings)
    (object : ObjectCode) : Prop
  | intro {plan : Plan} {pool p0 p1 p2 q : Pool} {start : Label} {front : Code}
      {routines : List PlacedRoutine} {services : List PlacedService} :
      Plan.make program layout settings .initial = .ok (plan, pool) →
      Emit.entry "_start" pool = .ok (start, p0) →
      Written plan .external p0.labels.size p0 0 (front ++ [.call Service.exit.label]) p1 0 →
      RoutineRuns plan p1 routines p2 →
      routines.map (fun u => some u.entry) = layout.agents.flatMap plan.entries →
      routines.map (·.slots) = layout.agents.flatMap plan.slotCounts →
      ServiceRuns plan settings.queueCapacity.toNat settings.heapSize.toNat p2 services q →
      services.map (·.service) = Service.inImageOrder →
      object = {
        code := [Instruction.align 16, .label start, .arith .and Register.rsp (.imm (-16))] ++
          (front ++ [.call Service.exit.label]) ++ routines.flatMap (·.code) ++
          services.flatMap (·.code)
        labels := q.labels
        symbols := q.symbols
        rodata := q.rodata
        data := plan.sections.data
        bss := plan.sections.bss
        dataRelocations := plan.sections.relocations
        entry := start } →
      ProgramText program layout settings object

section

variable {program : Program} {layout : Layout} {settings : Settings} {object : ObjectCode}

section

variable (h : generate program layout settings = .ok object)
include h

lemma generate_ok :
    ∃ plan pool start main p1 codes p2 support q, Plan.make program layout settings .initial = .ok
      (plan, pool) ∧ mainRoutine plan pool = .ok ((start, main), p1) ∧
      Emit.MapRun (Emit.agentRoutines plan) p1 plan.layout.agents codes p2 ∧
      Emit.services plan.settings p2 = .ok (support, q) ∧
      (pool.Grows p1 ∧ p1.Grows p2 ∧ p2.Grows q) ∧
      object = {
        code := main ++ codes.flatten ++ support
        labels := q.labels
        symbols := q.symbols
        rodata := q.rodata
        data := plan.sections.data
        bss := plan.sections.bss
        dataRelocations := plan.sections.relocations
        entry := start } := by
  simp only [generate, bind_ok, pure_ok, Prod.exists, StateT.run] at h
  obtain ⟨plan, pool, planned, start, code, q, hprogram, rfl⟩ := h
  simp only [Emit.program, Emit.bind_ok, Emit.pure_ok, Emit.mapM_ok, Prod.exists,
    Prod.mk.injEq] at hprogram
  obtain ⟨_, main, p1, started, codes, p2, coded, support, _, supported, ⟨rfl, rfl⟩, rfl⟩ :=
    hprogram
  have knows := (Plan.make_isMade planned).knows
  have grows := mainRoutine_grows knows started
  obtain ⟨routines, written, -⟩ := allRoutines_runs coded
  obtain ⟨services, served, -⟩ : ∃ units, ServiceRuns plan _ _ p2 units _ ∧ _ ∧ _ :=
    services_ok supported
  exact ⟨plan, pool, _, main, p1, codes, p2, support, _, planned, started, coded, supported,
    ⟨grows, written.grows (grows.knows knows), served.grows⟩, rfl⟩

lemma generate_text : ProgramText program layout settings object := by
  obtain ⟨plan, pool, start, main, p1, codes, p2, support, q, planned, started, coded, supported,
      -, rfl⟩ :=
    generate_ok h
  have made := Plan.make_isMade planned
  obtain ⟨p0, _, front, entry, rfl, rfl, body⟩ := mainRoutine_written started
  obtain ⟨routines, written, flat, entries, slots⟩ := allRoutines_runs coded
  obtain ⟨services, served, order, rfl⟩ := services_ok supported
  have knows := made.knows.names (.entry entry)
  rw [made.layout_eq] at entries slots
  rw [made.settings_eq] at served
  exact .intro planned entry (body knows 0) written entries slots served order (by rw [flat])

end

lemma generate_grows {plan : Plan} {pool : Pool}
    (planned : Plan.make program layout settings .initial = .ok (plan, pool))
    (h : generate program layout settings = .ok object) :
    ∃ q, pool.Grows q ∧ object.symbols = q.symbols ∧ object.rodata = q.rodata := by
  obtain ⟨plan', pool', _, _, _, _, _, _, q, planned', -, -, -, ⟨main, routines, services⟩, rfl⟩ :=
    generate_ok h
  obtain ⟨rfl, rfl⟩ := Prod.mk.inj (Except.ok.inj (planned.symm.trans planned'))
  exact ⟨q, main.trans (routines.trans services), rfl, rfl⟩

end

section

/-- An agent that divides, counts and sends itself messages until it stops the program. -/
def counterProgram : Program where
  schemas := [⟨"Tick", [⟨"n", .i64⟩]⟩]
  templates := [⟨"Counter", [⟨"total", .i64, some (.int 0)⟩], [⟨"Tick", [
      .assign (.state "total") (.binary .add (.state "total") (.binary .div (.int 6) (.field "n"))),
      .write (.builtin .format [.state "total"]), .branch (.binary .lt (.state "total") (.int 10))
        [.emit "Tick" [("n", .call "twice" [.field "n"])]] [.ret (some (.int 3))]]⟩],
    [⟨"twice", [⟨"x", .i64⟩], some .i64, [.ret (some (.binary .add (.var "x") (.var "x")))]⟩]⟩]
  instances := [⟨"a", "Counter"⟩]
  routes := [⟨.external, "Tick", ["a"]⟩, ⟨.agent "a", "Tick", ["a"]⟩]
  seed := ⟨"Tick", [("n", .int 1)]⟩

set_option maxRecDepth 100000 in
lemma counterProgram_lowers : (lower counterProgram {}).isOk = true := by decide +kernel

lemma counterProgram_generates : ∃ layout object, ({} : Settings).validate = .ok () ∧
    Layout.analyze counterProgram {} = .ok layout ∧
    generate counterProgram layout {} = .ok object := by
  have hok := counterProgram_lowers
  cases lowered : lower counterProgram {} with
  | error d => simp [lowered, Except.isOk, Except.toBool] at hok
  | ok object =>
    simp only [lower, describeLayout, bind_ok] at lowered
    obtain ⟨layout, ⟨_, valid, laid⟩, made⟩ := lowered
    exact ⟨layout, object, valid, laid, made⟩

end

end AgentCompiler
