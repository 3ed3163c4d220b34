import AgentCompiler.Proofs.LaunchedPrograms

/-!
Generated programs run the machine of seed, rest, sense and act.

Every run of a launched program has come as far as a run of the machine, handler call by handler
call, and the code then does what the machine does next. So the two rules of a cycle hold of the
handlers that are called.
-/

namespace AgentCompiler

open Register (rax rsi rdi)

namespace Cycle

variable {y : Cycle} {P : Process} {plan : Plan} {top : Word} {t : Tide} {c : Config}

/-- At a checkpoint the code does what the machine does next: it goes on to the next checkpoint, or
calls the handler that is due, or ends the program with the status of the machine. -/
structure Advances (y : Cycle) (P : Process) (plan : Plan) (top : Word) (t : Tide) (c : Config) :
    Prop where
  goes : ∀ u, t.next? plan.layout plan.settings.maxCycles.toNat = some u → y.Reaches P plan top c u
  calls : ∀ due more, t.phase = .act (due :: more) → ∃ l, P.code[c.position]? = some (.call l) ∧
    plan.handler? due.agent.name due.schema.name = some l ∧
    c.machine.regs rdi = P.symbolAt Pool.stateArena + BitVec.ofNat 64 due.agent.base ∧
    c.machine.regs rsi = due.letter.message.payload
  exits : ∀ status, t.phase = .ended status → ∃ d e, P.step c = some d ∧ P.Flows d e ∧
    P.code[e.position]? = some .syscall ∧ e.machine.regs rax = 60 ∧ e.machine.regs rdi = status

section

variable (stands : y.Stands P plan top) (shows : y.Shows P plan top t c)
include stands shows

lemma Shows.calls {due : Due} {more : List Due} (acts : t.phase = .act (due :: more)) :
    ∃ l, P.code[c.position]? = some (.call l) ∧ plan.handler? due.agent.name due.schema.name =
      some l ∧ c.machine.regs rdi = P.symbolAt Pool.stateArena + BitVec.ofNat 64 due.agent.base ∧
      c.machine.regs rsi = due.letter.message.payload := by
  obtain ⟨-, isAt⟩ := shows
  rw [acts] at isAt
  generalize isPhase : Phase.act (due :: more) = phase at isAt
  cases isAt with
  | act mem arms call =>
    obtain ⟨rfl, rfl⟩ := List.cons.inj (Phase.act.inj isPhase)
    exact ⟨_, call.holds.get (i := 0) rfl, (stands.written _ mem).1.handlers _ arms, call.state,
      call.payload⟩
  | seed => cases isPhase
  | rest => cases isPhase
  | turn => cases isPhase
  | ended => cases isPhase

lemma Shows.exits {status : Word} (ended : t.phase = .ended status) : ∃ d e, P.step c = some d ∧
      P.Flows d e ∧ P.code[e.position]? = some .syscall ∧ e.machine.regs rax = 60 ∧
      e.machine.regs rdi = status := by
  obtain ⟨bears, isAt⟩ := shows
  rw [ended] at isAt
  cases isAt with
  | ended at_exit passed => exact passed ▸ stands.exits at_exit bears.stack

lemma Shows.advances : y.Advances P plan top t c where
  goes _ next := stands.next shows next
  calls _ _ acts := shows.calls stands acts
  exits _ ended := shows.exits stands ended

end

end Cycle

section

variable {program : Program} {layout : Layout} {settings : Settings} {object : ObjectCode}
  {plan : Plan} {pool : Pool} {P : Process} {start : SectionKind → Word} {c : Config}

lemma Layout.seed_isDeliverable {schema : SchemaLayout} (accepted : IsAccepted program layout)
    (mem : schema ∈ layout.schemas) (payload : Word) :
    (Tide.start ⟨schema.number, payload⟩ (layout.destinations .external schema.name)).IsDeliverable
      layout where
  waiting := by simp [Tide.start]
  seed := by
    intro message goals same a _ goal
    obtain ⟨rfl, rfl⟩ := Phase.seed.inj same
    have handled := mem_agentUnits.2 ⟨mem, (accepted.handles goal).1⟩
    rw [schemaFor?, List.find?_isSome]
    exact ⟨schema, handled, by simp⟩

/-- For every accepted program and all handlers that keep to the rules: from the entry point on,
each run of the code is a run of the machine, which starts with one payload for the external
destinations of the seed; the first handler finds what the program declares in it. The observed
calls are the handlers that the machine runs. An agent handles at most one message in a cycle, and
none that was sent in the same cycle; if handlers send only what the receivers handle, the handlers
that become due are those of the agents with a message, in declaration order. If the heap is too
small for the seed, no handler is called. -/
theorem main_runs_tidal_cycle (analyzed : Layout.analyze program settings = .ok layout)
    (valid : settings.validate = .ok ())
    (made : Plan.make program layout settings .initial = .ok (plan, pool))
    (generated : generate program layout settings = .ok object)
    (few : object.symbols.size < 0x100000000) (launched : P.Launches object start c)
    (polite : ∀ calls d l u, P.Traces plan.IsHandler c calls d → P.code[d.position]? = some
      (.call l) → plan.IsHandler l → P.Answers d.position l d.machine u →
      P.IsPolite settings.queueCapacity.toNat plan.queuedAgents d.machine u) :
    ∃ y schema, Cycle.Stands y P plan c.machine.stackTop ∧
      layout.schema? program.seed.schema = some schema ∧
      (alignUp schema.payload.size 16 ≤ settings.heapSize.toNat →
        ∀ calls d, P.Traces plan.IsHandler c calls d → ∃ origin hs t c',
          Cycle.Follows y P plan c.machine.stackTop
            (Tide.start ⟨schema.number, P.symbolAt Pool.heap⟩
            (layout.destinations .external schema.name)) origin calls d hs t c' ∧
          Cycle.Advances y P plan c.machine.stackTop t c' ∧
          (∀ r ∈ calls.head?, P.HoldsSeed object.symbols object.rodata program.seed schema.payload
            (P.symbolAt Pool.heap) r.before.memory) ∧
          hs.Pairwise (fun h h' => h.cycle = h'.cycle → h.due.agent.name ≠ h'.due.agent.name) ∧
          (∀ h ∈ hs, h.due.letter.cycle < h.cycle) ∧
          ((∀ h ∈ hs, Tide.Sends layout h.sent) →
            (t.due layout).map (·.agent) = layout.agents.filter fun a =>
            !(t.queues a.name).isEmpty)) ∧
      (schema.payload.size < UInt64.size → settings.heapSize.toNat < alignUp
        schema.payload.size 16 → ∀ calls d, P.Traces plan.IsHandler c calls d → calls = []) := by
  have built : object.IsBuilt program layout settings plan pool :=
    ⟨analyzed, valid, made, generated, few⟩
  have isMade := built.isMade
  obtain ⟨y, schema, parts, pairs, last, main, symbols, rodata, within, names, placed⟩ :=
    launched.main built
  have behind := (Process.holds_append.1
    (Process.holds_append.1 (Process.holds_append.1 placed).2).2).2
  have stands := launched.stands built main behind
  have seed : layout.schema? program.seed.schema = some schema :=
    isMade.layout_eq ▸ isMade.program_eq ▸ main.seed
  refine ⟨y, schema, stands, seed, fun fits calls d run => ?_, fun narrow full calls d run =>
    launched.refuses built main placed narrow full run⟩
  obtain ⟨c0, begins, holds, first⟩ :=
    launched.begins built main placed within names fits
  obtain ⟨hs, t, c', follows⟩ := stands.traces begins first (isMade.settings_eq.symm ▸ polite) run
  have timely := follows.run.isTimely stands.names (.start _ _)
  rw [isMade.layout_eq] at follows
  have deliverable : (∀ h ∈ hs, Tide.Sends layout h.sent) → t.IsDeliverable layout := by
    have machine := follows.run
    rw [isMade.layout_eq] at machine
    exact machine.isDeliverable (Layout.seed_isDeliverable built.accepted
      (List.mem_of_find?_eq_some seed) _)
  rw [symbols, rodata]
  exact ⟨_, hs, t, c', follows, follows.shows.advances stands,
    fun r first => launched.spares_seed built main fits (follows.leads r first) holds,
    timely.once, timely.earlier, fun sends => (deliverable sends).map_agent_due⟩

end

section

set_option maxRecDepth 100000 in
lemma counterProgram_isModerate : ((lower counterProgram {}).toOption.all fun object =>
    decide (object.symbols.size < 0x100000000 ∧ object.code.length < UInt64.size ∧
      object.data.size ≤ 0x40000000 ∧ object.bss.size ≤ 0x40000000)) = true := by decide +kernel

lemma counterProgram_seed : ((Layout.analyze counterProgram {}).toOption.all fun layout =>
    (layout.schema? "Tick").all fun schema =>
        decide (alignUp schema.payload.size 16 ≤ 1048576)) = true := by
  decide +kernel

theorem main_runs_tidal_cycle_counter : ∃ layout object plan pool schema y,
    Layout.analyze counterProgram {} = .ok layout ∧ generate counterProgram layout {} = .ok object ∧
    Plan.make counterProgram layout {} .initial = .ok (plan, pool) ∧
    object.process.Launches object sectionStart object.entering ∧ layout.schema? "Tick" =
    some schema ∧ ∀ calls d, object.process.Traces plan.IsHandler object.entering calls d →
      ∃ origin hs t c', Cycle.Follows y object.process plan object.entering.machine.stackTop
        (Tide.start ⟨schema.number, object.process.symbolAt Pool.heap⟩
          (layout.destinations .external schema.name)) origin calls d hs t c' ∧
      Cycle.Advances y object.process plan object.entering.machine.stackTop t c' ∧
      ∀ h ∈ hs, h.due.letter.cycle < h.cycle := by
  obtain ⟨layout, object, valid, analyzed, generated⟩ := counterProgram_generates
  have moderate := counterProgram_isModerate
  simp only [lower, describeLayout, valid, analyzed, generated, bind, Except.bind, Except.toOption,
    Option.all_some, decide_eq_true_eq] at moderate
  obtain ⟨few, short, data, bss⟩ := moderate
  obtain ⟨plan, pool, -, -, -, -, -, -, -, made, -⟩ := generate_ok generated
  have launched := ObjectCode.launches analyzed generated short data bss
    (ObjectCode.IsBuilt.cursor ⟨analyzed, valid, made, generated, few⟩)
  obtain ⟨y, schema, -, seed, runs, -⟩ := main_runs_tidal_cycle analyzed valid made generated
    few launched fun _ _ _ _ _ _ handler answers => ObjectCode.process_isPolite
    (Plan.make_isMade made) handler answers _
  have fits := counterProgram_seed
  have seed' : layout.schema? "Tick" = some schema := seed
  simp only [analyzed, Except.toOption, Option.all_some, seed', decide_eq_true_eq] at fits
  refine ⟨layout, object, plan, pool, schema, y, analyzed, generated, made, launched, seed,
    fun calls d run => ?_⟩
  obtain ⟨origin, hs, t, c', follows, advances, -, -, earlier, -⟩ := runs fits calls d run
  exact ⟨origin, hs, t, c', follows, advances, earlier⟩

end

end AgentCompiler
