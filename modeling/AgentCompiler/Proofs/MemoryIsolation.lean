import AgentCompiler.Proofs.InitialArena
import AgentCompiler.Proofs.IsolatedRoutines
import AgentCompiler.Proofs.ProgramAcceptance

/-!
Every routine of a generated program stays in the territory of its agent. The fields that it touches
are declared for the agent or for the schema that it handles, and the region of another agent in the
state arena is never among its operands.
-/

namespace AgentCompiler

open Layout Record List
open Register (rbp rsp rdi rsi)
open BitVec (ofNat)

variable {agent : AgentLayout} {handler : Handler} {helper : Helper}

section

variable {plan : Plan} {p q : Pool} {code : Code}

lemma Emit.MapRun.on_the_way {α β : Type} {f : α → Emit β} {items : List α} {results : List β}
    (h : MapRun f p items results q) (knows : plan.Knows p)
    (grows : ∀ a {p q : Pool} {b : β}, plan.Knows p → f a p = .ok (b, q) → p.Grows q) :
    p.Grows q ∧ ∀ a ∈ items, ∃ p' b q', p.Grows p' ∧ f a p' = .ok (b, q') ∧ q'.Grows q ∧
        b ∈ results := by
  induction h with
  | nil p => exact ⟨.refl p, by simp⟩
  | @cons p s q a b items results first _ ih =>
    have before := grows a knows first
    obtain ⟨later, rest⟩ := ih (before.knows knows)
    refine ⟨before.trans later, forall_mem_cons.2 ⟨⟨p, b, s, .refl p, first, later, by simp⟩, ?_⟩⟩
    intro a mem
    obtain ⟨p', b', q', begins, run, ends, inside⟩ := rest a mem
    exact ⟨p', b', q', before.trans begins, run, ends, mem_cons_of_mem _ inside⟩

lemma Emit.agentRoutines_grows (knows : plan.Knows p)
    (h : agentRoutines plan agent p = .ok (code, q)) : p.Grows q := by
  obtain ⟨units, runs, -⟩ := agentRoutines_runs h
  exact runs.grows knows

variable {program : Program} {layout : Layout} {settings : Settings} {object : ObjectCode}

lemma generate_agents (h : generate program layout settings = .ok object) :
    ∃ plan pool p q codes last, Plan.make program layout settings .initial = .ok (plan, pool) ∧
      pool.Grows p ∧ Emit.MapRun (Emit.agentRoutines plan) p layout.agents codes q ∧ q.Grows last ∧
      object.symbols = last.symbols ∧ object.rodata = last.rodata ∧ codes.flatten <:+:
      object.code := by
  obtain ⟨plan, pool, start, main, p, codes, q, support, last, planned, -, routines, -,
      ⟨begun, -, ended⟩, rfl⟩ :=
    generate_ok h
  rw [(Plan.make_isMade planned).layout_eq] at routines
  exact ⟨plan, pool, p, q, codes, last, planned, begun, routines, ended, rfl, rfl,
    infix_append _ _ _⟩

end

def ObjectCode.territory (object : ObjectCode) (program : Program) (plan : Plan)
    (agent : AgentLayout) (template : Template) (message : Option Schema) (slots : Nat)
    (body : List Stmt) : Territory where
  state := pack (template.state.map (·.decl))
  message := message.map fun schema => pack schema.fields
  slots := slots
  constants id := ∃ value, HoldsWord object.symbols object.rodata id value
  helpers l := ∃ name, plan.helper? agent.name name = some l
  emits := Stmt.emitsIn body
  sent name := if plan.layout.destinations (.agent agent.name) name = [] then [] else
    ((program.schema? name).map fun schema => pack schema.fields).toList

/-- What it means that a routine of an agent is isolated: it stays in its territory, its variables
lie in the frame that its entry reserves, apart from what the entry saves there, and no run of it
touches the region of another agent. -/
structure RoutineParts.IsIsolated (u : RoutineParts) (layout : Layout) (agent : AgentLayout)
    (T : Territory) : Prop where
  contains : T.Contains u
  operands : ∀ i ∈ u.code, ∀ a ∈ i.accesses, T.Touches a
  frame : ∀ top : Word, (∀ slot < T.slots, cells (top - ofNat 64 (8 * (slot + 1))) 8 ⊆
      cells (top - ofNat 64 u.frame.size) u.frame.size) ∧
    (∀ i < u.frame.saved.length, Disjoint (cells (top - ofNat 64 (u.frame.size + 8 * (i + 1))) 8)
      (cells (top - ofNat 64 u.frame.size) u.frame.size)) ∧
    Disjoint (cells (top - ofNat 64 u.frame.size) u.frame.size) (cells top 8)
  entry : ∀ (P : Process) (s t : Machine), P.execute (prologue u.entry u.frame u.params)
      s = some t → t.regs rbp = s.regs rsp - ofNat 64 8 ∧
      t.regs .stateBase = s.regs rdi ∧ t.regs .message = s.regs rsi ∧
      t.memory.load (t.regs rbp) .qword = s.regs rbp ∧
      ∀ i r, u.frame.saved[i]? = some r →
        t.memory.load (t.regs rbp - ofNat 64 (u.frame.size + 8 * (i + 1))) .qword = s.regs r
  others : ∀ other ∈ layout.agents, other.name ≠ agent.name →
    ∀ (P : Process) (b : Bearings) (k : Nat) (s : Machine) (c : Config) (i : Instruction),
      P.Respects → P.Holds k u.code →
      T.LiesBeside P b (cells (P.symbolAt Pool.stateArena) layout.stateSize) →
      b.state = P.symbolAt Pool.stateArena + ofNat 64 agent.base →
      s.regs rdi = b.state → s.regs rsi = b.message → s.regs rsp = b.frame + 8 →
      Relation.ReflTransGen (P.GoesWithin k u.code.length) ⟨k, s⟩ c → P.code[c.position]? = some i →
      (∀ a ∈ i.accesses, Disjoint (cells (P.address c.machine a.address) a.width.bytes)
        (cells (P.symbolAt Pool.stateArena + ofNat 64 other.base) other.size)) ∧
      ∀ d, P.Goes c d → (∀ l, i ≠ .call l) ∧ i ≠ .syscall →
        (∀ r, i = .push r → Disjoint (cells (c.machine.regs rsp - 8) 8)
          (cells (P.symbolAt Pool.stateArena) layout.stateSize)) →
        Set.EqOn d.machine.memory c.machine.memory
          (cells (P.symbolAt Pool.stateArena + ofNat 64 other.base) other.size)

section

variable {program : Program} {layout : Layout} {settings : Settings}

lemma Layout.disjoint_regions (analyzed : analyze program settings = .ok layout)
    {other : AgentLayout} (mem : agent ∈ layout.agents) (member' : other ∈ layout.agents)
    (different : other.name ≠ agent.name) (arena : Word) :
    Disjoint (cells (arena + ofNat 64 agent.base) agent.size)
      (cells (arena + ofNat 64 other.base) other.size) := by
  have inside := analyze_stateSize_le analyzed
  have accepted := analyze_isAccepted analyzed
  have limit : settings.maxStateBytes.toNat < UInt64.size := settings.maxStateBytes.toNat_lt
  have ends := (accepted.agents.placed agent mem).2
  have ends' := (accepted.agents.placed other member').2
  have symmetric : Std.Symm fun a b : AgentLayout =>
      a.base + a.size ≤ b.base ∨ b.base + b.size ≤ a.base := ⟨fun _ _ => Or.symm⟩
  have either := (accepted.agents.apart.imp fun h => Or.inl h : layout.agents.Pairwise fun a b =>
    a.base + a.size ≤ b.base ∨ b.base + b.size ≤ a.base)
  rcases either.forall mem member' fun same => different (same ▸ rfl) with before | behind
  · exact disjoint_cells before (by omega)
  · exact (disjoint_cells behind (by omega)).symm

lemma Territory.Contains.isIsolated {T : Territory} {u : RoutineParts} (contains : T.Contains u)
    (small : T.IsSmall) (analyzed : analyze program settings = .ok layout)
    (mem : agent ∈ layout.agents) (state : T.state.size ≤ agent.size) :
    u.IsIsolated layout agent T := by
  have few := contains.slots ▸ small.slots
  refine ⟨contains, contains.touches, fun top => ?_, fun P s t runs => ?_, ?_⟩
  · have parts := u.frame.parts_apart few top
    rwa [contains.slots] at parts
  · exact Frame.of_prologue few (contains.slots ▸ contains.params) runs
  · intro other member' different P b k s c i respects placed beside base held sent stack run at_c
    have limit := (analyze_stateSize_le analyzed).trans_lt settings.maxStateBytes.toNat_lt
    have ends := ((analyze_isAccepted analyzed).agents.placed other member').2
    have region : cells (P.symbolAt Pool.stateArena + ofNat 64 other.base) other.size ⊆
        cells (P.symbolAt Pool.stateArena) layout.stateSize := cells_subset ends (le_of_lt limit)
    have outside : T.LiesOutside P b
        (cells (P.symbolAt Pool.stateArena + ofNat 64 other.base) other.size) := by
      refine { beside.mono region with state := ?_ }
      rw [base]
      exact (disjoint_regions analyzed mem member' different _).mono_left (cells_mono state)
    refine ⟨contains.spares small respects outside placed held sent stack run at_c, ?_⟩
    intro d goes own pushes
    exact contains.keeps small respects outside placed held sent stack run goes at_c own
      fun r push => (pushes r push).mono_right region

end

section

variable {program : Program} {layout : Layout} {settings : Settings} {object : ObjectCode}
  {plan : Plan} {agent : AgentLayout} {template : Template} {message : Option Schema} {slots : Nat}
  {r : Routine} {body : List Stmt}

lemma ObjectCode.territory_isSmall (state : (pack (template.state.map (·.decl))).size < 0x80000000)
    (schemas : ∀ s ∈ program.schemas, (pack s.fields).size < 0x80000000)
    (handled : ∀ s, message = some s → s ∈ program.schemas) (few : slots < 0x8000000) :
    (object.territory program plan agent template message slots body).IsSmall where
  state := ⟨state, fun _ => pack_bounds⟩
  message record found := by
    obtain ⟨s, handles, rfl⟩ := Option.map_eq_some_iff.1 found
    exact ⟨schemas s (handled s handles), fun _ => pack_bounds⟩
  slots := few

lemma ObjectCode.territory_covers {pool : Pool} (made : plan.IsMade program layout settings pool)
    (declared : IsDeclared program layout)
    (placed : IsPlaced program.templates agent template) (own : r.agent = agent)
    (handles : r.message.map (·.payload) = message.map fun s => pack s.fields)
    (schemas : ∀ s ∈ program.schemas, (pack s.fields).size < 0x80000000)
    (small : (object.territory program plan agent template message slots body).IsSmall) :
    (object.territory program plan agent template message slots body).Covers plan r where
  state := by rw [own, placed.state]; rfl
  message := handles.symm
  helpers name l found := ⟨name, own ▸ found⟩
  payloads name schema found := by
    rw [made.layout_eq] at found
    obtain ⟨s, known, payload⟩ := declared.schema? found
    exact payload ▸ ⟨schemas s (mem_of_find?_eq_some known), fun _ => pack_bounds⟩
  sent name schema found := by
    have named : schema.name = name := by simpa using find?_some (l := plan.layout.schemas) found
    rw [made.layout_eq] at found
    obtain ⟨s, known, payload⟩ := declared.schema? found
    simp only [ObjectCode.territory, own, named, known, payload, Option.map_some,
      Option.toList_some]
  small := small

structure Site (program : Program) (layout : Layout) (settings : Settings) (object : ObjectCode)
    (plan : Plan) (pool last : Pool) (agent : AgentLayout) (template : Template) : Prop where
  analyzed : analyze program settings = .ok layout
  made : plan.IsMade program layout settings pool
  mem : agent ∈ layout.agents
  placed : IsPlaced program.templates agent template
  stored : last.Stores
  symbols : object.symbols = last.symbols
  rodata : object.rodata = last.rodata
  small : (pack (template.state.map (·.decl))).size < 0x80000000
  schemas : ∀ s ∈ program.schemas, (pack s.fields).size < 0x80000000

section

variable {pool last p q : Pool} {code : Code}

section

variable (site : Site program layout settings object plan pool last agent template)
include site

lemma Site.block_isIsolated {f f' : Frame} {entry : Label} {params : Nat} (own : r.agent = agent)
    (handles : r.message.map (·.payload) = message.map fun s => pack s.fields)
    (handled : ∀ s, message = some s → s ∈ program.schemas) (few : slots < 0x8000000)
    (knows : plan.Knows p) (level : f.depth = 0) (ownSlots : f.HasOwnSlots)
    (given : params ≤ f.slots) (early : entry.id < r.epilogue.id)
    (named : r.epilogue.id < p.labels.size) (h : Lower.block plan r body f p = .ok ((code, f'), q))
    (final : f'.slots = slots) (ends : q.Grows last) :
    RoutineParts.IsIsolated ⟨entry, r.epilogue, params, f', code⟩ layout agent
      (object.territory program plan agent template message slots body) := by
  have small : (object.territory program plan agent template message slots body).IsSmall :=
    ObjectCode.territory_isSmall site.small site.schemas handled few
  have covers := ObjectCode.territory_covers site.made (analyze_isDeclared site.analyzed)
    site.placed own handles site.schemas small
  have more := (Lower.block_advances h).1.slots
  have state : (pack (template.state.map (·.decl))).size ≤ agent.size := by
    rw [site.placed.size, site.placed.state]
    exact le_max_left _ _
  refine (Lower.block_contains covers ⟨knows, ownSlots, ?_, fun pair inside => ⟨pair.1, ?_⟩⟩ level
    given final early named rfl h).isIsolated small site.analyzed site.mem state
  · exact le_self_add.trans (more.symm.trans final).le
  · rw [site.symbols, site.rodata]
    exact site.stored.word (ends.words_subset inside)

lemma Site.handler_isIsolated (few : Stmt.declarationsIn handler.body < 0x8000000)
    (begins : pool.Grows p) (run : Emit.handler plan agent template handler p = .ok (code, q))
    (ends : q.Grows last) :
    ∃ schema, ∃ u : RoutineParts, program.schema? handler.schema = some schema ∧
      plan.handler? agent.name handler.schema = some u.entry ∧ u.code = code ∧
      u.IsIsolated layout agent (object.territory program plan agent template (some schema)
        (Stmt.declarationsIn handler.body) handler.body) := by
  obtain ⟨schema, entry, leave, p1, body, frame, found, starts, leaves, inner, rfl⟩ :=
    Emit.handler_ok run
  rw [site.made.layout_eq] at found
  obtain ⟨s, known, payload⟩ := (analyze_isDeclared site.analyzed).schema? found
  obtain ⟨id, size, -⟩ := Emit.fresh_facts leaves
  have bound : entry.id < pool.labels.size :=
    (site.made.label_bounds (.inl (mem_of_lookup_eq_some starts))).2
  have le := begins.labels_le
  have slots := (Lower.block_advances inner).1.slots
  refine ⟨s, ⟨entry, leave, 0, frame, body⟩, known, starts, rfl, ?_⟩
  refine site.block_isIsolated rfl ?_ ?_ few ((begins.knows site.made.knows).fresh leaves)
    rfl .initial (Nat.zero_le _) ?_ ?_ inner (by simpa using slots) ends
  · rw [Emit.handlerRoutine, Option.map_some, Option.map_some, payload]
  · rintro _ same
    obtain rfl := Option.some.inj same
    exact mem_of_find?_eq_some known
  · change entry.id < leave.id
    omega
  · change leave.id < p1.labels.size
    omega

lemma Site.helper_isIsolated
    (few : helper.params.length + Stmt.declarationsIn helper.body < 0x8000000)
    (begins : pool.Grows p) (run : Emit.helper plan agent template helper p = .ok (code, q))
    (ends : q.Grows last) :
    ∃ u : RoutineParts, plan.helper? agent.name helper.name = some u.entry ∧ u.code = code ∧
      u.IsIsolated layout agent (object.territory program plan agent template none
        (helper.params.length + Stmt.declarationsIn helper.body) helper.body) := by
  obtain ⟨entry, leave, p1, f, body, frame, starts, leaves, ⟨count, level, own⟩, inner, rfl⟩ :=
    Emit.helper_ok run
  obtain ⟨id, size, -⟩ := Emit.fresh_facts leaves
  have bound : entry.id < pool.labels.size :=
    (site.made.label_bounds (.inr (mem_of_lookup_eq_some starts))).2
  have le := begins.labels_le
  have slots := (Lower.block_advances inner).1.slots
  rw [count] at slots
  refine ⟨⟨entry, leave, helper.params.length, frame, body⟩, starts, rfl, ?_⟩
  refine site.block_isIsolated rfl rfl (by simp) few ((begins.knows site.made.knows).fresh leaves)
    level own count.symm.le ?_ ?_ inner slots ends
  · change entry.id < leave.id
    omega
  · change leave.id < p1.labels.size
    omega

end

end

/-- Every routine of every agent is isolated. -/
theorem generate_isIsolated (analyzed : Layout.analyze program settings = .ok layout)
    (generated : generate program layout settings = .ok object)
    (states : ∀ t ∈ program.templates, (Record.pack (t.state.map (·.decl))).size < 0x80000000)
    (schemas : ∀ s ∈ program.schemas, (Record.pack s.fields).size < 0x80000000)
    (slots : ∀ t ∈ program.templates, ∀ n ∈ t.slotCounts, n < 0x8000000) :
    ∃ plan pool, Plan.make program layout settings .initial = .ok (plan, pool) ∧
      ∀ agent ∈ layout.agents, ∃ template, program.template? agent.template = some template ∧
        (∀ handler ∈ template.handlers, ∃ schema, ∃ u : RoutineParts,
          program.schema? handler.schema = some schema ∧
          plan.handler? agent.name handler.schema = some u.entry ∧ u.code <:+: object.code ∧
          u.IsIsolated layout agent (object.territory program plan agent template (some schema)
            (Stmt.declarationsIn handler.body) handler.body)) ∧
        ∀ helper ∈ template.helpers, ∃ u : RoutineParts,
          plan.helper? agent.name helper.name = some u.entry ∧ u.code <:+: object.code ∧
          u.IsIsolated layout agent (object.territory program plan agent template none
            (helper.params.length + Stmt.declarationsIn helper.body) helper.body) := by
  have accepted := analyze_isAccepted analyzed
  obtain ⟨plan, pool, p, q, codes, last, planned, begun, routines, ended, symbols, rodata,
      inside⟩ :=
    generate_agents generated
  have made := Plan.make_isMade planned
  have knows := begun.knows made.knows
  obtain ⟨grows, eachAgent⟩ := routines.on_the_way knows fun _ => Emit.agentRoutines_grows
  have stored := (Plan.make_stores planned).grows (Plan.make_lacks planned accepted)
    ((begun.trans grows).trans ended)
  refine ⟨plan, pool, planned, fun agent mem => ?_⟩
  obtain ⟨template, declared, found, placed, -⟩ := accepted.template mem
  have site : Site program layout settings object plan pool last agent template :=
    ⟨analyzed, made, mem, placed, stored, symbols, rodata, states template declared, schemas⟩
  obtain ⟨p1, code, q1, first, run, rest, among⟩ := eachAgent agent mem
  obtain ⟨template', handlers, p2, helpers, found', handled, helped, rfl⟩ :=
    Emit.agentRoutines_ok run
  rw [made.program_eq] at found'
  obtain rfl : template = template' := Option.some.inj (found.symm.trans found')
  have knows1 := first.knows knows
  obtain ⟨grows1, eachHandler⟩ := handled.on_the_way knows1 fun _ => Emit.handler_grows
  obtain ⟨grows2, eachHelper⟩ := helped.on_the_way (grows1.knows knows1) fun _ => Emit.helper_grows
  have whole : handlers.flatten ++ helpers.flatten <:+: object.code :=
    (List.infix_of_mem_flatten among).trans inside
  refine ⟨template, found, fun handler among => ?_, fun helper among => ?_⟩
  · obtain ⟨p3, code, q3, before, runs, behind, listed⟩ := eachHandler handler among
    have few := slots template declared _ (List.mem_append_left _ (List.mem_map_of_mem among))
    obtain ⟨schema, u, known, entry, rfl, isolated⟩ := site.handler_isIsolated few
      (begun.trans (first.trans before)) runs (behind.trans (grows2.trans (rest.trans ended)))
    have part : u.code <:+: handlers.flatten ++ helpers.flatten :=
      (List.infix_of_mem_flatten listed).trans (List.prefix_append _ _).isInfix
    exact ⟨schema, u, known, entry, part.trans whole, isolated⟩
  · obtain ⟨p3, code, q3, before, runs, behind, listed⟩ := eachHelper helper among
    have few := slots template declared _ (List.mem_append_right _ (List.mem_map_of_mem among))
    obtain ⟨u, entry, rfl, isolated⟩ := site.helper_isIsolated few
      (begun.trans (first.trans (grows1.trans before))) runs (behind.trans (rest.trans ended))
    have part : u.code <:+: handlers.flatten ++ helpers.flatten :=
      (List.infix_of_mem_flatten listed).trans (List.suffix_append _ _).isInfix
    exact ⟨u, entry, part.trans whole, isolated⟩

end

theorem generate_isIsolated_counter : ∃ layout object plan,
    Layout.analyze counterProgram {} = .ok layout ∧ generate counterProgram layout {} = .ok object ∧
      ∀ agent ∈ layout.agents, ∃ template, counterProgram.template? agent.template = some template ∧
        ∀ handler ∈ template.handlers, ∃ schema, ∃ u : RoutineParts,
          counterProgram.schema? handler.schema = some schema ∧ u.code <:+: object.code ∧
          u.IsIsolated layout agent (object.territory counterProgram plan agent template
            (some schema) (Stmt.declarationsIn handler.body) handler.body) := by
  obtain ⟨layout, object, -, analyzed, generated⟩ := counterProgram_generates
  obtain ⟨plan, pool, -, isolated⟩ := generate_isIsolated analyzed generated (by decide) (by decide)
    (by decide)
  refine ⟨layout, object, plan, analyzed, generated, fun agent mem => ?_⟩
  obtain ⟨template, found, handlers, -⟩ := isolated agent mem
  refine ⟨template, found, fun handler among => ?_⟩
  obtain ⟨schema, u, known, -, inside, alone⟩ := handlers handler among
  exact ⟨schema, u, known, inside, alone⟩

end AgentCompiler
