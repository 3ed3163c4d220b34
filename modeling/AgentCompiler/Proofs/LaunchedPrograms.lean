import AgentCompiler.Proofs.InitialState
import AgentCompiler.Proofs.StorageRegions
import AgentCompiler.Proofs.TidalRuns

/-!
A process launches a program when it has its code and has its sections in memory, wherever they
stand. Then the cycle of the plan stands in the process (`Launches.stands`), and the code in front
leads to where the seed is sent (`Launches.begins`). Programs of moderate size can be launched
(`ObjectCode.launches`).
-/

namespace AgentCompiler

open Process Emit Pool Instruction List Plan Layout Service Settings
open Register (rax rbx rsp rdi r14)
open BitVec (ofNat)

variable {settings : Settings} {P : Process} {schema : SchemaLayout} {parts : List Code}
  {storages : List Storage} {k : Nat} {code : Code}

/-- The stack of the main routine starts at a multiple of sixteen. -/
def Machine.stackTop (s : Machine) : Word := s.regs rsp &&& 0xFFFFFFFFFFFFFFF0#64

structure Process.Launches (P : Process) (object : ObjectCode) (start : SectionKind → Word)
    (c : Config) :
    Prop where
  code : P.code = object.code
  back : ∀ k l, P.code[k]? = some (.call l) → P.positionOf (P.codeAddress (k + 1)) = some (k + 1)
  symbols : ∀ id kind offset, BoundAt object.symbols id kind offset →
    P.symbolAt id = start kind + ofNat 64 offset
  data : ∀ x ∈ cells (start .data) object.data.size, P.mapped x
  bss : ∀ x ∈ cells (start .bss) object.bss.size, P.mapped x
  apart : Disjoint (cells (start .data) object.data.size) (cells (start .bss) object.bss.size)
  /-- The last addresses are not in use. -/
  below : (start .bss).toNat + object.bss.size + 16 ≤ UInt64.size
  followed : ∀ service ∈ [Service.allocate, .enqueue, .dequeue, .exit],
    P.outside service.label = none
  stops : P.Stops abort.label
  position : P.labelPosition object.entry = some c.position
  zeros : ∀ x ∈ cells (start .bss) object.bss.size, c.machine.memory x = 0
  cursor : P.HasTaken 0 c.machine.memory
  stack : ∀ x ∈ stackCells c.machine.stackTop, P.mapped x
  stackApart : Disjoint (stackCells c.machine.stackTop)
    (cells (start .data) object.data.size ∪ cells (start .bss) object.bss.size)

lemma Settings.validate_queueCapacity (valid : settings.validate = .ok ()) :
    0 < settings.queueCapacity.toNat := by
  simp only [validate, ite_throw_ok, not_or] at valid
  exact pos_of_ne_zero valid.2.1.1

lemma Process.holds_of_infix (inside : code <:+: P.code) : ∃ k, P.Holds k code := by
  obtain ⟨before, behind, whole⟩ := inside
  refine ⟨before.length, ?_⟩
  rw [Process.Holds, ← whole, append_assoc, drop_left]
  exact prefix_append _ _

lemma cells_within {start : Word} {offset count low high : Nat} (lower : low ≤ offset)
    (upper : offset + count ≤ high) :
    cells (start + ofNat 64 offset) count ⊆ cells (start + ofNat 64 low) (high - low) := by
  intro x near
  have moved : x - (start + ofNat 64 low) =
      (x - (start + ofNat 64 offset)) + ofNat 64 (offset - low) := by
    have split : ofNat 64 offset = ofNat 64 low + ofNat 64 (offset - low) := by
      rw [← BitVec.ofNat_add, Nat.add_sub_cancel' lower]
    rw [split]
    bv_omega
  rw [mem_cells] at near ⊢
  rw [moved, BitVec.toNat_add, BitVec.toNat_ofNat]
  have most := Nat.mod_le (offset - low) (2 ^ 64)
  have most' := Nat.mod_le ((x - (start + ofNat 64 offset)).toNat + (offset - low) % 2 ^ 64)
    (2 ^ 64)
  omega

section

variable {program : Program} {layout : Layout} {settings : Settings} {object : ObjectCode}
  {plan : Plan} {pool q p : Pool}

lemma generate_service (generated : generate program layout settings = .ok object)
    (service : Service) :
    ∃ known locals code, code <:+: object.code ∧
      ServiceText settings.queueCapacity.toNat settings.heapSize.toNat known service
      locals code := by
  obtain ⟨made, entry, main, routines, -, -, services, order, whole⟩ := generate_text generated
  have start := (Grows.names (.entry entry)).trans main.grows
  have knows := start.knows (make_isMade made).knows
  have listed : service ∈ inImageOrder := by cases service <;> decide
  rw [← order] at listed
  obtain ⟨u, mem, rfl⟩ := mem_map.1 listed
  refine ⟨_, u.locals, u.code, ?_, services.text ((routines.grows knows).knows knows) u mem⟩
  rw [whole, List.flatMap]
  exact (infix_of_mem_flatten (mem_map_of_mem mem)).trans (suffix_append _ _).isInfix

lemma generate_hasDistinctLabels (analyzed : analyze program settings = .ok layout)
    (generated : generate program layout settings = .ok object) (code : P.code = object.code) :
    P.HasDistinctLabels := by
  refine hasDistinctLabels_of_nodup ?_
  rw [code, ((generate_text generated).bound (analyze_isAccepted analyzed)).nodup_iff]
  exact nodup_labelsFrom _ _

/-- The main routine: the block of the seed with its fields, its deliveries, and the cycle. Texts of
the seed join those that were in the pool before. -/
structure Plan.HasMain (plan : Plan) (y : Cycle) (schema : SchemaLayout) (parts : List Code)
    (storages : List Storage) (before after : Pool) : Prop where
  queued : y.queued = plan.queuedAgents
  bound : cycleBound plan.settings y.halt = .ok y.bound
  written : ∀ d ∈ y.dispatches, d.IsWritten plan ∧ d.fail = y.fail
  seed : plan.layout.schema? plan.program.seed.schema = some schema
  fields : ∃ p q, before.Grows p ∧ q.Grows after ∧
    MapRun (seedField plan.program.seed.fields) p schema.payload.slots parts q
  goals : List.Forall₂ (fun goal st => plan.storage? goal = some st)
    (plan.layout.destinations .external schema.name) storages

def seedCode (schema : SchemaLayout) (parts : List Code) : Code :=
  [move rdi (Int64.ofNat schema.payload.size), .call Service.allocate.label, .move r14 rax] ++
    parts.flatten

lemma Emit.dispatchArms_grows {agent : AgentLayout} {base : Int32} {storage : Storage}
    {fail next : Label} {schemas : List SchemaLayout}
    (run : dispatchArms plan agent base storage fail next schemas p = .ok (code, q)) :
    p.Grows q := by
  induction schemas generalizing p code with
  | nil =>
    obtain ⟨-, rfl⟩ := pure_ok.1 run
    exact .refl p
  | cons schema rest ih =>
    obtain ⟨-, later⟩ | ⟨handler, other, p1, tail, -, named, later, -⟩ := dispatchArms_cons run
    · exact ih later
    · exact .trans (.names (.fresh named)) (ih later)

lemma Emit.acts_grow {fail : Label} {queued : List (AgentLayout × Storage)} {actions : List Code}
    (run : MapRun (fun pair => act plan fail pair.1 pair.2) p queued actions q) : p.Grows q := by
  induction run with
  | nil p => exact .refl p
  | cons first _ ih =>
    obtain ⟨next, p1, arms, named, -, dispatched, -⟩ := act_ok first
    exact (Grows.trans (.names (.fresh named)) (dispatchArms_grows dispatched)).trans ih

lemma Emit.mainRoutine_hasMain {start : Label} {main : Code}
    (emitted : mainRoutine plan pool = .ok ((start, main), q)) :
    ∃ y schema parts storages, plan.HasMain y schema parts storages pool q ∧
      main = [align 16, .label start, .arith .and rsp (.imm (-16)), .zero rbx] ++
        (seedCode schema parts ++ (storages.flatMap (fun st => callSequence [] Service.enqueue.label
          (Lower.deliveryArguments schema .r14 st)) ++ y.code)) := by
  obtain ⟨p0, rest, p1, sense, p2, fail, p3, halt, p4, first, p5, bound, actions, entered, named1,
    named2, named3, named4, seeded, bounded, acted, rfl⟩ := mainRoutine_ok emitted
  obtain ⟨schema, parts, p, deliveries, isSchema, fields, delivered, rfl⟩ := seed_ok seeded
  obtain ⟨rfl, storages, found, sent⟩ := seedDeliveries_ok delivered
  have grows : pool.Grows p4 := .trans (.names (.entry entered)) (.trans (.names (.fresh named1))
    (.trans (.names (.fresh named2)) (.trans (.names (.fresh named3)) (.names (.fresh named4)))))
  obtain ⟨ds, acts, queued, written⟩ := acts_areDispatches acted
  refine ⟨⟨rest, sense, fail, halt, bound, ds⟩, schema, parts, storages,
    ⟨queued, bounded, written, isSchema, ⟨_, _, grows, acts_grow acted, fields⟩, found⟩, ?_⟩
  have queues : Cycle.queued ⟨rest, sense, fail, halt, bound, ds⟩ = plan.queuedAgents := queued
  have asks : callSequence [] Service.allocate.label [.imm (Int64.ofNat schema.payload.size)] =
    [move rdi (Int64.ofNat schema.payload.size), .call Service.allocate.label] := rfl
  simp [cycleCode, sent, acts, seedCode, asks, Cycle.code, Cycle.resting, Cycle.sensing,
    Cycle.ending, queues]

lemma Plan.HasMain.grows {y : Cycle} {r : Pool}
    (main : plan.HasMain y schema parts storages p q) (grows : q.Grows r) :
    plan.HasMain y schema parts storages p r := by
  obtain ⟨p', q', before, after, run⟩ := main.fields
  exact { main with fields := ⟨p', q', before, after.trans grows, run⟩ }

lemma generate_main (made : Plan.make program layout settings .initial = .ok (plan, pool))
    (generated : generate program layout settings = .ok object) :
    ∃ main p q, mainRoutine plan pool = .ok ((object.entry, main), p) ∧ main <+: object.code ∧
      p.Grows q ∧ object.symbols = q.symbols ∧ object.rodata = q.rodata := by
  obtain ⟨plan', pool', start, main, p1, _, _, _, q, made', emitted, -, -, ⟨-, routines, services⟩,
      rfl⟩ :=
    generate_ok generated
  obtain ⟨rfl, rfl⟩ := Prod.mk.inj (Except.ok.inj (made.symm.trans made'))
  refine ⟨main, p1, q, emitted, ?_, routines.trans services, rfl, rfl⟩
  rw [append_assoc]
  exact prefix_append _ _

lemma Plan.exists_pairs {goals : List String}
    (agents : ∀ goal ∈ goals, ∃ agent ∈ plan.layout.agents, agent.name = goal)
    (found : List.Forall₂ (fun goal st => plan.storage? goal = some st) goals storages) :
    ∃ pairs ⊆ plan.queuedAgents, pairs.map (·.1.name) = goals ∧ pairs.map (·.2) = storages := by
  induction found with
  | nil => exact ⟨[], by simp, rfl, rfl⟩
  | @cons goal st goals storages first _ ih =>
    rw [forall_mem_cons] at agents
    obtain ⟨⟨agent, inside, rfl⟩, agents⟩ := agents
    obtain ⟨pairs, within, names, same⟩ := ih agents
    refine ⟨(agent, st) :: pairs, cons_subset.2 ⟨?_, within⟩, by simp [names], by simp [same]⟩
    rw [queuedAgents, mem_filterMap]
    exact ⟨agent, inside, by rw [first, Option.map_some]⟩

structure ObjectCode.IsBuilt (object : ObjectCode) (program : Program) (layout : Layout)
    (settings : Settings)
    (plan : Plan) (pool : Pool) : Prop where
  analyzed : analyze program settings = .ok layout
  valid : settings.validate = .ok ()
  made : make program layout settings .initial = .ok (plan, pool)
  generated : generate program layout settings = .ok object
  few : object.symbols.size < 0x100000000

namespace ObjectCode.IsBuilt

variable (built : object.IsBuilt program layout settings plan pool)
include built

lemma accepted : IsAccepted program layout := analyze_isAccepted built.analyzed

lemma isMade : plan.IsMade program layout settings pool := make_isMade built.made

lemma symbols_lt : pool.symbols.size < 0x100000000 := by
  obtain ⟨q, grows, symbols, -⟩ := generate_grows built.made built.generated
  exact (symbols ▸ grows.keeps.size_le).trans_lt built.few

lemma isLaidOut : plan.IsLaidOut pool := make_isLaidOut built.made built.accepted built.valid
    built.symbols_lt

lemma sections : object.data = plan.sections.data ∧ object.bss = plan.sections.bss ∧
    object.dataRelocations = plan.sections.relocations := by
  obtain ⟨_, _, _, _, _, _, _, _, _, made', -, -, -, -, rfl⟩ := generate_ok built.generated
  obtain ⟨rfl, rfl⟩ := Prod.mk.inj (Except.ok.inj (built.made.symm.trans made'))
  exact ⟨rfl, rfl, rfl⟩

lemma regions : ∃ heap, Plan.BoundAt object.symbols Pool.heap .bss heap ∧
      heap + settings.heapSize.toNat ≤ object.bss.size ∧
      plan.sections.storage.Pairwise
        (fun a b => Plan.LieApart object.symbols settings.queueCapacity.toNat heap a.2 b.2) ∧
      ∀ pair ∈ plan.sections.storage, Plan.Occupies object.symbols settings.queueCapacity.toNat
          pair.2 0 heap := by
  obtain ⟨q, grows, symbols, -⟩ := generate_grows built.made built.generated
  obtain ⟨heap, bound, inside, -, apart, occupied⟩ :=
    Plan.make_regions built.made built.accepted built.valid built.symbols_lt
  rw [symbols, built.sections.2.1]
  exact ⟨heap, bound.keeps grows.keeps, inside, apart.imp fun order => order.keeps grows.keeps,
    fun pair mem => (occupied pair mem).keeps grows.keeps⟩

lemma cursor : ∃ offset, BoundAt object.symbols heapCursor .data offset ∧
    offset + 8 ≤ object.data.size := by
  obtain ⟨holds, kind, -, -⟩ := generate_holdsState built.analyzed built.generated
  obtain ⟨offset, bound, pointer⟩ := holds.cursor
  obtain ⟨data, -, relocations⟩ := built.sections
  obtain ⟨-, -, -, inside⟩ := built.isLaidOut.pointers _ (relocations ▸ pointer)
  refine ⟨offset, bound, ?_⟩
  rw [DataSection.size, kind, data]
  exact inside

end ObjectCode.IsBuilt

end

namespace Process.Launches

variable {program : Program} {layout : Layout} {settings : Settings} {object : ObjectCode}
  {plan : Plan} {pool : Pool} {P : Process} {start : SectionKind → Word} {c : Config}
  {cap low middle high : Nat} {a b : Storage}

section

section

variable (launched : P.Launches object start c)
include launched

lemma storage_subset (occupies : Occupies object.symbols cap a low high) :
    P.storageCells cap a ⊆ cells (start .bss + ofNat 64 low) (high - low) := by
  obtain ⟨queue, slot, queueAt, slotAt, lower, order, upper⟩ := occupies
  rw [storageCells, queueCells, slotCells, launched.symbols _ _ _ queueAt,
    launched.symbols _ _ _ slotAt]
  exact Set.union_subset (cells_within lower (by omega)) (cells_within (by omega) upper)

lemma storage_subset_bss (occupies : Occupies object.symbols cap a 0 high)
    (inside : high ≤ object.bss.size) : P.storageCells cap a ⊆ cells (start .bss)
    object.bss.size := by
  have within := launched.storage_subset occupies
  rw [BitVec.add_zero] at within
  exact within.trans (cells_mono inside)

lemma storage_behind (first : Occupies object.symbols cap a 0 middle)
    (second : Occupies object.symbols cap b middle high) (inside : high ≤ object.bss.size) :
    Disjoint (P.storageCells cap a) (P.storageCells cap b) := by
  have below := launched.below
  have order : middle ≤ high := by
    obtain ⟨queue, slot, -, -, lower, order, upper⟩ := second
    omega
  exact (disjoint_cells (by omega) (by omega)).mono (launched.storage_subset first)
    (launched.storage_subset second)

lemma storage_disjoint (apart : LieApart object.symbols cap high a b)
    (inside : high ≤ object.bss.size) :
    Disjoint (P.storageCells cap a) (P.storageCells cap b) := by
  obtain ⟨middle, ⟨first, second⟩ | ⟨first, second⟩⟩ := apart
  · exact launched.storage_behind first second inside
  · exact (launched.storage_behind first second inside).symm

lemma slot_disjoint (occupies : Occupies object.symbols cap a low high)
    (inside : high ≤ object.bss.size) : Disjoint (P.queueCells cap a) (P.slotCells a) := by
  have below := launched.below
  obtain ⟨queue, slot, queueAt, slotAt, lower, order, upper⟩ := occupies
  rw [queueCells, slotCells, launched.symbols _ _ _ queueAt, launched.symbols _ _ _ slotAt]
  exact disjoint_cells order (by omega)

end

end

/-- The code in front of the seed aligns the stack and sets the counter to zero. -/
lemma starts (observed : Label → Prop)
    (placed : P.Holds c.position [label object.entry, .arith .and rsp (.imm (-16)), .zero rbx]) :
    ∃ s, P.Quietly observed c ⟨c.position + 3, s⟩ ∧ s.memory = c.machine.memory ∧
      s.regs rsp = c.machine.stackTop ∧ s.regs rbx = 0 := by
  obtain ⟨s, runs, kept⟩ : ∃ s,
      P.execute [.label object.entry, .arith .and rsp (.imm (-16)), .zero rbx] c.machine = some s ∧
      s.memory = c.machine.memory ∧ s.regs rsp = c.machine.stackTop ∧ s.regs rbx = 0 := by
    simp [Machine.stackTop]
  exact ⟨s, P.quietly_execute placed runs, kept⟩

section

variable (launched : P.Launches object start c)
  (built : object.IsBuilt program layout settings plan pool)
include launched built

lemma distinct : P.HasDistinctLabels := generate_hasDistinctLabels built.analyzed built.generated
    launched.code

lemma service (service : Service) : ∃ known locals code k, P.Holds k code ∧
    ServiceText settings.queueCapacity.toNat settings.heapSize.toNat known service locals code := by
  obtain ⟨known, locals, code, inside, text⟩ := generate_service built.generated service
  rw [← launched.code] at inside
  obtain ⟨k, placed⟩ := holds_of_infix inside
  exact ⟨known, locals, code, k, placed, text⟩

lemma queueServices : ∃ overflow, HasQueueServices P settings.queueCapacity.toNat overflow := by
  obtain ⟨_, _, _, k, enqueue, text⟩ := launched.service built .enqueue
  obtain ⟨_, _, _, j, dequeue, text'⟩ := launched.service built .dequeue
  cases text
  cases text'
  exact ⟨_, launched.distinct built, validate_queueCapacity built.valid,
    (validate_ok built.valid).2.2.1, ⟨k, _, _, enqueue⟩, ⟨j, _, _, dequeue⟩, launched.stops⟩

lemma stores : P.Stores settings.queueCapacity.toNat c.machine.stackTop plan.queuedAgents := by
  obtain ⟨heap, -, inside, apart, occupied⟩ := built.regions
  have limit : heap ≤ object.bss.size := by omega
  have listed : ∀ pair ∈ plan.queuedAgents, (pair.1.name, pair.2) ∈ plan.sections.storage :=
    fun pair mem =>
    mem_of_lookup_eq_some (mem_queuedAgents mem).2
  have within : ∀ pair ∈ plan.queuedAgents,
      P.storageCells settings.queueCapacity.toNat pair.2 ⊆ cells (start .bss) object.bss.size :=
    fun pair mem => launched.storage_subset_bss (occupied _ (listed pair mem)) limit
  have symmetric : Std.Symm fun a b : String × Storage =>
      Plan.LieApart object.symbols settings.queueCapacity.toNat heap a.2 b.2 :=
        ⟨fun _ _ => Plan.LieApart.symm⟩
  exact {
    services := launched.queueServices built
    enqueue := launched.followed .enqueue (by decide)
    dequeue := launched.followed .dequeue (by decide)
    back := launched.back
    mapped := fun pair mem x near => launched.bss x (within pair mem near)
    stack := launched.stack
    stackApart := fun pair mem =>
      launched.stackApart.mono_right ((within pair mem).trans Set.subset_union_right)
    slotApart := fun pair mem => launched.slot_disjoint (occupied _ (listed pair mem)) limit
    apart := fun pair mem other member' different => by
      refine launched.storage_disjoint ?_ limit
      exact apart.forall (listed pair mem) (listed other member') fun same =>
        different (Prod.mk.inj same).1
    unique := fun pair mem other member' same => by
      obtain ⟨known, storage⟩ := mem_queuedAgents mem
      obtain ⟨known', storage'⟩ := mem_queuedAgents member'
      have agents := built.isMade.layout_eq ▸ built.accepted.agents.nodup
      have equal := inj_on_of_nodup_map agents known known' same
      rw [same, storage'] at storage
      exact Prod.ext equal (Option.some.inj storage).symm }

lemma cursor_subset : cells (P.symbolAt Pool.heapCursor) 8 ⊆ cells (start .data)
    object.data.size := by
  obtain ⟨offset, bound, inside⟩ := built.cursor
  have within : cells (start .data + BitVec.ofNat 64 offset) 8 ⊆ _ :=
    cells_within (Nat.zero_le offset) inside
  rwa [BitVec.add_zero, ← launched.symbols _ _ _ bound] at within

lemma heap_subset : cells (P.symbolAt heap) settings.heapSize.toNat ⊆ cells (start .bss)
    object.bss.size := by
  obtain ⟨heap, bound, inside, -⟩ := built.regions
  have within : cells (start .bss + BitVec.ofNat 64 heap) _ ⊆ _ :=
    cells_within (Nat.zero_le heap) inside
  rwa [BitVec.add_zero, ← launched.symbols _ _ _ bound] at within

lemma heapCells_subset : P.heapCells settings.heapSize.toNat ⊆
    cells (start .data) object.data.size ∪ cells (start .bss) object.bss.size :=
  Set.union_subset_union (launched.cursor_subset built) (launched.heap_subset built)

lemma hasHeap : P.HasHeap settings.heapSize.toNat := by
  have cursor := launched.cursor_subset built
  have heap := launched.heap_subset built
  obtain ⟨_, _, _, k, allocate, text⟩ := launched.service built .allocate
  obtain ⟨_, _, _, j, fill, text'⟩ := launched.service built .fillBytes
  cases text
  cases text'
  obtain ⟨offset, bound, inside, -⟩ := built.regions
  have below := launched.below
  exact {
    distinct := launched.distinct built
    allocate := ⟨k, _, _, allocate⟩
    fillBytes := ⟨j, fill⟩
    small := (Settings.validate_ok built.valid).2.1
    below := by
      rw [launched.symbols _ _ _ bound, toNat_add_ofNat (by omega)]
      omega
    mapped := fun x near => launched.bss x (heap near)
    cursor := fun x near => launched.data x (cursor near)
    apart := launched.apart.mono cursor heap }

lemma heap_apart : ∀ pair ∈ plan.queuedAgents, Disjoint (P.heapCells settings.heapSize.toNat)
    (P.storageCells settings.queueCapacity.toNat pair.2) := by
  intro pair mem
  obtain ⟨heap, bound, inside, -, occupied⟩ := built.regions
  have occupies := occupied _ (mem_of_lookup_eq_some (mem_queuedAgents mem).2)
  have below := launched.below
  rw [heapCells, Set.disjoint_union_left]
  constructor
  · exact launched.apart.mono (launched.cursor_subset built)
      (launched.storage_subset_bss occupies (by omega))
  · rw [launched.symbols _ _ _ bound]
    exact ((disjoint_cells (by omega) (by omega)).mono_left (launched.storage_subset occupies)).symm

lemma main : ∃ y schema parts pairs last, plan.HasMain y schema parts (pairs.map (·.2)) pool last ∧
    object.symbols = last.symbols ∧ object.rodata = last.rodata ∧
    pairs ⊆ plan.queuedAgents ∧ pairs.map (·.1.name) = plan.layout.destinations .external
    schema.name ∧ P.Holds c.position ([label object.entry, .arith .and rsp (.imm (-16)),
      .zero rbx] ++ (seedCode schema parts ++ (pairs.flatMap (Cycle.deliveryCode schema) ++
      y.code))) := by
  have layout_eq := built.isMade.layout_eq
  obtain ⟨main, p, last, emitted, inside, grows, symbols, rodata⟩ :=
    generate_main built.made built.generated
  obtain ⟨y, schema, parts, storages, hasMain, rfl⟩ := mainRoutine_hasMain emitted
  have agents : ∀ goal ∈ plan.layout.destinations .external schema.name,
      ∃ agent ∈ plan.layout.agents, agent.name = goal := by
    intro goal mem
    rw [layout_eq] at mem ⊢
    obtain ⟨-, agent, inside, named, -⟩ := built.accepted.handles mem
    exact ⟨agent, inside, named⟩
  obtain ⟨pairs, within, names, rfl⟩ := exists_pairs agents hasMain.goals
  refine ⟨y, schema, parts, pairs, last, hasMain.grows grows, symbols, rodata, within, names, ?_⟩
  have first : P.Holds 0 (align 16 :: ([label object.entry, .arith .and rsp (.imm (-16)),
        .zero rbx] ++ (seedCode schema parts ++ (pairs.flatMap (Cycle.deliveryCode schema) ++
        y.code)))) := by
    rw [flatMap_map, ← launched.code] at inside
    exact inside
  have later := (holds_cons.1 first).2
  have here := later.labelPosition (launched.distinct built)
  rwa [Option.some.inj (launched.position.symm.trans here)]

lemma stands {y : Cycle} {last : Pool} (main : plan.HasMain y schema parts storages pool last)
    (placed : P.Holds k y.code) : y.Stands P plan c.machine.stackTop := by
  obtain ⟨_, _, _, j, exitCode, text⟩ := launched.service built .exit
  cases text
  exact {
    distinct := launched.distinct built
    stores := by
      rw [built.isMade.settings_eq, main.queued]
      exact launched.stores built
    placed := ⟨k, placed⟩
    queued_eq := main.queued
    bound := main.bound
    written := main.written
    exitCode := ⟨j, exitCode⟩
    exit := launched.followed .exit (by decide)
    names := built.isMade.layout_eq ▸ built.accepted.agents.nodup
    handled := fun a mem schema handled => by
      rw [built.isMade.layout_eq] at mem handled
      exact built.isMade.handler?_isSome built.accepted mem handled
    hidden := fun service ⟨agent, schema, found⟩ => by
      have behind := (built.isMade.label_bounds (.inl (mem_of_lookup_eq_some found))).1
      have first := service.label_id_lt
      exact absurd behind (not_le.2 first) }

lemma empty : P.HoldsMail settings.queueCapacity.toNat plan.queuedAgents c.machine.memory
    (fun _ => []) (fun _ => none) := by
  obtain ⟨heap, -, inside, -, occupied⟩ := built.regions
  have zeros : ∀ pair ∈ plan.queuedAgents, ∀ x ∈ P.storageCells settings.queueCapacity.toNat pair.2,
      c.machine.memory x = 0 := by
    intro pair mem x near
    have occupies := occupied _ (mem_of_lookup_eq_some (mem_queuedAgents mem).2)
    exact launched.zeros x (launched.storage_subset_bss occupies (by omega) near)
  constructor
  · intro pair mem
    exact ⟨0, .empty (validate_queueCapacity built.valid) (validate_ok built.valid).2.2.1
      fun x near => zeros pair mem x (.inl near)⟩
  · intro pair mem
    exact Memory.load_of_zeros fun x near =>
      zeros pair mem x (.inr (cells_subset (by decide) (by decide) near))

section

variable {y : Cycle} {schema : SchemaLayout} {parts : List Code}
  {pairs : List (AgentLayout × Storage)} {last : Pool}
  (main : plan.HasMain y schema parts (pairs.map (·.2)) pool last)
  (placed : P.Holds c.position ([label object.entry, .arith .and rsp (.imm (-16)), .zero rbx] ++
    (seedCode schema parts ++ (pairs.flatMap (Cycle.deliveryCode schema) ++ y.code))))

include main placed in
lemma begins (within : pairs ⊆ plan.queuedAgents)
    (names : pairs.map (·.1.name) = plan.layout.destinations .external schema.name)
    (fits : alignUp schema.payload.size 16 ≤ settings.heapSize.toNat) : ∃ c0,
      P.Quietly plan.IsHandler c c0 ∧ P.HoldsSeed last.symbols last.rodata program.seed
        schema.payload (P.symbolAt heap) c0.machine.memory ∧ y.Shows P plan c.machine.stackTop
        (Tide.start ⟨schema.number, P.symbolAt heap⟩ (plan.layout.destinations .external
        schema.name)) c0 := by
  obtain ⟨front, placed⟩ := holds_append.1 placed
  obtain ⟨seeding, placed⟩ := holds_append.1 placed
  obtain ⟨s, starts, memory, stack, counter⟩ := starts plan.IsHandler front
  have stands := launched.stands built main (holds_append.1 placed).2
  obtain ⟨p, q, before, after, fields⟩ := main.fields
  have suits := seed_suits built.analyzed (built.isMade.layout_eq ▸ built.isMade.program_eq ▸
    main.seed)
  rw [built.isMade.program_eq] at fields
  have laid := built.isLaidOut.lacks
  have texts := (make_stores built.made).grows laid before
  have lacks := laid.grows before
  obtain ⟨t, makes, stack', counter', block, values, queues, slots⟩ := seed_made
    (launched.hasHeap built) (launched.stores built)
    (stands.hidden .allocate) (launched.followed .allocate (by decide))
    (launched.stackApart.mono_right (launched.heapCells_subset built))
    (launched.heap_apart built) seeding fields suits texts lacks stack
    (memory ▸ launched.cursor) (by omega) (memory ▸ launched.empty built)
  have length : (seedCode schema parts).length = 3 + parts.flatten.length := by
    rw [seedCode, length_append]
    rfl
  rw [length, ← Nat.add_assoc] at placed
  have nodup := nodup_destinations built.accepted .external schema.name
  rw [← built.isMade.layout_eq, ← names] at nodup
  rw [← built.isMade.settings_eq] at queues
  rw [← main.queued] at queues slots within
  rw [blockAt, BitVec.add_zero] at block values
  refine ⟨_, starts.trans makes, fun slot mem => ?_, ?_, ?_⟩
  · exact (values slot mem).grown (.grows after)
      ((seedFields_pool fields suits.given texts lacks).rodata lacks.rodata_kind).1
  · exact ⟨queues, fun _ _ => rfl, counter'.trans counter, fun _ => Nat.zero_le _, stack'⟩
  · rw [← names]
    exact .seed rfl block within nodup (fun _ _ => rfl) slots placed

include main in
lemma spares_seed (fits : alignUp schema.payload.size 16 ≤ settings.heapSize.toNat) {m n : Memory}
    {symbols : SymbolTable} {rodata : DataSection} (spares : y.Spares P plan c.machine.stackTop m n)
    (holds : P.HoldsSeed symbols rodata program.seed schema.payload (P.symbolAt heap) m) :
    P.HoldsSeed symbols rodata program.seed schema.payload (P.symbolAt heap) n := by
  have suits := seed_suits built.analyzed (built.isMade.layout_eq ▸ built.isMade.program_eq ▸
    main.seed)
  intro slot mem
  refine (holds slot mem).congr fun x near => spares fun touched => ?_
  have inside : slot.offset + slot.type.size ≤ settings.heapSize.toNat :=
    (suits.inside slot mem).trans ((le_alignUp _ _).trans fits)
  have small : settings.heapSize.toNat ≤ UInt64.size := (validate_ok built.valid).2.1.trans
    (by decide)
  have inHeap : x ∈ P.heapCells settings.heapSize.toNat := .inr (cells_subset inside small near)
  obtain inStack | ⟨pair, listed, inStorage⟩ := touched
  · exact Set.disjoint_left.1 launched.stackApart inStack (launched.heapCells_subset built inHeap)
  · rw [built.isMade.settings_eq] at inStorage
    rw [main.queued] at listed
    exact Set.disjoint_left.1 (launched.heap_apart built pair listed) inHeap inStorage

include main placed in
lemma refuses (narrow : schema.payload.size < UInt64.size)
    (full : settings.heapSize.toNat < alignUp schema.payload.size 16) {calls : List CallRecord}
    {d : Config} (run : P.Traces plan.IsHandler c calls d) : calls = [] := by
  obtain ⟨front, placed⟩ := holds_append.1 placed
  obtain ⟨seeding, placed⟩ := holds_append.1 placed
  obtain ⟨s, starts, memory, stack, -⟩ := starts plan.IsHandler front
  have stands := launched.stands built main (holds_append.1 placed).2
  obtain ⟨t, asks, memory', stack', asked⟩ : ∃ t,
      P.Quietly plan.IsHandler ⟨c.position + 3, s⟩ ⟨c.position + 3 + 1, t⟩ ∧ t.memory = s.memory ∧
      t.regs rsp = s.regs rsp ∧ t.regs rdi = ofNat 64 schema.payload.size :=
    seeding.quietly (i := 0) [.move rdi (Int64.ofNat schema.payload.size)] rfl rfl (by simp)
  have at_call := seeding.get (i := 1) rfl
  have taken := memory' ▸ memory ▸ launched.cursor
  obtain ⟨offset, bound, inside, -⟩ := built.regions
  have below := launched.below
  have room : (P.symbolAt heap).toNat + (0 + settings.heapSize.toNat + 16) ≤ UInt64.size := by
    rw [launched.symbols _ _ _ bound, toNat_add_ofNat (by omega)]
    omega
  have top := stack'.trans stack
  have stores := launched.stores built
  have unanswered := allocate_unanswered (launched.hasHeap built) launched.stops
    ⟨at_call, launched.followed .allocate (by decide), stores.back _ _ at_call, top ▸ stores.stack⟩
    (top ▸ launched.stackApart.mono_right (launched.heapCells_subset built)) asked taken narrow
    (by omega) room
  refine (run.before (starts.trans asks) fun calls d moves => ?_).1
  cases moves with
  | step plain => exact plain _ at_call
  | call at_k _ answers =>
    obtain rfl := called_eq at_call at_k
    exact unanswered _ answers
  | observe at_k seen =>
    obtain rfl := called_eq at_call at_k
    exact stands.hidden .allocate seen

end

end

end Process.Launches

section

/-- Where the sections of a program are put: the data at four gibibytes, the rest behind it. -/
def sectionStart : SectionKind → Word
  | .data => 0x100000000
  | _ => 0x200000000

/-- The code of a program, with its sections in memory. Routines other than services return zero and
do nothing else. -/
def ObjectCode.process (object : ObjectCode) : Process where
  code := object.code
  codeAddress := ofNat 64
  symbolAt id := (object.symbols.get? id).elim 0 fun s => sectionStart s.kind + ofNat 64 s.offset
  mapped _ := true
  outside l := if l = abort.label then some fun _ => none
    else if l.id < Service.labels.size then none
    else some fun s => some (s.set rax 0)
  system _ := none

/-- All memory is zero but the cursor of the heap; the stack ends at twelve gibibytes. -/
def ObjectCode.entering (object : ObjectCode) : Config where
  position := 1
  machine :=
    { regs := fun r => if r = rsp then 0x300000000 else 0
      flags := .undefined
      memory := Memory.put (fun _ => 0) (object.process.symbolAt heapCursor) 0
        (object.process.symbolAt heap) }

lemma disjoint_cells_far {a b : Word} {n m : Nat} (first : n ≤ 0x40000000) (second : m ≤ 0x40000000)
    (up : 0x40000000 ≤ (b - a).toNat) (down : 0x40000000 ≤ (a - b).toNat) : Disjoint (cells a n)
    (cells b m) := by
  rw [Set.disjoint_left]
  intro x low high
  simp only [mem_cells] at low high
  bv_omega

lemma ObjectCode.launches {program : Program} {layout : Layout} {object : ObjectCode}
    (analyzed : analyze program settings = .ok layout)
    (generated : generate program layout settings = .ok object)
    (short : object.code.length < UInt64.size) (data : object.data.size ≤ 0x40000000)
    (bss : object.bss.size ≤ 0x40000000)
    (cursor : ∃ offset, BoundAt object.symbols heapCursor .data offset ∧
    offset + 8 ≤ object.data.size) :
    object.process.Launches object sectionStart object.entering := by
  have symbols : ∀ id kind offset, BoundAt object.symbols id kind offset →
      object.process.symbolAt id = sectionStart kind + BitVec.ofNat 64 offset := by
    rintro id kind offset ⟨s, found, rfl, rfl, -⟩
    simp [process, found]
  have apart : Disjoint (cells (sectionStart .data) object.data.size)
      (cells (sectionStart .bss) object.bss.size) :=
    disjoint_cells_far data bss (by decide) (by decide)
  have word : cells (object.process.symbolAt heapCursor) 8 ⊆ cells (sectionStart .data)
      object.data.size := by
    obtain ⟨offset, bound, inside⟩ := cursor
    have within : cells (sectionStart .data + BitVec.ofNat 64 offset) 8 ⊆ _ :=
      cells_within (Nat.zero_le offset) inside
    rwa [BitVec.add_zero, ← symbols _ _ _ bound] at within
  have top : object.entering.machine.stackTop = 0x300000000 := by
    simp [entering, Machine.stackTop]
  exact {
    code := rfl
    back := fun k l at_k => positionOf_ofNat rfl (List.getElem?_eq_some_iff.1 at_k).1 short
    symbols := symbols
    data := fun _ _ => rfl
    bss := fun _ _ => rfl
    apart := apart
    below := by
      have place : (sectionStart .bss).toNat = 0x200000000 := rfl
      simp only [place, UInt64.size]
      omega
    followed := by
      intro service mem
      have other : service.label ≠ abort.label ∧ service.label.id < Service.labels.size := by
        revert service
        decide
      simp [process, other.1, other.2]
    stops := stops_of_outside (by simp [process])
    position := by
      obtain ⟨-, -, -, -, -, -, -, -, whole⟩ := generate_text generated
      refine labelPosition_of_at (generate_hasDistinctLabels analyzed generated rfl) ?_
      rw [whole]
      rfl
    zeros := fun x near => by
      have away : x ∉ cells (object.process.symbolAt heapCursor + 0#64) Width.qword.bytes := by
        rw [BitVec.add_zero]
        exact fun touched => Set.disjoint_left.1 apart (word touched) near
      exact Memory.store_eqOn (fun _ => 0) _ _ _ away
    cursor := by
      rw [HasTaken, BitVec.add_zero]
      exact Memory.word_put_self _ _ _ _
    stack := fun _ _ => rfl
    stackApart := by
      rw [top, Set.disjoint_union_right]
      exact ⟨disjoint_cells_far (by decide) data (by decide) (by decide),
        disjoint_cells_far (by decide) bss (by decide) (by decide)⟩ }

/-- A handler that returns zero and does nothing else keeps to the rules. -/
lemma ObjectCode.process_isPolite {object : ObjectCode} {program : Program} {layout : Layout}
    {plan : Plan} {pool : Pool} (made : plan.IsMade program layout settings pool) {l : Label}
    {s u : Machine} (handler : plan.IsHandler l) (answers : object.process.Answers k l s u)
    (cap : Nat) : object.process.IsPolite cap plan.queuedAgents s u := by
  obtain ⟨agent, schema, found⟩ := handler
  have behind := (made.label_bounds (.inl (mem_of_lookup_eq_some found))).1
  have other : l ≠ abort.label := fun same =>
    absurd behind (not_le.2 (same ▸ abort.label_id_lt))
  have routine : object.process.outside l = some fun s => some (s.set rax 0) := by
    simp [process, other, not_lt.2 behind]
  cases answers with
  | outside known result =>
    obtain rfl := Option.some.inj (routine.symm.trans known)
    obtain rfl := Option.some.inj result
    exact ⟨⟨by simp [Machine.set], fun r saved => by
      have different : r ≠ rax := fun same => by simp [same, Register.isCalleeSaved] at saved
      simp [Machine.set, different]⟩, fun _ _ _ _ => rfl, fun _ _ => ⟨[], .nil⟩⟩
  | followed inside => simp [routine] at inside

end

end AgentCompiler
