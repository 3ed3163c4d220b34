import AgentCompiler.Proofs.BodyAcceptance
import AgentCompiler.Proofs.PlanAcceptance

/-!
Code is generated for an accepted program exactly if its bodies follow the rules. The plan, the main
routine and the services are always written; a routine is written exactly if its body is.
-/

namespace AgentCompiler

open Emit Option Layout Lower

variable {program : Program} {layout : Layout} {settings : Settings} {plan : Plan} {p q : Pool}
  {schema : SchemaLayout} {r : Routine}

section

variable {source : Endpoint}

lemma exists_lookup_iff {α β : Type} [BEq α] [LawfulBEq α] {entries : List (α × β)} {a : α} :
    (∃ b, entries.lookup a = some b) ↔ a ∈ entries.map (·.1) := by
  rw [← isSome_iff_exists, List.lookup_isSome_iff, List.mem_map]
  simp only [beq_iff_eq]
  constructor <;> rintro ⟨pair, member, same⟩ <;> exact ⟨pair, member, same.symm⟩

lemma Layout.IsDeclared.payload? (declared : IsDeclared program layout) (name : String) :
    (layout.schema? name).map (·.payload) = (program.schema? name).map fun schema =>
        Record.pack schema.fields := by
  have found := congrArg (fun l => (l.find? (·.1 == name)).map (·.2)) declared.schemas
  simpa [List.find?_map, Function.comp_def, schema?, Program.schema?] using found

lemma Layout.IsDeclared.schema? (declared : IsDeclared program layout) {name : String}
    (found : layout.schema? name = some schema) :
    ∃ s, program.schema? name = some s ∧ schema.payload = Record.pack s.fields := by
  have same := declared.payload? name
  rw [found, map_some, eq_comm, map_eq_some_iff] at same
  obtain ⟨s, known, payload⟩ := same
  exact ⟨s, known, payload.symm⟩

lemma Plan.IsMade.exists_storage (made : plan.IsMade program layout settings q)
    (accepted : IsAccepted program layout) {schema goal : String}
    (member : goal ∈ layout.destinations source schema) : ∃ storage, plan.storage? goal =
    some storage := by
  rw [Plan.storage?, exists_lookup_iff, made.storage]
  rcases destinationsIn_cases layout.routes source schema with none | ⟨route, inside, -, -, same⟩
  · rw [destinations, none] at member
    simp at member
  · rw [destinations, same] at member
    obtain ⟨a, here, named⟩ := List.mem_map.1 ((accepted.routes.accepted route inside).known
      goal member)
    refine List.mem_map.2 ⟨a, List.mem_filter.2 ⟨here, ?_⟩, named⟩
    have unit := accepted.handled route inside goal member
    have known := (accepted.routes.accepted route inside).schema
    obtain ⟨s, schemas, schema_eq⟩ := List.mem_map.1 known
    have found : (layout.unit? a.name s.name).isSome = true :=
      unit?_isSome.2 (by rw [named, schema_eq]; exact unit)
    obtain ⟨u, unit_eq⟩ := isSome_iff_exists.1 found
    have pair : (s, u) ∈ layout.agentUnits a.name := List.mem_filterMap.2
      ⟨s, schemas, by rw [unit_eq]; rfl⟩
    simpa using List.ne_nil_of_mem pair

variable {agent : AgentLayout} {template : Template}

lemma describes_routine (made : plan.IsMade program layout settings q)
    (accepted : Layout.IsAccepted program layout) (declared : Layout.IsDeclared program layout)
    (member : agent ∈ layout.agents) (found : program.template? agent.template = some template)
    {message : Option Schema} (agent_eq : r.agent = agent) (template_eq : r.template = template)
    (message_eq : r.message.map (·.payload) = message.map fun s => Record.pack s.fields) :
    (program.surroundings settings.debugReports agent.name template message r.returns).Describes
        plan r := by
  subst agent_eq template_eq
  obtain ⟨t, -, found', placed, -⟩ := accepted.template member
  obtain rfl := some.inj (found.symm.trans found')
  refine ⟨fun field => ?_, ?_, fun name => rfl, fun helper inside => ?_, fun name => ?_, ?_,
    ?_, rfl, ?_⟩
  · rw [placed.state, Record.slot?_pack, List.find?_map, map_map]
    rfl
  · cases given : r.message with
    | none =>
      rw [given, map_none, eq_comm, map_eq_none_iff] at message_eq
      rw [message_eq]
      rfl
    | some schema =>
      rw [given, map_some, eq_comm, map_eq_some_iff] at message_eq
      obtain ⟨s, rfl, payload⟩ := message_eq
      simp only [Program.surroundings, map_some, some.injEq]
      funext field
      rw [← payload, Record.slot?_pack]
  · refine ⟨?_, (declared.templates _ (List.mem_of_find?_eq_some found)).helpers helper inside |>.2⟩
    rw [Plan.helper?, exists_lookup_iff, made.helpers]
    refine List.mem_flatMap.2 ⟨r.agent, member, ?_⟩
    simp only [Plan.helperKeys, found, map_some, getD_some]
    exact List.mem_map.2 ⟨helper, inside, rfl⟩
  · rw [made.layout_eq]
    have same := congrArg (Option.map fun record : Record => record.slots.map fun slot =>
      (slot.name, slot.type.kind)) (declared.payload? name)
    simp only [map_map, Function.comp_def, Record.kinds_pack] at same
    exact same.symm
  · intro name schema known
    rw [made.layout_eq] at known ⊢
    have named : schema.name = name := by simpa using List.find?_some known
    rw [named, declared.routes]
    simp [Program.surroundings, Layout.declaredDestinations, List.flatMap_eq_nil_iff, and_assoc]
  · intro schema goal destination
    rw [made.layout_eq] at destination
    exact made.exists_storage accepted destination
  · rw [made.settings_eq]
    rfl

end

section

variable {α β : Type} {I : Pool → Prop} {x : Emit α} {g : α → Emit β}

/-- From every pool with an invariant, the run succeeds exactly if a condition holds, and then it
keeps the invariant. -/
structure Emit.Decides (I : Pool → Prop) (x : Emit α) (condition : Prop) : Prop where
  accepts : ∀ p, I p → ((∃ a q, x p = .ok (a, q)) ↔ condition)
  keeps : ∀ p a q, I p → x p = .ok (a, q) → I q

lemma Emit.bind_of_ok {a : α} (run : x p = .ok (a, q)) : (x >>= g) p = g a q := by
  change (x p >>= fun pair => g pair.1 pair.2) = g a q
  rw [run]
  rfl

namespace Emit.Decides

lemma pure (a : α) : Decides I (Pure.pure a) True where
  accepts p _ := ⟨fun _ => trivial, fun _ => ⟨a, p, pure_ok.2 ⟨rfl, rfl⟩⟩⟩
  keeps _ _ _ start run := (pure_ok.1 run).2 ▸ start

lemma bind {P Q : Prop} (first : Decides I x P)
    (second : ∀ a, Decides I (g a) Q) : Decides I (x >>= g) (P ∧ Q) where
  accepts p start := by
    constructor
    · rintro ⟨b, q, run⟩
      obtain ⟨a, s, runx, rung⟩ := bind_ok.1 run
      exact ⟨(first.accepts p start).1 ⟨a, s, runx⟩,
        ((second a).accepts s (first.keeps p a s start runx)).1 ⟨b, q, rung⟩⟩
    · rintro ⟨left, right⟩
      obtain ⟨a, s, runx⟩ := (first.accepts p start).2 left
      obtain ⟨b, q, rung⟩ := ((second a).accepts s (first.keeps p a s start runx)).2 right
      exact ⟨b, q, bind_ok.2 ⟨a, s, runx, rung⟩⟩
  keeps p b q start run := by
    obtain ⟨a, s, runx, rung⟩ := bind_ok.1 run
    exact (second a).keeps s b q (first.keeps p a s start runx) rung

lemma after {Q : Prop} (first : Decides I x True)
    (second : ∀ a, Decides I (g a) Q) : Decides I (x >>= g) Q := by
  have both := first.bind second
  rwa [true_and] at both

lemma congr {P Q : Prop} (h : Decides I x P) (same : P ↔ Q) : Decides I x Q :=
  ⟨fun p start => (h.accepts p start).trans same, h.keeps⟩

lemma yields (h : Decides I x True) (start : I p) : Emit.Yields x p fun _ q => I q := by
  obtain ⟨a, q, run⟩ := (h.accepts p start).2 trivial
  exact ⟨a, q, run, h.keeps p a q start run⟩

lemma mapM {f : α → Emit β} {P : α → Prop} {items : List α}
    (each : ∀ a ∈ items, Decides I (f a) (P a)) : Decides I (items.mapM f) (∀ a ∈ items, P a) := by
  induction items with
  | nil => exact (pure []).congr (by simp)
  | cons a rest ih =>
    rw [List.forall_mem_cons] at each
    rw [List.mapM_cons]
    refine (each.1.bind fun b => (ih each.2).bind fun bs => pure (b :: bs)).congr ?_
    simp

end Emit.Decides

end

section

variable {params : List FieldDecl} {scope : List (String × ValueKind)}

structure Plan.IsOpen (plan : Plan) (p : Pool) : Prop where
  knows : plan.Knows p
  orderly : p.IsOrderly

lemma Plan.IsOpen.grows (h : plan.IsOpen p) (grows : p.Grows q) : plan.IsOpen q :=
  ⟨grows.knows h.knows, h.orderly.grows grows⟩

lemma Plan.IsOpen.ready (h : plan.IsOpen p) (leave : fresh "epilogue" p = .ok (r.epilogue, q)) :
    r.IsReady plan q := by
  obtain ⟨id, size, -⟩ := fresh_facts leave
  have next := h.grows (.names (.fresh leave))
  exact ⟨next.knows, next.orderly, by omega⟩

lemma params_yields {f : Frame} {outer : Scopes} {post : PUnit → Frame → Pool → Prop} {c : Prop}
    (top : f.kinds = scope :: outer) (nodup : (scope.map (·.1)).Nodup)
    (same : ∀ u f', f'.kinds = ((params.map fun param => (param.name, param.type.kind)).reverse ++
      scope) :: outer → f'.depth = f.depth → (post u f' p ↔ c)) : Lower.Yields
      (params.forM fun param => do
        let _ ← declare r param.name param.type.kind : Lower PUnit) f p post ↔
      (params.map (·.name) ++ scope.map (·.1)).Nodup ∧ c := by
  induction params generalizing f scope with
  | nil =>
    rw [List.forM_eq_forM, List.forM_nil, Lower.yields_pure]
    simpa [nodup] using same () f (by simpa using top) rfl
  | cons param rest ih =>
    rw [List.forM_eq_forM, List.forM_cons, Lower.yields_bind, Lower.yields_bind]
    simp only [Lower.yields_pure]
    rw [yields_declare (K := fun _ =>
      (rest.map (·.name) ++ param.name :: scope.map (·.1)).Nodup ∧ c)]
    · have fresh : (param.name :: (rest.map (·.name) ++ scope.map (·.1))).Nodup →
          param.name ∉ scope.map (·.1) := fun new used =>
        (List.nodup_cons.1 new).1 (List.mem_append_right _ used)
      simp only [top, List.cons.injEq, existsAndEq, true_and, List.map_cons, List.cons_append,
        List.perm_middle.nodup_iff]
      tauto
    · intro x g scope' outer' top' new after depth
      obtain ⟨rfl, rfl⟩ := List.cons.inj (top.symm.trans top')
      refine ih after (List.nodup_cons.2 ⟨new, nodup⟩) fun u f' kinds depth' => ?_
      exact same u f' (by simpa using kinds) (depth'.trans depth)

variable {agent : AgentLayout} {template : Template}

lemma Emit.exists_fresh (hint : String) (p : Pool) : ∃ l q, fresh hint p = .ok (l, q) :=
  ⟨_, _, fresh_ok.2 ⟨rfl, rfl⟩⟩

lemma Emit.exists_routine_iff {body : Lower Code} {entry : Label} {params : Nat} :
    (∃ code q, routine r entry params body p = .ok (code, q)) ↔ Lower.Yields body {} p fun _ _
        _ => True := by
  simp only [Lower.Yields, and_true, routine, bind_ok, pure_ok, Prod.exists]
  constructor
  · rintro ⟨_, q, code, f, _, run, -, rfl⟩
    exact ⟨code, f, _, run⟩
  · rintro ⟨code, f, q, run⟩
    exact ⟨_, q, code, f, q, run, rfl, rfl⟩

section

variable (made : plan.IsMade program layout settings q) (accepted : IsAccepted program layout)
  (declared : IsDeclared program layout) (member : agent ∈ layout.agents)
include made accepted declared member

section

variable (found : program.template? agent.template = some template)
include found

lemma decides_handler {h : Handler}
    (inside : h ∈ template.handlers) : Emit.Decides plan.IsOpen (handler plan agent template h)
      (program.AdmitsHandler settings.debugReports agent.name template h) where
  accepts p start := by
    have payload := declared.payload? h.schema
    rw [Program.AdmitsHandler, handler, made.layout_eq]
    cases known : program.schema? h.schema with
    | none =>
      simp [known] at payload
      simp [payload]
    | some s =>
      rw [known, map_some, map_eq_some_iff] at payload
      obtain ⟨schema, known', payload⟩ := payload
      obtain ⟨entry, named⟩ : ∃ l, plan.handler? agent.name h.schema = some l := by
        rw [Plan.handler?, exists_lookup_iff, made.handlers]
        refine List.mem_flatMap.2 ⟨agent, member, ?_⟩
        rw [(Plan.handlerKeys_perm accepted member found).mem_iff]
        exact List.mem_map.2 ⟨h, inside, rfl⟩
      have same : (some schema).map (·.payload) = (some s).map fun s => Record.pack s.fields := by
        simp [payload]
      obtain ⟨leave, p1, fresh⟩ := exists_fresh "epilogue" p
      have describes := describes_routine made accepted declared member found
        (r := handlerRoutine p1 entry leave agent template schema) rfl rfl same
      simp only [known', named, bind_of_ok fresh, some.injEq, existsAndEq, true_and]
      exact exists_routine_iff.trans (block_accepted_iff describes (start.ready fresh) rfl)
  keeps p code q start run := by
    obtain ⟨entry, -, routine⟩ := handler_isRoutine run
    exact start.grows (routine.grows start.knows)

lemma decides_helper {h : Helper}
    (inside : h ∈ template.helpers) : Emit.Decides plan.IsOpen (helper plan agent template h)
      (program.AdmitsHelper settings.debugReports agent.name template h) where
  accepts p start := by
    have few : ¬ parameterRegisters.length < h.params.length := not_lt.2
      ((declared.templates _ (List.mem_of_find?_eq_some found)).helpers h inside).2
    have describes : ∀ p1 entry leave, (program.surroundings settings.debugReports
        agent.name template none (.value h.returns)).Describes plan
        (helperRoutine p1 entry leave agent template h) :=
      fun p1 entry leave => describes_routine made accepted declared member found
        (r := helperRoutine p1 entry leave agent template h) rfl rfl rfl
    obtain ⟨⟨entry, named⟩, -⟩ := (describes p ⟨0⟩ ⟨0⟩).labels h inside
    have named : plan.helper? agent.name h.name = some entry := named
    obtain ⟨leave, p1, fresh⟩ := exists_fresh "epilogue" p
    rw [helper]
    simp only [named, if_neg few, bind_of_ok fresh]
    have empty : ({} : Frame).kinds = [[]] := rfl
    refine exists_routine_iff.trans (Lower.yields_bind.trans
      ((params_yields empty .nil fun u f kinds depth => ?_).trans (and_congr_left' ?_)))
    · rw [List.append_nil] at kinds
      rw [← kinds]
      exact block_accepted_iff (describes p1 entry leave) (start.ready fresh) depth
    · rw [List.map_nil, List.append_nil]
  keeps p code q start run := by
    obtain ⟨entry, -, routine⟩ := helper_isRoutine run
    exact start.grows (routine.grows start.knows)

end

lemma decides_agentRoutines : Emit.Decides plan.IsOpen (agentRoutines plan agent)
      (∃ template, program.template? agent.template = some template ∧
        (∀ handler ∈ template.handlers, program.AdmitsHandler settings.debugReports agent.name
        template handler) ∧ ∀ helper ∈ template.helpers, program.AdmitsHelper settings.debugReports
        agent.name template helper) := by
  obtain ⟨template, -, found, -, -⟩ := accepted.template member
  simp only [agentRoutines, made.program_eq, found]
  have handlers := Emit.Decides.mapM fun h inside =>
    decides_handler made accepted declared member found (h := h) inside
  have helpers := Emit.Decides.mapM fun h inside =>
    decides_helper made accepted declared member found (h := h) inside
  refine (handlers.bind fun _ => helpers.bind fun _ => .pure _).congr ?_
  simp

end

end

section

namespace Emit

lemma decides_fresh (plan : Plan) (hint : String) : Decides plan.IsOpen (fresh hint) True where
  accepts p _ := iff_true_intro (exists_fresh hint p)
  keeps _ _ _ start run := start.grows (.names (.fresh run))

lemma decides_internText (plan : Plan) {text : String} (plain : hasNul text = false) :
    Decides plan.IsOpen (internText text) True where
  accepts _ start := iff_true_intro (start.orderly.exists_internText plain)
  keeps _ _ _ start run := start.grows (.interns (.text run))

lemma decides_storeText (plan : Plan) {text : String} (plain : hasNul text = false)
    (dst : Address) :
    Decides plan.IsOpen (storeText dst text) True :=
  (decides_internText plan plain).after fun _ => .pure _

lemma decides_seedField (declared : IsDeclared program layout) (plan : Plan) (slot : Slot) :
    Decides plan.IsOpen (seedField program.seed.fields slot) True := by
  unfold seedField
  dsimp only
  split
  next text given =>
    exact decides_storeText plan (declared.seedTexts slot.name text (mem_of_lookup_eq_some given)) _
  next => exact .pure _
  next => exact .pure _
  next =>
    split
    · exact decides_storeText plan (by decide) _
    · exact .pure _

lemma decides_seedDelivery {goal : String} (stored : ∃ storage, plan.storage? goal = some storage) :
    Decides plan.IsOpen (seedDelivery plan schema goal) True := by
  obtain ⟨storage, stored⟩ := stored
  have found : (storageOf plan goal : Emit Storage) = Pure.pure storage := by
    simp only [storageOf, stored]
    rfl
  rw [seedDelivery, found]
  exact (Decides.pure storage).after fun _ => .pure _

lemma decides_seed (made : plan.IsMade program layout settings q)
    (accepted : IsAccepted program layout) (declared : IsDeclared program layout) :
    Decides plan.IsOpen (seed plan) True := by
  obtain ⟨schema, known⟩ := declared.seed
  simp only [seed, made.program_eq, made.layout_eq, known]
  have fields : Decides plan.IsOpen (schema.payload.slots.mapM (seedField program.seed.fields))
      True :=
    (Decides.mapM fun slot _ => decides_seedField declared plan slot).congr (by simp)
  have deliveries : Decides plan.IsOpen
      ((layout.destinations .external schema.name).mapM (seedDelivery plan schema)) True :=
    (Decides.mapM fun goal member => decides_seedDelivery
      (made.exists_storage accepted member)).congr (by simp)
  exact fields.after fun _ => deliveries.after fun _ => .pure _

lemma decides_cycleBound {halt : Label} (small : settings.maxCycles.toNat ≤ maxInt64) :
    Decides plan.IsOpen (cycleBound settings halt : Emit Code) True := by
  obtain ⟨code, same⟩ : ∃ code, (cycleBound settings halt : Emit Code) = Pure.pure code := by
    unfold cycleBound
    dsimp only
    split
    · exact ⟨_, rfl⟩
    · exact ⟨_, rfl⟩
  rw [same]
  exact .pure code

lemma decides_dispatchArms (plan : Plan) (agent : AgentLayout) (base : Int32) (storage : Storage)
    (fail next : Label) (schemas : List SchemaLayout) :
    Decides plan.IsOpen (dispatchArms plan agent base storage fail next schemas) True := by
  induction schemas with
  | nil => exact .pure []
  | cons schema rest ih =>
    unfold dispatchArms
    split
    · exact ih
    · exact (decides_fresh plan _).after fun _ => ih.after fun _ => .pure _

lemma decides_act {fail : Label} {agent : AgentLayout} {storage : Storage}
    (low : agent.base ≤ maxInt32) : Decides plan.IsOpen (act plan fail agent storage) True := by
  unfold act
  refine (decides_fresh plan _).after fun next => ?_
  rw [if_neg (not_lt.2 low)]
  exact (decides_dispatchArms ..).after fun _ => .pure _

lemma exists_mainRoutine (made : plan.IsMade program layout settings q)
    (accepted : IsAccepted program layout) (declared : IsDeclared program layout)
    (cycles : settings.maxCycles.toNat ≤ maxInt64) (bases : ∀ a ∈ layout.agents, a.base ≤ maxInt32)
    (start : plan.IsOpen p) (new : "_start" ∉ p.labels.entryNames) :
    Yields (mainRoutine plan) p fun _ q => plan.IsOpen q := by
  have entered := entry_ok.2 ⟨_, LabelTable.entry_new new, rfl⟩
  have actions : ∀ fail, Decides plan.IsOpen
      (plan.queuedAgents.mapM fun pair => act plan fail pair.1 pair.2) True := fun fail =>
    (Decides.mapM fun pair member => decides_act
      (bases _ (made.layout_eq ▸ (mem_queuedAgents member).1))).congr (by simp)
  unfold mainRoutine
  rw [yields_bind]
  refine ⟨_, _, entered, Decides.yields ?_ (start.grows (.names (.entry entered)))⟩
  refine (decides_fresh plan _).after fun rest => (decides_fresh plan _).after fun sense => ?_
  refine (decides_fresh plan _).after fun fail => (decides_fresh plan _).after fun halt => ?_
  refine (decides_seed made accepted declared).after fun first => ?_
  refine (decides_cycleBound (made.settings_eq ▸ cycles)).after fun bound => ?_
  exact (actions fail).after fun _ => .pure _

lemma decides_allocateService (plan : Plan) {heapSize : Nat} (small : heapSize ≤ maxInt32) :
    Decides plan.IsOpen (allocateService heapSize) True := by
  unfold allocateService
  rw [if_neg (not_lt.2 small)]
  exact (decides_fresh plan _).after fun _ => (decides_internText plan (by decide)).after fun _ =>
    .pure _

lemma decides_services (plan : Plan) (valid : settings.validate = .ok ()) :
    Decides plan.IsOpen (services settings) True := by
  have heap : settings.heapSize.toNat ≤ maxInt32 := (Settings.validate_ok valid).2.1.trans
    (by decide)
  have label := decides_fresh plan
  have text : ∀ {t : String}, hasNul t = false → Decides plan.IsOpen (internText t) True :=
    decides_internText plan
  have two {a b : String} {text : Label → Label → Code} : Decides plan.IsOpen (do
      let l ← fresh a
      let m ← fresh b
      Pure.pure (text l m)) True := (label _).after fun _ => (label _).after fun _ => .pure _
  have three {a b c : String} {text : Label → Label → Label → Code} : Decides plan.IsOpen (do
      let k ← fresh a
      let l ← fresh b
      let m ← fresh c
      Pure.pure (text k l m)) True := (label _).after fun _ => two
  unfold services
  refine ((text (by decide)).after fun _ => .pure _).after fun abort => ?_
  refine two.after fun writeBytes => two.after fun putText => two.after fun textLength => ?_
  refine three.after fun textEqual => (decides_allocateService plan heap).after fun allocate => ?_
  refine three.after fun formatInt => ((label _).after fun _ => (label _).after fun _ =>
    three).after fun repeatText => ?_
  refine ((text (by decide)).after fun _ => (text (by decide)).after fun _ =>
      (label _).after fun _ =>
    .pure _).after fun printBool => ?_
  refine ((label _).after fun _ => (label _).after fun _ => (text (by decide)).after fun _ =>
    .pure _).after fun enqueue => ?_
  exact two.after fun dequeue => .pure _

end Emit

end

section

lemma Plan.start_notMem_entryNames : "_start" ∉ Service.labels.entryNames ++
    layout.agents.flatMap (routineNames program layout) := by
  rw [List.mem_append, not_or, List.mem_flatMap]
  refine ⟨by decide, ?_⟩
  rintro ⟨agent, -, named⟩
  rcases List.mem_append.1 named with named | named
  all_goals
    obtain ⟨key, -, same⟩ := List.mem_map.1 named
    have lists := congrArg String.toList same
    rw [toList_dottedName] at lists
    exact absurd (congrArg List.head? lists) (by simp)

lemma Layout.IsDeclared.admitsBodies_iff (declared : IsDeclared program layout) {reports : Bool} :
    program.AdmitsBodies reports ↔ ∀ agent ∈ layout.agents,
      ∃ template, program.template? agent.template = some template ∧
        (∀ handler ∈ template.handlers, program.AdmitsHandler reports agent.name template handler) ∧
        ∀ helper ∈ template.helpers, program.AdmitsHelper reports agent.name template helper := by
  rw [Program.AdmitsBodies, ← declared.instances, List.forall_mem_map]

lemma exists_generate_iff (planned : Plan.make program layout settings .initial = .ok (plan, p)) :
    (∃ object, generate program layout settings = .ok object) ↔ ∃ parts q, Emit.program plan p = .ok
        (parts, q) := by
  simp only [generate, StateT.run, bind_ok, pure_ok, planned, Except.ok.injEq]
  constructor
  · rintro ⟨-, -, rfl, ⟨parts, q⟩, run, -⟩
    exact ⟨parts, q, run⟩
  · rintro ⟨parts, q, run⟩
    exact ⟨_, (plan, p), rfl, (parts, q), run, rfl⟩

/-- Code is generated for a program exactly if all its bodies follow the rules. -/
theorem generate_accepts_iff (analyzed : Layout.analyze program settings = .ok layout)
    (valid : settings.validate = .ok ()) (cycles : settings.maxCycles.toNat ≤ maxInt64)
    (bases : ∀ agent ∈ layout.agents, agent.base ≤ maxInt32) :
    (∃ object, generate program layout settings = .ok object) ↔
      program.AdmitsBodies settings.debugReports := by
  have accepted := Layout.analyze_isAccepted analyzed
  have declared := Layout.analyze_isDeclared analyzed
  obtain ⟨plan, p, planned, orderly, names⟩ := Plan.yields_make settings accepted declared
  have made := Plan.make_isMade planned
  obtain ⟨⟨entry, main⟩, s, mainRun, begun⟩ := Emit.exists_mainRoutine made accepted declared
    cycles bases ⟨made.knows, orderly⟩ (names ▸ Plan.start_notMem_entryNames)
  have rest : Emit.Decides plan.IsOpen _ _ := (Emit.Decides.mapM fun agent member =>
    decides_agentRoutines made accepted declared member).bind fun routines =>
      (Emit.decides_services plan valid).after fun support =>
        Emit.Decides.pure (entry, main ++ routines.flatten ++ support)
  have decided := rest.accepts s begun
  rw [and_true, ← declared.admitsBodies_iff] at decided
  have continued : Emit.program plan p = _ := Emit.bind_of_ok mainRun
  rw [made.layout_eq, made.settings_eq] at continued
  rw [exists_generate_iff planned, ← decided, continued]

theorem generate_accepts_iff_counter :
    (∃ layout, Layout.analyze counterProgram {} = .ok layout ∧
      ∃ object, generate counterProgram layout {} = .ok object) ∧
    counterProgram.AdmitsBodies ({} : Settings).debugReports := by
  obtain ⟨layout, object, valid, analyzed, generated⟩ := counterProgram_generates
  have low : ((Layout.analyze counterProgram {}).toOption.all fun layout =>
      layout.agents.all (·.base ≤ maxInt32)) = true := by decide +kernel
  rw [analyzed] at low
  exact ⟨⟨layout, analyzed, object, generated⟩,
    (generate_accepts_iff analyzed valid (by decide) (by simpa [Except.toOption] using low)).1
      ⟨object, generated⟩⟩

end

end AgentCompiler
