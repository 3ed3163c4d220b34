import AgentCompiler.Proofs.WrittenBodies

/-!
The routines of a program, opened from their code: the main routine, whose cycle is written in the
steps of `Written`, and the routines of the agents, which have such a body between entry and exit.
-/

namespace AgentCompiler

open Instruction Service Address List Register Lower

namespace Emit

variable {plan : Plan} {p q : Pool} {code : Code}

@[simp] lemma get_ok {s : Pool} : (get : Emit Pool) p = .ok (s, q) ↔ p = s ∧ p = q :=
  pure_ok (a := p)

section

variable {agent : AgentLayout} {template : Template} {h : Handler} {entry : Label} {r : Routine}

/-- A routine of an agent: its label, how many parameters it takes and how many slots it has. -/
inductive IsRoutine (plan : Plan) (agent : AgentLayout) (entry : Label) (params slots : Nat) :
    Pool → Code → Pool → Prop
  | intro {p p1 q : Pool} {leave : Label} {frame : Frame} {body : Code} :
      fresh "epilogue" p = .ok (leave, p1) → frame.slots = slots →
      IsWritten plan (.agent agent.name) p.labels.size p1 body q →
      IsRoutine plan agent entry params slots p (prologue entry frame params ++ body ++
        epilogue leave frame) q

lemma IsRoutine.grows {params slots : Nat}
    (h : IsRoutine plan agent entry params slots p code q) (knows : plan.Knows p) : p.Grows q := by
  obtain ⟨leave, -, body⟩ := h
  have size := (fresh_facts leave).2.1
  exact .trans (.names (.fresh leave)) (body.grows (by omega) (knows.fresh leave))

lemma routine_ok {params : Nat} {body : Lower Code}
    (h : routine r entry params body p = .ok (code, q)) : ∃ inner frame, body {} p = .ok
      ((inner, frame), q) ∧ code = prologue entry frame params ++ inner ++
      epilogue r.epilogue frame := by
  simp only [routine, bind_ok, pure_ok, Prod.exists] at h
  obtain ⟨inner, frame, _, lowered, rfl, rfl⟩ := h
  exact ⟨inner, frame, lowered, rfl⟩

def handlerRoutine (p : Pool) (entry leave : Label) (agent : AgentLayout) (template : Template)
    (schema : SchemaLayout) : Routine :=
  ⟨p.labels.name entry, agent, template, some schema, .status, leave⟩

section

variable (hrun : handler plan agent template h p = .ok (code, q))
include hrun

lemma handler_ok : ∃ schema entry leave p1 body frame, plan.layout.schema? h.schema = some schema ∧
      plan.handler? agent.name h.schema = some entry ∧
      fresh "epilogue" p = .ok (leave, p1) ∧
      block plan (handlerRoutine p1 entry leave agent template schema) h.body {} p1 = .ok
      ((body, frame), q) ∧ code = prologue entry frame 0 ++ body ++ epilogue leave frame := by
  unfold handler at hrun
  cases known : plan.layout.schema? h.schema with
  | none => simp [known] at hrun
  | some schema =>
    cases starts : plan.handler? agent.name h.schema with
    | none => simp [known, starts] at hrun
    | some entry =>
      simp only [known, starts, bind_ok, get_ok] at hrun
      obtain ⟨leave, p1, leaves, _, _, ⟨rfl, rfl⟩, hrun⟩ := hrun
      obtain ⟨body, frame, inner, rfl⟩ := routine_ok hrun
      exact ⟨schema, entry, leave, p1, body, frame, rfl, rfl, leaves, inner, rfl⟩

lemma handler_isRoutine : ∃ entry, plan.handler? agent.name h.schema = some entry ∧
      IsRoutine plan agent entry 0 (Stmt.declarationsIn h.body) p code q := by
  obtain ⟨schema, entry, leave, p1, body, frame, -, starts, leaves, inner, rfl⟩ := handler_ok hrun
  obtain ⟨named, size, -⟩ := fresh_facts leaves
  refine ⟨entry, starts, .intro leaves ?_ ?_⟩
  · simpa using (block_advances inner).1.slots
  · exact block_written named.symm.le (by simp [handlerRoutine]; omega) inner

end

lemma declare_params {params : List FieldDecl} {f f' : Frame} {u : PUnit}
    (h : (params.forM fun param => do
        let _ ← declare r param.name param.type.kind : Lower PUnit) f p = .ok ((u, f'), q)) :
    p = q ∧ f'.slots = f.slots + params.length ∧ f'.depth = f.depth ∧
        (f.HasOwnSlots → f'.HasOwnSlots) := by
  induction params generalizing f p with
  | nil =>
    obtain ⟨-, rfl, rfl⟩ := Lower.pure_ok.1 h
    exact ⟨rfl, rfl, rfl, id⟩
  | cons param rest ih =>
    rw [forM_eq_forM, forM_cons] at h
    simp only [Lower.bind_ok, declare_ok, Lower.pure_ok] at h
    obtain ⟨_, _, _, ⟨_, f1, _, ⟨hdeclare, rfl⟩, -, rfl, rfl⟩, more⟩ := h
    have hown : f.HasOwnSlots → f1.HasOwnSlots := fun own => own.declare hdeclare
    obtain ⟨_, _, -, -, rfl⟩ := Frame.declare_ok hdeclare
    obtain ⟨rfl, slots, depth, more⟩ := ih more
    refine ⟨rfl, ?_, depth, fun own => more (hown own)⟩
    rw [slots, length_cons]
    simp only
    omega

def helperRoutine (p : Pool) (entry leave : Label) (agent : AgentLayout) (template : Template)
    (h : Helper) : Routine :=
  ⟨p.labels.name entry, agent, template, none, .value h.returns, leave⟩

lemma helper_ok {h : Helper} (hrun : helper plan agent template h p = .ok (code, q)) :
    ∃ entry leave p1 f body frame, plan.helper? agent.name h.name = some entry ∧
      fresh "epilogue" p = .ok (leave, p1) ∧ (f.slots = h.params.length ∧ f.depth = 0 ∧
      f.HasOwnSlots) ∧ block plan (helperRoutine p1 entry leave agent template h) h.body f p1 =
      .ok ((body, frame), q) ∧ code = prologue entry frame h.params.length ++ body ++
      epilogue leave frame := by
  unfold helper at hrun
  cases starts : plan.helper? agent.name h.name with
  | none => simp [starts] at hrun
  | some entry =>
    simp only [starts] at hrun
    split at hrun
    next => simp [bind_ok] at hrun
    next =>
      simp only [bind_ok, get_ok] at hrun
      obtain ⟨leave, p1, leaves, _, _, ⟨rfl, rfl⟩, hrun⟩ := hrun
      obtain ⟨body, frame, inner, rfl⟩ := routine_ok hrun
      obtain ⟨_, f, s, params, inner⟩ := Lower.bind_ok.1 inner
      obtain ⟨rfl, slots, depth, own⟩ := declare_params params
      exact ⟨entry, leave, p1, f, body, frame, rfl, leaves, ⟨by simpa using slots, depth,
        own .initial⟩, inner, rfl⟩

lemma helper_isRoutine {h : Helper} (hrun : helper plan agent template h p = .ok (code, q)) :
    ∃ entry, plan.helper? agent.name h.name = some entry ∧
      IsRoutine plan agent entry h.params.length (h.params.length + Stmt.declarationsIn h.body) p
      code q := by
  obtain ⟨entry, leave, p1, f, body, frame, starts, leaves, ⟨slots, -⟩, inner, rfl⟩ :=
    helper_ok hrun
  obtain ⟨named, size, -⟩ := fresh_facts leaves
  refine ⟨entry, starts, .intro leaves ?_ ?_⟩
  · rw [(block_advances inner).1.slots, slots]
  · exact block_written named.symm.le (by simp [helperRoutine]; omega) inner

lemma handler_grows (knows : plan.Knows p)
    (hrun : handler plan agent template h p = .ok (code, q)) :
    p.Grows q := by
  obtain ⟨entry, -, routine⟩ := handler_isRoutine hrun
  exact routine.grows knows

lemma helper_grows {h : Helper} (knows : plan.Knows p)
    (hrun : helper plan agent template h p = .ok (code, q)) :
    p.Grows q := by
  obtain ⟨entry, -, routine⟩ := helper_isRoutine hrun
  exact routine.grows knows

lemma agentRoutines_ok (h : agentRoutines plan agent p = .ok (code, q)) :
    ∃ template handlers p1 helpers, plan.program.template? agent.template = some template ∧
      MapRun (handler plan agent template) p template.handlers handlers p1 ∧
      MapRun (helper plan agent template) p1 template.helpers helpers q ∧
      code = handlers.flatten ++ helpers.flatten := by
  unfold agentRoutines at h
  cases kept : plan.program.template? agent.template with
  | none => simp [kept] at h
  | some template =>
    simp only [kept, bind_ok, mapM_ok, pure_ok] at h
    obtain ⟨handlers, p1, handled, helpers, _, helped, rfl, rfl⟩ := h
    exact ⟨template, handlers, p1, helpers, rfl, handled, helped, rfl⟩

end

section

variable {source : Endpoint} {lo : Nat} {base disp : Int32} {schema : SchemaLayout}
  {halt sense fail next rest start : Label} {agent : AgentLayout} {storage : Storage}
  {queued : List (AgentLayout × Storage)} {P : Multiset Label} {actions : List Code}
  {bound first : Code}

lemma MapRun.written {α : Type} {f : α → Emit Code} {items : List α} {codes : List Code} (n : Nat)
    (h : MapRun f p items codes q) (below : n ≤ p.labels.size)
    (hf : ∀ a ∈ items, ∀ {p q : Pool} {code : Code}, n ≤ p.labels.size → f a p = .ok (code, q) →
      Lower.IsWritten plan source lo p code q) : Lower.IsWritten plan source lo p
      codes.flatten q := by
  induction h with
  | nil p => exact .plain (by simp)
  | @cons p s q a code items codes begins _ ih =>
    rw [forall_mem_cons] at hf
    exact (hf.1 below begins).append_of_le fun le => ih (below.trans le) hf.2

lemma storeText_written {text : String} {base : Register}
    (h : storeText (.near base disp) text p = .ok (code, q)) :
    IsWritten plan source lo p code q := by
  simp only [storeText, bind_ok, pure_ok] at h
  obtain ⟨s, _, hs, rfl, rfl⟩ := h
  exact .after_interns (.text hs) fun known _ _ _ =>
    .cons (.single (isPlain_lea rfl rfl (isKnown_symbol known 0)))
    (.single (isPlain_store rfl (isKnown_near _ _)))

lemma storeConstant_plain {small : Prop} {n : Nat} {base : Register} (type : ValueType)
    (value : Int64) : ∀ i ∈ storeConstant (.near base disp) type value, i.IsPlain small n := by
  simp only [storeConstant, forall_mem_cons, not_mem_nil, IsEmpty.forall_iff, implies_true,
    and_true]
  exact ⟨isPlain_move_imm rfl value, isPlain_store rfl (isKnown_near _ _)⟩

lemma seedField_written {fields : List (String × Literal)} {slot : Slot}
    (h : seedField fields slot p = .ok (code, q)) : IsWritten plan source lo p code q := by
  unfold seedField at h
  cases literal : fields.lookup slot.name with
  | none =>
    cases type : slot.type <;> simp only [literal, type] at h
    case str => exact storeText_written h
    all_goals
      obtain ⟨rfl, rfl⟩ := pure_ok.1 h
      exact .plain (by simp)
  | some value =>
    cases value <;> simp only [literal] at h
    case str => exact storeText_written h
    all_goals
      obtain ⟨rfl, rfl⟩ := pure_ok.1 h
      exact .plain (storeConstant_plain _ _)

lemma seedDelivery_ok {goal : String} (h : seedDelivery plan schema goal p = .ok (code, q)) :
    ∃ storage, plan.storage? goal = some storage ∧ p = q ∧
      code = callSequence [] enqueue.label (deliveryArguments schema .r14 storage) := by
  simp only [seedDelivery, bind_ok, lift_ok, storageOf_ok, pure_ok] at h
  obtain ⟨storage, _, ⟨stored, rfl⟩, rfl, rfl⟩ := h
  exact ⟨storage, stored, rfl, rfl⟩

lemma seed_ok (h : seed plan p = .ok (code, q)) :
    ∃ schema fields p1 deliveries, plan.layout.schema? plan.program.seed.schema = some schema ∧
      MapRun (seedField plan.program.seed.fields) p schema.payload.slots fields p1 ∧
      MapRun (seedDelivery plan schema) p1 (plan.layout.destinations .external schema.name)
      deliveries q ∧ code = callSequence [] allocate.label
        [.imm (Int64.ofNat schema.payload.size)] ++ [move r14 rax] ++ fields.flatten ++
        deliveries.flatten := by
  unfold seed at h
  cases known : plan.layout.schema? plan.program.seed.schema with
  | none => simp [known] at h
  | some schema =>
    simp only [known, bind_ok, mapM_ok, pure_ok] at h
    obtain ⟨fields, p1, filled, deliveries, _, delivered, rfl, rfl⟩ := h
    exact ⟨schema, fields, p1, deliveries, rfl, filled, delivered, rfl⟩

lemma seed_written (h : seed plan p = .ok (code, q)) : IsWritten plan .external lo p code q := by
  obtain ⟨schema, fields, p1, deliveries, known, filled, delivered, rfl⟩ := seed_ok h
  have allocated : IsWritten plan .external lo p
      (callSequence [] allocate.label [.imm (Int64.ofNat schema.payload.size)]) p :=
    fun _ _ _ => written_call (by simp) (.service (by decide)) (by simp)
  refine ((allocated.append (.single (isPlain_move_reg rfl))).append
    (filled.written 0 (Nat.zero_le _) ?_)).append (delivered.written 0 (Nat.zero_le _) ?_)
  · exact fun _ _ _ _ _ _ h => seedField_written h
  · intro goal leads p q code _ h
    obtain ⟨storage, stored, rfl, rfl⟩ := seedDelivery_ok h
    exact fun _ hk _ => written_delivery hk (by simp) (by decide) known leads stored

lemma cycleBound_written {settings : Settings} (hhalt : lo ≤ halt.id ∧ halt.id < p.labels.size)
    (h : cycleBound settings halt = .ok code) : IsWritten plan source lo p code p := by
  simp only [cycleBound] at h
  split at h
  next =>
    obtain rfl := AgentCompiler.pure_ok.1 h
    exact .plain (by simp)
  next =>
    split at h
    next =>
      obtain rfl := AgentCompiler.pure_ok.1 h
      exact fun _ _ _ => .cons (.single (isPlain_move_imm rfl _))
        (.cons (.single (isPlain_arith_reg (.inr rfl))) (.branch hhalt.1 hhalt.2))
    next => simp at h

lemma mem_queuedAgents (h : (agent, storage) ∈ plan.queuedAgents) :
    agent ∈ plan.layout.agents ∧ plan.storage? agent.name = some storage := by
  simp only [Plan.queuedAgents, mem_filterMap, Option.map_eq_some_iff, Prod.mk.injEq] at h
  obtain ⟨a, ha, s, hs, rfl, rfl⟩ := h
  exact ⟨ha, hs⟩

section

variable (hqueued : ∀ pair ∈ queued, plan.storage? pair.1.name = some pair.2)
include hqueued

lemma checkQueues_written (hsense : lo ≤ sense.id ∧ sense.id < p.labels.size) :
    Lower.IsWritten plan source lo p (queued.flatMap fun pair => checkQueue sense pair.2) p := by
  intro _ hk _
  induction queued with
  | nil => exact .nil
  | cons pair rest ih =>
    rw [forall_mem_cons] at hqueued
    have queue := (hk.queues _ _ hqueued.1).1
    refine Written.append ?_ (ih hqueued.2)
    exact .cons (.single (isPlain_arith_mem_imm rfl (isKnown_symbol queue 8) (by decide)))
      (.branch hsense.1 hsense.2)

lemma takeMessages_written : Lower.IsWritten plan source lo p (queued.flatMap fun pair =>
    takeMessage pair.2) p := by
  intro _ hk _
  induction queued with
  | nil => exact .nil
  | cons pair rest ih =>
    rw [forall_mem_cons] at hqueued
    have known := hk.queues _ _ hqueued.1
    have coded : takeMessage pair.2 = callSequence [] dequeue.label
      [.address pair.2.queue 0, .address pair.2.slot 0] := rfl
    rw [flatMap_cons, coded]
    refine (Written.call (by simp) (.service (by decide)) ?_).append (ih hqueued.2)
    intro s d hs
    simp only [mem_cons, Argument.address.injEq, not_mem_nil, or_false] at hs
    obtain ⟨rfl, -⟩ | ⟨rfl, -⟩ := hs
    · exact known.1
    · exact known.2

end

lemma dispatchArm_written {agent schema : String} {other handler : Label} {id : Nat}
    (named : plan.HasSmallNumbers → fitsInt32 (Int64.ofNat id).toInt = true) (knows : plan.Knows p)
    (slot : storage.slot.index < p.symbols.size)
    (handled : plan.handler? agent schema = some handler) (hfail : lo ≤ fail.id ∧
    fail.id < p.labels.size) (after : lo ≤ next.id ∧ next.id < p.labels.size)
    (differs : lo ≤ other.id ∧ other.id < p.labels.size) : Written plan source lo p (other ::ₘ P)
      (dispatchArm base storage fail next other handler id) p P := by
  have arena : Pool.stateArena.index < p.symbols.size := Nat.lt_of_lt_of_le (by decide) knows.fixed
  have compare : (arith .cmp rax (Int64.ofNat id)).IsPlain plan.HasSmallNumbers p.symbols.size :=
    ⟨named, rfl, by simp [arith, symbols, memory, Operand.memory, loadedSymbols], rfl⟩
  have call : Written plan source lo p (other ::ₘ P) (callSequence [] handler []) p (other ::ₘ P) :=
    written_call (by simp) (.handler handled) (by simp)
  refine .cons (.single compare) (.cons (.branch differs.1 differs.2) ?_)
  refine .cons (.single (isPlain_lea rfl rfl (isKnown_symbol arena base))) ?_
  refine .cons (.single (isPlain_load rfl rfl (isKnown_symbol slot 16))) ?_
  refine .cons call (.cons (.single (isPlain_check _)) ?_)
  exact .cons (.branch hfail.1 hfail.2) (.cons (.jump after.1 after.2) (.bind rfl))

lemma dispatchArms_cons {rest : List SchemaLayout}
    (h : dispatchArms plan agent base storage fail next (schema :: rest) p = .ok (code, q)) :
    (plan.handler? agent.name schema.name = none ∧
        dispatchArms plan agent base storage fail next rest p = .ok (code, q)) ∨
      ∃ handler other p1 tail, plan.handler? agent.name schema.name = some handler ∧
        fresh "act.other" p = .ok (other, p1) ∧
        dispatchArms plan agent base storage fail next rest p1 = .ok (tail, q) ∧
        code = dispatchArm base storage fail next other handler schema.id ++ tail := by
  rw [dispatchArms] at h
  cases handled : plan.handler? agent.name schema.name with
  | none =>
    simp only [handled] at h
    exact .inl ⟨rfl, h⟩
  | some handler =>
    simp only [handled, bind_ok, pure_ok] at h
    obtain ⟨other, p1, differs, tail, _, more, rfl, rfl⟩ := h
    exact .inr ⟨handler, other, p1, tail, rfl, differs, more, rfl⟩

lemma dispatchArms_written {schemas : List SchemaLayout}
    (found : ∀ schema ∈ schemas, schema ∈ plan.layout.schemas)
    (stored : plan.storage? agent.name = some storage) (hfail : lo ≤ fail.id ∧
    fail.id < p.labels.size) (after : lo ≤ next.id ∧ next.id < p.labels.size)
    (h : dispatchArms plan agent base storage fail next schemas p = .ok (code, q)) :
    Lower.IsWritten plan source lo p code q := by
  induction schemas generalizing p code with
  | nil =>
    obtain ⟨rfl, rfl⟩ := pure_ok.1 h
    exact .plain (by simp)
  | cons schema rest ih =>
    rw [forall_mem_cons] at found
    obtain ⟨-, more⟩ | ⟨handler, other, p1, tail, handled, differs, later, rfl⟩ :=
      dispatchArms_cons h
    · exact ih found.2 hfail after more
    · intro hlo hk P
      obtain ⟨named, size, -⟩ := fresh_facts differs
      have hk1 := hk.fresh differs
      have arm : Written plan source lo p1 (other ::ₘ P)
          (dispatchArm base storage fail next other handler schema.id) p1 P :=
        dispatchArm_written (fun small => small schema found.1) hk1
          (hk1.queues _ _ stored).2 handled (by omega) (by omega) (by omega)
      exact (Written.fresh differs).after_nil
        (arm.append (ih found.2 (by omega) (by omega) later (by omega) hk1 P))

lemma mem_schemas_of_mem_agentUnits {layout : Layout} {agent : String}
    {pair : SchemaLayout × HandlerUnit} (h : pair ∈ layout.agentUnits agent) :
    pair.1 ∈ layout.schemas := by
  simp only [Layout.agentUnits, mem_filterMap, Option.map_eq_some_iff] at h
  obtain ⟨schema, known, u, -, rfl⟩ := h
  exact known

lemma act_ok (h : act plan fail agent storage p = .ok (code, q)) :
    ∃ next p1 arms, fresh "act.next" p = .ok (next, p1) ∧ agent.base ≤ maxInt32 ∧
      dispatchArms plan agent (Int32.ofNat agent.base) storage fail next
        ((plan.layout.agentUnits agent.name).map (·.1)) p1 = .ok (arms, q) ∧
      code = [arith .cmp (wordOf storage.slot 0) (.imm 0), .jcc .e next,
        .move (wordOf storage.slot 0) (.imm 0), .move rax (wordOf storage.slot 8)] ++
        arms ++ [label next] := by
  simp only [act, bind_ok] at h
  obtain ⟨next, p1, after, h⟩ := h
  split at h
  next => simp [bind_ok] at h
  next based =>
    simp only [bind_ok, pure_ok] at h
    obtain ⟨arms, _, armed, rfl, rfl⟩ := h
    exact ⟨next, p1, arms, after, not_lt.1 based, armed, rfl⟩

lemma act_written (stored : plan.storage? agent.name = some storage)
    (hfail : lo ≤ fail.id ∧ fail.id < p.labels.size)
    (h : act plan fail agent storage p = .ok (code, q)) :
    IsWritten plan source lo p code q := by
  obtain ⟨next, p1, arms, after, -, armed, rfl⟩ := act_ok h
  intro hlo hk P
  obtain ⟨named, size, -⟩ := fresh_facts after
  have hk1 := hk.fresh after
  have slot := (hk1.queues _ _ stored).2
  have armed : Written plan source lo p1 (next ::ₘ P) arms q (next ::ₘ P) := by
    refine dispatchArms_written ?_ stored (by omega) (by omega) armed (by omega) hk1 _
    intro schema known
    obtain ⟨pair, paired, rfl⟩ := mem_map.1 known
    exact mem_schemas_of_mem_agentUnits paired
  have test : Written plan source lo p1 (next ::ₘ P) [arith .cmp (wordOf storage.slot 0) (.imm 0),
        .jcc .e next, .move (wordOf storage.slot 0) (.imm 0), .move rax (wordOf storage.slot 8)]
      p1 (next ::ₘ P) := by
    refine .cons (.single (isPlain_arith_mem_imm rfl (isKnown_symbol slot 0) (by decide))) ?_
    refine .cons (.branch (by omega) (by omega)) ?_
    exact .cons (.single (isPlain_store_imm rfl (isKnown_symbol slot 0) (by decide)))
      (.single (isPlain_load rfl rfl (isKnown_symbol slot 8)))
  exact (Written.fresh after).after_nil ((test.append armed).append (.bind rfl))

/-- The cycle of the main routine: its labels are given in the order in which they are named. -/
def cycleCode (queued : List (AgentLayout × Storage)) (rest sense fail halt : Label)
    (first bound : Code) (actions : List Code) : Code :=
  first ++ [label rest] ++ bound ++ queued.flatMap (fun (_, storage) => checkQueue sense storage) ++
    [jmp halt, .label sense] ++
    queued.flatMap (fun (_, storage) => takeMessage storage) ++ actions.flatten ++
    [arith .add rbx (.imm 1), .jmp rest, .label fail, .move rdi rax, .call exit.label,
      .label halt, .zero .rdi, .call exit.label]

lemma mainRoutine_ok (h : mainRoutine plan p = .ok ((start, code), q)) :
    ∃ p0 rest p1 sense p2 fail p3 halt p4 first p5 bound actions,
      entry "_start" p = .ok (start, p0) ∧ fresh "rest" p0 = .ok (rest, p1) ∧
      fresh "sense" p1 = .ok (sense, p2) ∧ fresh "fail" p2 = .ok (fail, p3) ∧
      fresh "halt" p3 = .ok (halt, p4) ∧ seed plan p4 = .ok (first, p5) ∧
      cycleBound plan.settings halt = .ok bound ∧
      MapRun (fun pair => act plan fail pair.1 pair.2) p5 plan.queuedAgents actions q ∧
      code = [align 16, .label start, .arith .and rsp (.imm (-16)),
        .zero .rbx] ++ cycleCode plan.queuedAgents rest sense fail halt first bound actions := by
  simp only [mainRoutine, bind_ok, mapM_ok, lift_ok, pure_ok, Prod.mk.injEq] at h
  obtain ⟨_, p0, h0, rest, p1, h1, sense, p2, h2, fail, p3, h3, halt, p4, h4, first, p5,
    begins, bound, _, ⟨below, rfl⟩, actions, _, acts, ⟨rfl, rfl⟩, rfl⟩ := h
  exact ⟨p0, rest, p1, sense, p2, fail, p3, halt, p4, first, p5, bound, actions, h0, h1, h2, h3, h4,
    begins, below, acts, by simp [cycleCode]⟩

lemma cycleEnd_written (more : lo ≤ rest.id ∧ rest.id < p.labels.size) :
    Written plan source lo p (halt ::ₘ fail ::ₘ P) [arith .add rbx (.imm 1), .jmp rest,
        .label fail, .move rdi rax, .call exit.label,
        .label halt, .zero .rdi, .call exit.label] p P := by
  have hexit : ∀ {P : Multiset Label}, Written plan source lo p P (callSequence [] exit.label []) p
      P :=
    written_call (by simp) (.service (by decide)) (by simp)
  refine .cons (.single (isPlain_arith_imm (.inl rfl) (by decide))) ?_
  refine .cons (.jump more.1 more.2) (.cons (.bind (Multiset.cons_swap halt fail P)) ?_)
  refine .cons (.single (isPlain_move_reg rfl)) (.cons hexit (.cons (.bind rfl) ?_))
  exact .cons (.single (isPlain_zero rfl)) hexit

lemma cycle_written (hlo : lo ≤ rest.id)
    (ids : rest.id < sense.id ∧ sense.id < fail.id ∧ fail.id < halt.id ∧ halt.id < p.labels.size)
    (knows : plan.Knows p) (below : cycleBound plan.settings halt = .ok bound)
    (acts : MapRun (fun pair => act plan fail pair.1 pair.2) p plan.queuedAgents actions q) :
    Written plan source lo p (halt ::ₘ fail ::ₘ sense ::ₘ rest ::ₘ P)
      (cycleCode plan.queuedAgents rest sense fail halt [] bound actions) q P := by
  have hqueued : ∀ pair ∈ plan.queuedAgents, plan.storage? pair.1.name = some pair.2 :=
    fun pair paired => (mem_queuedAgents paired).2
  have more : halt ::ₘ fail ::ₘ sense ::ₘ rest ::ₘ P = rest ::ₘ halt ::ₘ fail ::ₘ sense ::ₘ P := by
    rw [Multiset.cons_swap sense rest, Multiset.cons_swap fail rest, Multiset.cons_swap halt rest]
  have hsense : halt ::ₘ fail ::ₘ sense ::ₘ P = sense ::ₘ halt ::ₘ fail ::ₘ P := by
    rw [Multiset.cons_swap fail sense, Multiset.cons_swap halt sense]
  have wait : Written plan source lo p (halt ::ₘ fail ::ₘ sense ::ₘ rest ::ₘ P)
      ([label rest] ++ bound ++ plan.queuedAgents.flatMap (fun pair => checkQueue sense pair.2) ++
        [jmp halt, .label sense]) p (halt ::ₘ fail ::ₘ P) := by
    refine (((Written.bind more).append (cycleBound_written ?_ below ?_ knows _)).append
      (checkQueues_written hqueued ?_ ?_ knows _)).append (.cons (.jump ?_ ?_) (.bind hsense))
    all_goals omega
  have take : Written plan source lo p (halt ::ₘ fail ::ₘ P)
      (plan.queuedAgents.flatMap fun pair => takeMessage pair.2) p (halt ::ₘ fail ::ₘ P) :=
    takeMessages_written hqueued (by omega) knows _
  have hact : Written plan source lo p (halt ::ₘ fail ::ₘ P) actions.flatten q
      (halt ::ₘ fail ::ₘ P) := by
    refine acts.written p.labels.size le_rfl ?_ (by omega) knows _
    intro pair paired p' q' code le' h
    exact act_written (hqueued pair paired) (by omega) h
  have le := hact.labels_le
  have body := (wait.append take).append hact
  simpa [cycleCode] using body.append (cycleEnd_written ⟨hlo, by omega⟩)

lemma cycleCode_eq_append : cycleCode queued rest sense fail halt first bound actions =
      first ++ cycleCode queued rest sense fail halt [] bound actions := by
  simp [cycleCode]

lemma cycleCode_ends : ∃ front, cycleCode queued rest sense fail halt first bound actions =
      front ++ [.call exit.label] :=
  ⟨_, (append_assoc _ [arith .add rbx (.imm 1), .jmp rest, .label fail,
    .move rdi rax, .call exit.label, .label halt, .zero .rdi] [call exit.label]).symm⟩

lemma mainRoutine_written (h : mainRoutine plan p = .ok ((start, code), q)) :
    ∃ p0 body front, entry "_start" p = .ok (start, p0) ∧
      code = [align 16, .label start, .arith .and rsp (.imm (-16))] ++ body ∧
      body = front ++ [.call exit.label] ∧
      (plan.Knows p0 → ∀ P, Written plan .external p0.labels.size p0 P body q P) := by
  obtain ⟨p0, rest, p1, sense, p2, fail, p3, halt, p4, first, p5, bound, actions, h0, h1,
    h2, h3, h4, begins, below, acts, rfl⟩ := mainRoutine_ok h
  obtain ⟨front, before⟩ := cycleCode_ends
  refine ⟨p0, .zero .rbx :: cycleCode plan.queuedAgents rest sense fail halt first bound actions,
    .zero .rbx :: front, h0, rfl, congrArg _ before, ?_⟩
  intro hk P
  obtain ⟨id1, size1, -⟩ := fresh_facts h1
  obtain ⟨id2, size2, -⟩ := fresh_facts h2
  obtain ⟨id3, size3, -⟩ := fresh_facts h3
  obtain ⟨id4, size4, -⟩ := fresh_facts h4
  have hk4 := (((hk.fresh h1).fresh h2).fresh h3).fresh h4
  have cycle : Written plan .external p0.labels.size p4 (halt ::ₘ fail ::ₘ sense ::ₘ rest ::ₘ P)
      (cycleCode plan.queuedAgents rest sense fail halt first bound actions) q P := by
    have seed : Written plan .external p0.labels.size p4 _ first p5
        (halt ::ₘ fail ::ₘ sense ::ₘ rest ::ₘ P) := seed_written begins (by omega) hk4 _
    have le := seed.labels_le
    rw [cycleCode_eq_append]
    exact seed.append (cycle_written (by omega) (by omega) (seed.knows hk4) below acts)
  refine (Written.fresh h1).after_nil <| (Written.fresh h2).after_nil <|
    (Written.fresh h3).after_nil <| (Written.fresh h4).after_nil ?_
  exact .cons (.single (isPlain_zero rfl)) cycle

lemma mainRoutine_grows (knows : plan.Knows p) (h : mainRoutine plan p = .ok ((start, code), q)) :
    p.Grows q := by
  obtain ⟨p0, _, _, starts, -, -, body⟩ := mainRoutine_written h
  have begun : p.Grows p0 := .names (.entry starts)
  exact begun.trans (body (begun.knows knows) 0).grows

end

end Emit

end AgentCompiler
