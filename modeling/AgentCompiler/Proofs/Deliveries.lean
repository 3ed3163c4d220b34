import AgentCompiler.Proofs.ProgramText

/-!
The messages that code puts into queues, read off the code itself: queue, number of the schema and
register of the payload stand before each call. In a whole program they are those of the seed and of
the statements that emit, each to its destinations in the order of the route.
-/

namespace AgentCompiler

open Instruction Lower Service Stmt List Register

variable {live : List Register} {schema : SchemaLayout} {payload : Register} {source : Endpoint}
  {program : Program} {layout : Layout} {settings : Settings} {body : List Stmt}

/-- What a call that puts a message into a queue passes. -/
structure Delivery where
  queue : SymbolId
  schema : Int64
  payload : Register
  deriving DecidableEq

/-- Reads the arguments of a delivery off the instructions passed, the last one first. -/
def Delivery.ofPassed : Code → Option Delivery
  | .mov .qword (.reg .rdx) (.reg payload) :: .mov .qword (.reg .rsi) (.imm schema) ::
      .lea .rdi ⟨.symbol queue, none, addend⟩ :: _ =>
      if addend = 0 then some ⟨queue, schema, payload⟩ else none
  | _ => none

/-- The deliveries of code that comes after the instructions passed. A call whose arguments cannot
be read counts as one, without them. -/
def deliveriesFrom (passed : Code) : Code → List (Option Delivery)
  | [] => []
  | i :: rest =>
    (if i = .call enqueue.label then [Delivery.ofPassed passed] else []) ++ deliveriesFrom
      (i :: passed) rest

def deliveries (code : Code) : List (Option Delivery) := deliveriesFrom [] code

lemma deliveriesFrom_append (passed first second : Code) : deliveriesFrom passed (first ++ second) =
      deliveriesFrom passed first ++ deliveriesFrom (first.reverse ++ passed) second := by
  induction first generalizing passed with
  | nil => rfl
  | cons i rest ih => simp [deliveriesFrom, ih]

lemma deliveriesFrom_eq_nil {code : Code} (h : .call enqueue.label ∉ code) (passed : Code) :
    deliveriesFrom passed code = [] := by
  induction code generalizing passed with
  | nil => rfl
  | cons i rest ih =>
    rw [mem_cons, not_or] at h
    rw [deliveriesFrom, if_neg (Ne.symm h.1), ih h.2, nil_append]

lemma deliveriesFrom_callSequence {storage : Storage} (carried : payload ∈ scratch)
    (passed : Code) :
    deliveriesFrom passed (callSequence live enqueue.label
      (deliveryArguments schema payload storage)) =
      [some ⟨storage.queue, Int64.ofNat schema.id, payload⟩] := by
  have ne : payload ≠ .rdx := by
    rintro rfl
    revert carried
    decide
  have pass : passArguments (deliveryArguments schema payload storage) =
      [.lea .rdi (.symbol storage.queue 0), .move rsi (Int64.ofNat schema.id),
        .move rdx payload] := by
    simp [passArguments, deliveryArguments, arguments, Argument.pass, ne]
  have adjust : ∀ (c : Bool) (op : AluOp), call enqueue.label ∉
      (if c then [arith op rsp (.imm 8)] else [] : Code) := by
    intro c op
    cases c <;> simp [arith]
  simp only [callSequence, pass, append_assoc, cons_append, nil_append]
  rw [deliveriesFrom_append, deliveriesFrom_eq_nil (by simp), deliveriesFrom_append,
    deliveriesFrom_eq_nil (adjust _ _)]
  simp only [deliveriesFrom, nil_append]
  rw [deliveriesFrom_append, deliveriesFrom_eq_nil (adjust _ _), deliveriesFrom_eq_nil (by simp)]
  rfl

/-- What stands in code for a message sent by a source: one delivery to each destination, in the
order of the route, all of them with one number and one payload. -/
def Plan.Sends (plan : Plan) (send : Endpoint × String) (sent : List (Option Delivery)) : Prop :=
  ∃ schema payload, plan.layout.schema? send.2 = some schema ∧
    List.Forall₂ (fun goal m => ∃ storage, plan.storage? goal = some storage ∧
      m = some ⟨storage.queue, Int64.ofNat schema.id, payload⟩)
      (plan.layout.destinations send.1 schema.name) sent

/-- Code that sends these messages in this order and no others, whatever comes before it. -/
def Plan.Delivers (plan : Plan) (sends : List (Endpoint × String)) (code : Code) : Prop :=
  ∀ passed, ∃ parts, List.Forall₂ plan.Sends sends parts ∧ deliveriesFrom passed code =
    parts.flatten

namespace Plan.Delivers

variable {plan : Plan} {sends sends' : List (Endpoint × String)} {code code' : Code}

lemma of_quiet (h : .call enqueue.label ∉ code) : plan.Delivers [] code :=
  fun passed => ⟨[], .nil, deliveriesFrom_eq_nil h passed⟩

lemma append (h : plan.Delivers sends code) (h' : plan.Delivers sends' code') :
    plan.Delivers (sends ++ sends') (code ++ code') := by
  intro passed
  obtain ⟨parts, split, coded⟩ := h passed
  obtain ⟨parts', split', coded'⟩ := h' (code.reverse ++ passed)
  refine ⟨parts ++ parts', rel_append split split', ?_⟩
  rw [deliveriesFrom_append, coded, coded', flatten_append]

lemma of_storages {name : String} {storages : List Storage}
    (known : plan.layout.schema? name = some schema) (carried : payload ∈ scratch)
    (hstorages : List.Forall₂ (fun goal storage => plan.storage? goal = some storage)
      (plan.layout.destinations source schema.name) storages) :
    plan.Delivers [(source, name)] (storages.flatMap fun storage =>
      callSequence live enqueue.label (deliveryArguments schema payload storage)) := by
  intro passed
  have read : deliveriesFrom passed (storages.flatMap fun storage =>
      callSequence live enqueue.label (deliveryArguments schema payload storage)) =
      storages.map fun storage => some ⟨storage.queue, Int64.ofNat schema.id, payload⟩ := by
    clear hstorages
    induction storages generalizing passed with
    | nil => rfl
    | cons storage rest ih =>
      rw [flatMap_cons, deliveriesFrom_append, deliveriesFrom_callSequence carried, ih]
      rfl
  refine ⟨[_], .cons ⟨schema, payload, known, ?_⟩ .nil, read.trans (append_nil _).symm⟩
  rw [forall₂_map_right_iff]
  exact hstorages.imp fun goal storage stored => ⟨storage, stored, rfl⟩

end Plan.Delivers

section

variable {plan : Plan} {p q : Pool} {code : Code}

lemma Layout.exists_silent (layout : Layout) : ∃ source, ∀ schema, layout.destinations source
    schema = [] := by
  obtain ⟨name, named⟩ := Infinite.exists_notMem_finset (layout.routes.map (·.source.name)).toFinset
  rw [mem_toFinset] at named
  refine ⟨.agent name, fun schema => ?_⟩
  have absent : layout.routes.find? (fun r => r.source == .agent name && r.schema ==
      schema) = none := by
    rw [find?_eq_none]
    intro route routed matched
    simp only [Bool.and_eq_true, beq_iff_eq] at matched
    exact named (mem_map.2 ⟨route, routed, by rw [matched.1]; rfl⟩)
  rw [Layout.destinations, Layout.destinationsIn, absent]

def Plan.IsApart (plan : Plan) : Prop := ∀ pair, pair ∈ plan.handlers ∨ pair ∈ plan.helpers →
    pair.2 ≠ enqueue.label

lemma eq_of_call_mem {l target : Label} {args : List Argument}
    (h : .call l ∈ callSequence live target args) : l = target := by
  have part := callPart_of_mem h
  generalize called : call l = i at part
  cases part <;> simp [move, arith] at called
  exact called

lemma Written.quiet {lo : Nat} {P Q : Multiset Label} (h : Written plan source lo p P code q Q)
    (hapart : plan.IsApart) (silent : ∀ schema, plan.layout.destinations source schema = []) :
    .call enqueue.label ∉ code := by
  induction h with
  | plain simple =>
    intro hi
    have straight := (simple _ hi).straight
    simp [isStraight] at straight
  | interns | fresh | bind | jump | branch => simp
  | @call p P live target args alive permits address =>
    intro hi
    have aimed := eq_of_call_mem hi
    cases permits with
    | service ne => exact ne (label_injective aimed.symm)
    | helper lookup => exact hapart _ (.inr (mem_of_lookup_eq_some lookup)) aimed.symm
    | handler lookup => exact hapart _ (.inl (mem_of_lookup_eq_some lookup)) aimed.symm
    | delivery _ goal => simp [silent] at goal
  | append _ _ ih1 ih2 => exact fun hi => (mem_append.1 hi).elim ih1 ih2

lemma quiet_of_written (h : ∀ source, IsWritten plan source 0 p code q)
    (hapart : plan.IsApart) (knows : plan.Knows p) : .call enqueue.label ∉ code := by
  obtain ⟨source, silent⟩ := plan.layout.exists_silent
  exact (h source (Nat.zero_le _) knows 0).quiet hapart silent

end

mutual

/-- The schemas of the messages that a statement emits, at any depth, in the order of the text. -/
def Stmt.emits : Stmt → List String
  | .emit schema _ => [schema]
  | .branch _ onTrue onFalse => emitsIn onTrue ++ emitsIn onFalse
  | .loop _ body | .block body => emitsIn body
  | _ => []

def Stmt.emitsIn : List Stmt → List String
  | [] => []
  | s :: rest => s.emits ++ emitsIn rest

end

namespace Lower

variable {plan : Plan} {r : Routine} {f f' : Frame} {p q : Pool} {v : Value} {code : Code}

lemma condition_delivers {cond : Expr} {otherwise : Label} {what : String} (hapart : plan.IsApart)
    (knows : plan.Knows p) (h : condition plan r cond otherwise what f p = .ok ((code, f'), q)) :
    plan.Delivers [] code := by
  obtain ⟨v, first, e, begins, -, -, rfl⟩ := condition_ok h
  have quiet := quiet_of_written (fun _ => expression_written begins) hapart knows
  exact .of_quiet (by simp [quiet, check])

lemma message_delivers {schema : String} {fields : List (String × Expr)} (hapart : plan.IsApart)
    (knows : plan.Knows p) (h : message plan r schema fields f p = .ok ((code, f'), q)) :
    plan.Delivers [(.agent r.agent.name, schema)] code := by
  obtain ⟨s, hs, ⟨absent, -, -, rfl⟩ | ⟨payload, first, f1, p1, second, f2, last, begins,
    later, final, -, rfl⟩⟩ := message_ok h
  · exact fun passed => ⟨[[]], .cons ⟨s, .rax, hs, absent ▸ .nil⟩ .nil, rfl⟩
  · have allocate : ∀ source, IsWritten plan source 0 p first p1 := fun _ =>
      callValue_written (.service (by decide)) (by simp) begins
    have hk1 := ((allocate .external).grows (Nat.zero_le _) knows).knows knows
    have quiet1 := quiet_of_written allocate hapart knows
    have quiet2 := quiet_of_written (fun _ => messageFields_written later) hapart hk1
    obtain ⟨-, -, storages, stored, rfl⟩ := deliver_ok final
    exact ((Plan.Delivers.of_quiet quiet1).append (.of_quiet quiet2)).append
      (.of_storages hs (callValue_takes begins).mem_scratch stored)

lemma statements_delivers
    (ih : ∀ s ∈ body, ∀ {f f' : Frame} {p q : Pool} {code : Code}, plan.Knows p →
      r.epilogue.id < p.labels.size → statement plan r s f p = .ok ((code, f'), q) →
        plan.Delivers (s.emits.map (Prod.mk (.agent r.agent.name))) code)
    (knows : plan.Knows p) (label : r.epilogue.id < p.labels.size)
    (h : statements plan r body f p = .ok ((code, f'), q)) :
    plan.Delivers ((emitsIn body).map (Prod.mk (.agent r.agent.name))) code := by
  induction body generalizing f p code with
  | nil =>
    obtain ⟨-, -, rfl⟩ := statements_nil h
    simpa [emitsIn] using Plan.Delivers.of_quiet not_mem_nil
  | cons s rest more =>
    obtain ⟨first, f1, p1, tail, begins, later, rfl⟩ := statements_cons h
    have grows := statement_grows knows label begins
    rw [emitsIn, map_append]
    exact (ih s mem_cons_self knows label begins).append
      (more (fun s hs => ih s (mem_cons_of_mem _ hs)) (grows.knows knows)
      (label.trans_le grows.labels_le) later)

lemma statement_delivers {s : Stmt} (hapart : plan.IsApart) (knows : plan.Knows p)
    (bound : r.epilogue.id < p.labels.size) (h : statement plan r s f p = .ok ((code, f'), q)) :
    plan.Delivers (s.emits.map (Prod.mk (.agent r.agent.name))) code := by
  induction s using induction generalizing f f' p q code with
  | emit schema fields =>
    rw [statement] at h
    simpa [emits] using message_delivers hapart knows h
  | branch cond onTrue onFalse ihTrue ihFalse =>
    obtain ⟨other, p1, join, p2, test, f1, p3, first, f2, p4, second, h1, h2, tested, begins, later,
      rfl⟩ := statement_branch h
    have grows2 := (Pool.Grows.names (.fresh h1)).trans (.names (.fresh h2))
    have grows3 := grows2.trans (condition_grows (grows2.knows knows) tested)
    have tested := condition_delivers hapart (grows2.knows knows) tested
    have hk3 := grows3.knows knows
    have label3 := bound.trans_le grows3.labels_le
    have grows4 := block_grows hk3 label3 begins
    obtain ⟨e1, body1, -⟩ := block_ok begins
    obtain ⟨e2, body2, -⟩ := block_ok later
    have begins := statements_delivers ihTrue hk3 label3 body1
    have later := statements_delivers ihFalse (grows4.knows hk3)
      (label3.trans_le grows4.labels_le) body2
    have jump : plan.Delivers [] [jmp join, .label other] := .of_quiet (by simp)
    have joined : plan.Delivers [] [label join] := .of_quiet (by simp)
    simpa [emits] using (((tested.append begins).append jump).append later).append joined
  | loop cond body ih =>
    obtain ⟨head, p1, leave, p2, test, f1, p3, inner, h1, h2, tested, nested, rfl⟩ :=
      statement_loop h
    have grows2 := (Pool.Grows.names (.fresh h1)).trans (.names (.fresh h2))
    have grows3 := grows2.trans (condition_grows (grows2.knows knows) tested)
    have tested := condition_delivers hapart (grows2.knows knows) tested
    obtain ⟨e, lowered, -⟩ := block_ok nested
    have nested := statements_delivers ih (grows3.knows knows)
      (bound.trans_le grows3.labels_le) lowered
    have headed : plan.Delivers [] [label head] := .of_quiet (by simp)
    have jump : plan.Delivers [] [jmp head, .label leave] := .of_quiet (by simp)
    simpa [emits] using ((headed.append tested).append nested).append jump
  | block body ih =>
    rw [statement_block] at h
    obtain ⟨e, lowered, -⟩ := block_ok h
    simpa [emits] using statements_delivers ih knows bound lowered
  | declare | assign | write | report | ret =>
    have quiet := quiet_of_written (fun _ => simple_written rfl ⟨Nat.zero_le _, bound⟩ h)
      hapart knows
    simpa [emits] using Plan.Delivers.of_quiet quiet

end Lower

def Template.emits (t : Template) : List String := t.handlers.flatMap (fun h => emitsIn h.body) ++
    t.helpers.flatMap fun h => emitsIn h.body

namespace Program

def sendsOf (program : Program) (agent : AgentLayout) : List (Endpoint × String) :=
  ((program.template? agent.template).map Template.emits).getD [] |>.map
    (Prod.mk (.agent agent.name))

def sends (program : Program) (layout : Layout) : List (Endpoint × String) :=
  (.external, program.seed.schema) :: layout.agents.flatMap program.sendsOf

end Program

namespace Emit

variable {plan : Plan} {p q : Pool} {code : Code}

lemma MapRun.delivers {α : Type} {f : α → Emit Code} {sends : α → List (Endpoint × String)}
    {items : List α} {codes : List Code} (h : MapRun f p items codes q) (knows : plan.Knows p)
    (hf : ∀ a {p q : Pool} {code : Code}, plan.Knows p → f a p = .ok (code, q) →
      plan.Delivers (sends a) code ∧ p.Grows q) : plan.Delivers (items.flatMap sends)
      codes.flatten ∧ p.Grows q := by
  induction h with
  | nil p => exact ⟨.of_quiet (by simp), .refl p⟩
  | cons first _ ih =>
    obtain ⟨delivers, grows⟩ := hf _ knows first
    obtain ⟨rest, grows'⟩ := ih (grows.knows knows)
    exact ⟨delivers.append rest, grows.trans grows'⟩

lemma seedDeliveries_ok {goals : List String} {deliveries : List Code}
    (h : MapRun (seedDelivery plan schema) p goals deliveries q) :
    p = q ∧ ∃ storages, List.Forall₂ (fun g s => plan.storage? g = some s) goals storages ∧
      deliveries.flatten = storages.flatMap fun storage =>
        callSequence [] enqueue.label (deliveryArguments schema .r14 storage) := by
  induction h with
  | nil p => exact ⟨rfl, [], .nil, rfl⟩
  | cons first _ ih =>
    obtain ⟨storage, stored, rfl, rfl⟩ := seedDelivery_ok first
    obtain ⟨rfl, storages, hstorages, coded⟩ := ih
    exact ⟨rfl, storage :: storages, .cons stored hstorages, by simp [coded]⟩

variable (hapart : plan.IsApart)
include hapart

section

variable {agent : AgentLayout} {template : Template}

lemma routine_delivers {r : Routine} {f frame : Frame} {p1 : Pool} {hint : String}
    {entry : Label} {params : Nat} (knows : plan.Knows p)
    (leave : fresh hint p = .ok (r.epilogue, p1))
    (lowered : block plan r body f p1 = .ok ((code, frame), q)) :
    plan.Delivers ((emitsIn body).map (Prod.mk (.agent r.agent.name)))
      (prologue entry frame params ++ code ++ epilogue r.epilogue frame) := by
  obtain ⟨named, size, -⟩ := fresh_facts leave
  obtain ⟨e, inner, -⟩ := block_ok lowered
  have coded := statements_delivers (fun _ _ => statement_delivers hapart) (knows.fresh leave)
    (by omega) inner
  have front : call enqueue.label ∉ prologue entry frame params := by
    simp only [prologue]
    split <;> simp [move, arith]
  have back : call enqueue.label ∉ epilogue r.epilogue frame := by
    simp [epilogue, move, zero, arith]
  simpa using ((Plan.Delivers.of_quiet front).append coded).append (.of_quiet back)

lemma handler_delivers {h : Handler} (knows : plan.Knows p)
    (run : handler plan agent template h p = .ok (code, q)) :
    plan.Delivers ((emitsIn h.body).map (Prod.mk (.agent agent.name))) code ∧ p.Grows q := by
  obtain ⟨schema, entry, leave, p1, body, frame, -, -, leaves, inner, rfl⟩ := handler_ok run
  exact ⟨routine_delivers hapart knows leaves inner, handler_grows knows run⟩

lemma helper_delivers {h : Helper} (knows : plan.Knows p)
    (run : helper plan agent template h p = .ok (code, q)) :
    plan.Delivers ((emitsIn h.body).map (Prod.mk (.agent agent.name))) code ∧ p.Grows q := by
  obtain ⟨entry, leave, p1, f, body, frame, -, leaves, -, inner, rfl⟩ := helper_ok run
  exact ⟨routine_delivers hapart knows leaves inner, helper_grows knows run⟩

lemma agentRoutines_delivers (knows : plan.Knows p)
    (h : agentRoutines plan agent p = .ok (code, q)) :
    plan.Delivers (plan.program.sendsOf agent) code ∧ p.Grows q := by
  obtain ⟨template, handlers, p1, helpers, kept, handled, helped, rfl⟩ := agentRoutines_ok h
  obtain ⟨first, grows⟩ := handled.delivers knows fun _ => handler_delivers hapart
  obtain ⟨second, grows'⟩ := helped.delivers (grows.knows knows) fun _ => helper_delivers hapart
  refine ⟨?_, grows.trans grows'⟩
  simpa [Program.sendsOf, kept, Template.emits, map_flatMap] using first.append second

end

lemma seed_delivers (knows : plan.Knows p) (h : seed plan p = .ok (code, q)) :
    plan.Delivers [(.external, plan.program.seed.schema)] code := by
  obtain ⟨schema, fields, p1, deliveries, known, filled, delivered, rfl⟩ := seed_ok h
  obtain ⟨-, storages, stored, coded⟩ := seedDeliveries_ok delivered
  have allocated : enqueue.label ≠ allocate.label := by decide
  have quiet :=
    quiet_of_written (fun _ => filled.written 0 (Nat.zero_le _) fun _ _ _ _ _ _ h =>
      seedField_written h) hapart knows
  rw [coded]
  refine Plan.Delivers.append (.of_quiet ?_) (.of_storages known (by decide) stored)
  simp only [mem_append, not_or]
  exact ⟨⟨fun call => allocated (eq_of_call_mem call), by simp [move]⟩, quiet⟩

lemma mainRoutine_delivers {start : Label} (knows : plan.Knows p)
    (h : mainRoutine plan p = .ok ((start, code), q)) :
    plan.Delivers [(.external, plan.program.seed.schema)] code := by
  obtain ⟨p0, rest, p1, sense, p2, fail, p3, halt, p4, first, p5, bound, actions, h0, h1,
    h2, h3, h4, begins, below, acts, rfl⟩ := mainRoutine_ok h
  obtain ⟨id1, size1, -⟩ := fresh_facts h1
  obtain ⟨id2, size2, -⟩ := fresh_facts h2
  obtain ⟨id3, size3, -⟩ := fresh_facts h3
  obtain ⟨id4, size4, -⟩ := fresh_facts h4
  have hk4 := ((((knows.names (.entry h0)).fresh h1).fresh h2).fresh h3).fresh h4
  have seed : IsWritten plan .external 0 p4 first p5 := seed_written begins
  have grows5 := seed.grows (Nat.zero_le _) hk4
  have le := grows5.labels_le
  obtain ⟨source, silent⟩ := plan.layout.exists_silent
  have cycle : Written plan source 0 p5 (halt ::ₘ fail ::ₘ sense ::ₘ rest ::ₘ 0)
      (cycleCode plan.queuedAgents rest sense fail halt [] bound actions) q 0 :=
    cycle_written (Nat.zero_le _) (by omega) (grows5.knows hk4) below acts
  rw [cycleCode_eq_append]
  have head : plan.Delivers [] [align 16, .label start, .arith .and rsp (.imm (-16)),
    .zero .rbx] := .of_quiet (by simp [zero, arith])
  exact head.append ((seed_delivers hapart hk4 begins).append
    (.of_quiet (cycle.quiet hapart silent)))

end Emit

def Instruction.callee? : Instruction → Option Label
  | call l => some l
  | _ => none

lemma ServiceText.quiet {cap heapSize known : Nat} {s : Service} {locals : List Label}
    {code : Code} (h : ServiceText cap heapSize known s locals code) :
    .call Service.enqueue.label ∉ code := by
  intro call
  have callee : Service.enqueue.label ∈ code.filterMap callee? := mem_filterMap.2 ⟨_, call, rfl⟩
  revert callee
  clear call
  cases h
  all_goals
    conv in List.filterMap _ _ => cbv
    decide

lemma Plan.IsMade.isApart {plan : Plan} {q : Pool} (h : plan.IsMade program layout settings q) :
    plan.IsApart := by
  intro pair paired eq
  have label := label_id_lt .enqueue
  have bound := (h.label_bounds paired).1
  rw [eq] at bound
  omega

lemma generate_delivers {object : ObjectCode} {plan : Plan} {pool : Pool}
    (planned : Plan.make program layout settings .initial = .ok (plan, pool))
    (h : generate program layout settings = .ok object) : plan.Delivers (program.sends layout)
    object.code := by
  obtain ⟨plan', pool', start, main, p1, codes, p2, support, q, planned', started, coded, supported,
    ⟨grows1, grows2, -⟩, rfl⟩ := generate_ok h
  obtain ⟨rfl, rfl⟩ := Prod.mk.inj (Except.ok.inj (planned.symm.trans planned'))
  have made := Plan.make_isMade planned
  have hapart := made.isApart
  have started := Emit.mainRoutine_delivers hapart made.knows started
  have hk1 := grows1.knows made.knows
  obtain ⟨routines, -⟩ := coded.delivers hk1 fun _ => Emit.agentRoutines_delivers hapart
  obtain ⟨services, served, -, rfl⟩ := Emit.services_ok supported
  have quiet : .call enqueue.label ∉ services.flatMap (·.code) := by
    intro call
    obtain ⟨u, hu, call⟩ := mem_flatMap.1 call
    exact (served.text (grows2.knows hk1) u hu).quiet call
  have all := (started.append routines).append (.of_quiet quiet)
  rwa [append_nil, made.program_eq, made.layout_eq] at all

end AgentCompiler
