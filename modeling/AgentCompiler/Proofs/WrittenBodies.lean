import AgentCompiler.Proofs.Writing

/-!
Every expression, statement and body is written in the steps of `Written`, and binds all labels that
it has named.
-/

namespace AgentCompiler

open Instruction List Register Written Address Emit

variable {op : BinaryOperator}

section

variable {small : Prop} {n : Nat} {type : ValueType}

lemma isPlain_loadValue {reg base : Register} (own : reg ∈ scratch) (disp : Int32) :
    (loadValue type reg (.near base disp)).IsPlain small n := by
  have free := isStackRegister_of_mem_scratch own
  have known := isKnown_near base disp (n := n)
  cases type with
  | bool => exact isPlain_movZeroByte free rfl (by simpa [Place.memory] using known)
  | i32 => exact isPlain_movSignDword free rfl (by simpa [Place.memory] using known)
  | i64 | str => exact isPlain_load free rfl known

lemma isPlain_storeValue {base src : Register} (disp : Int32) :
    (storeValue type (.near base disp) src).IsPlain small n :=
  isPlain_store rfl (isKnown_near base disp)

lemma isPlain_unaryInstruction {op : UnaryOperator} {reg : Register}
    (own : reg ∈ scratch) : (Lower.unaryInstruction op reg).IsPlain small n := by
  have free := isStackRegister_of_mem_scratch own
  cases op with
  | neg | bitNot => exact isPlain_unary free
  | not => exact isPlain_arith_imm (.inl free) (by decide)

lemma isPlain_compareCode {cond : Condition} {a b : Register} (mem : a ∈ Register.scratch) :
    ∀ i ∈ Lower.compareCode cond a b, i.IsPlain small n := by
  have free := isStackRegister_of_mem_scratch mem
  simp only [Lower.compareCode, forall_mem_cons, not_mem_nil, IsEmpty.forall_iff, implies_true,
    and_true]
  exact ⟨isPlain_arith_reg (.inr rfl), isPlain_setcc free, isPlain_movZeroByte free rfl
    (by simp [Place.memory])⟩

lemma isPlain_arithmeticCode {a b : Register}
    (mem : a ∈ Register.scratch) : ∀ i ∈ Lower.arithmeticCode op a b, i.IsPlain small n := by
  have free := isStackRegister_of_mem_scratch mem
  cases op <;> simp only [Lower.arithmeticCode, forall_mem_cons, not_mem_nil,
      IsEmpty.forall_iff, implies_true, and_true]
  case mul => exact isPlain_imul free
  case shl | shr => exact ⟨isPlain_move_reg rfl, isPlain_shift_cl free⟩
  all_goals exact isPlain_arith_reg (.inl free)

end

def Stmt.isSimple : Stmt → Bool
  | .declare .. | .assign .. | .write _ | .report _ | .ret _ => true
  | _ => false

namespace Lower

variable {plan : Plan} {r : Routine} {f f' : Frame} {p q : Pool} {v : Value} {code : Code}
  {lo : Nat} {P : Multiset Label} {source : Endpoint} {live : List Register} {args : List Argument}
  {otherwise target : Label} {what : String} {cond e : Expr}

def IsWritten (plan : Plan) (source : Endpoint) (lo : Nat) (p : Pool) (code : Code) (q : Pool) :
    Prop :=
  lo ≤ p.labels.size → plan.Knows p → ∀ P, Written plan source lo p P code q P

namespace IsWritten

lemma grows (h : IsWritten plan source lo p code q) (hlo : lo ≤ p.labels.size) (hk : plan.Knows p) :
    p.Grows q :=
  (h hlo hk 0).grows

lemma plain (h : ∀ i ∈ code, i.IsPlain plan.HasSmallNumbers p.symbols.size) :
    IsWritten plan source lo p code p := fun _ _ _ => .plain h

lemma single {i : Instruction} (h : i.IsPlain plan.HasSmallNumbers p.symbols.size) :
    IsWritten plan source lo p [i] p := fun _ _ _ => .single h

lemma append_of_le {s : Pool} {first second : Code} (h : IsWritten plan source lo p first s)
    (h' : p.labels.size ≤ s.labels.size → IsWritten plan source lo s second q) :
    IsWritten plan source lo p (first ++ second) q := by
  intro hlo hk P
  have begins := h hlo hk P
  exact begins.append (h' begins.labels_le (hlo.trans begins.labels_le) (begins.knows hk) P)

lemma append {s : Pool} {first second : Code} (h : IsWritten plan source lo p first s)
    (h' : IsWritten plan source lo s second q) : IsWritten plan source lo p (first ++ second) q :=
  h.append_of_le fun _ => h'

lemma after_interns {content : Bytes} {s : SymbolId} {p1 : Pool} (h : p.Interns content s p1)
    (h' : s.index < p1.symbols.size → IsWritten plan source lo p1 code q) :
    IsWritten plan source lo p code q := by
  intro hlo hk P
  obtain ⟨hk1, hs⟩ := hk.interns h
  exact (interns h).after_nil (h' hs (h.labels_eq ▸ hlo) hk1 P)

end IsWritten

lemma written_call (alive : live <+: scratch)
    (call : plan.Permits source target args) (hargs : ∀ s d, Argument.address s d ∉ args) :
    Written plan source lo p P (callSequence live target args) p P :=
  .call alive call fun s d h => absurd h (hargs s d)

lemma callValue_written {kind : ValueKind}
    (call : plan.Permits source target args) (hargs : ∀ s d, Argument.address s d ∉ args)
    (h : callValue r target args kind f p = .ok (((v, code), f'), q)) : IsWritten plan source lo p
    code q := by
  obtain ⟨reg, -, own, rfl, -, rfl⟩ := callValue_ok h
  have free := isStackRegister_of_mem_scratch (Frame.takes_alloc own).mem_scratch
  exact fun _ _ _ => (written_call (List.take_prefix _ _) call hargs).append
    (.single (isPlain_move_reg free))

section

variable {source : Endpoint} {isQuotient : Bool} {es : List Expr}

lemma integer_written {value : Int64} (h : integer r value f p = .ok (((v, code), f'), q)) :
    IsWritten plan source lo p code q := by
  obtain ⟨reg, own, -, ⟨-, rfl, rfl⟩ | ⟨s, hs, rfl⟩⟩ := integer_ok h
  all_goals have free := isStackRegister_of_mem_scratch (Frame.takes_alloc own).mem_scratch
  · exact .single (isPlain_move_imm free value)
  · exact .after_interns (.word hs) fun known =>
      .single (isPlain_load free rfl (isKnown_symbol known 0))

lemma divisionCode_written {a b : Register} {stop : Code} {nonzero general done : Label}
    (mem : a ∈ scratch) (hstop : ∀ {P : Multiset Label}, Written plan source lo p P stop p P)
    (hnonzero : lo ≤ nonzero.id ∧ nonzero.id < p.labels.size)
    (hgeneral : lo ≤ general.id ∧ general.id < p.labels.size)
    (hdone : lo ≤ done.id ∧ done.id < p.labels.size) :
    Written plan source lo p (done ::ₘ general ::ₘ nonzero ::ₘ P)
      (divisionCode isQuotient a b stop nonzero general done) p P := by
  have free := isStackRegister_of_mem_scratch mem
  have last : Written plan source lo p (done ::ₘ general ::ₘ P)
      [.arith .cmp b (.imm (-1)), .jcc .ne general, if isQuotient then .unary .neg
        (.reg a) else .zero a, .jmp done, .label general, .move rax a, .cqo, .unary .idiv (.reg b),
        .move a (if isQuotient then rax else rdx), .label done] p P := by
    refine .cons (.single (isPlain_arith_imm (.inr rfl) (by decide))) ?_
    refine .cons (.branch hgeneral.1 hgeneral.2) ?_
    refine .cons (.single ?_) ?_
    · cases isQuotient
      · exact isPlain_zero free
      · exact isPlain_unary free
    refine .cons (.jump hdone.1 hdone.2) ?_
    refine .cons (.bind (Multiset.cons_swap done general P)) ?_
    refine .cons (.single (isPlain_move_reg rfl)) (.cons (.single isPlain_cqo) ?_)
    refine .cons (.single ⟨fun _ => rfl, rfl, by simp [symbols, memory, Place.memory,
      loadedSymbols], rfl⟩) ?_
    refine .cons (.single ?_) (.bind rfl)
    cases isQuotient
    · exact isPlain_move_reg free
    · exact isPlain_move_reg free
  have swap : done ::ₘ general ::ₘ nonzero ::ₘ P = nonzero ::ₘ done ::ₘ general ::ₘ P := by
    rw [Multiset.cons_swap general nonzero, Multiset.cons_swap done nonzero]
  have first : Written plan source lo p (done ::ₘ general ::ₘ nonzero ::ₘ P)
      [check b, .jcc .ne nonzero] p (done ::ₘ general ::ₘ nonzero ::ₘ P) :=
    .cons (.single (isPlain_check b)) (.branch hnonzero.1 hnonzero.2)
  exact (first.append hstop).append (.cons (.bind swap) last)

lemma division_written {a b : Register} (mem : a ∈ scratch)
    (h : division r isQuotient a b f p = .ok ((code, f'), q)) : IsWritten plan source lo p
    code q := by
  obtain ⟨message, s, hs, rfl, nonzero, s1, general, s2, done, h1, h2, h3, rfl⟩ := division_ok h
  refine .after_interns (.text hs) fun sent hlo _ P => ?_
  obtain ⟨id1, size1, same1⟩ := fresh_facts h1
  obtain ⟨id2, size2, same2⟩ := fresh_facts h2
  obtain ⟨id3, size3, same3⟩ := fresh_facts h3
  have symbols : q.symbols = s.symbols := by rw [same3, same2, same1]
  have stop : ∀ {P : Multiset Label}, Written plan source lo q P
      (callSequence f.live Service.abort.label [.address message 0]) q P := by
    intro P
    refine .call (List.take_prefix _ _) (.service (by decide)) ?_
    intro s' d hs'
    obtain ⟨rfl, -⟩ : s' = message ∧ d = 0 := by simpa using hs'
    rw [symbols]
    exact sent
  refine (Written.fresh h1).after_nil <| (Written.fresh h2).after_nil <|
    (Written.fresh h3).after_nil ?_
  exact divisionCode_written mem stop (by omega) (by omega) (by omega)

lemma applyBinary_written {a b : Value} (mem : a.reg ∈ scratch)
    (h : applyBinary r op a b f p = .ok (((v, code), f'), q)) : IsWritten plan source lo p
    code q := by
  obtain ⟨-, ⟨-, what, texts⟩ | ⟨-, cond, -, -, -, -, rfl, rfl⟩ | ⟨-, -, -, -, what, e,
      coded, -⟩⟩ :=
    applyBinary_ok h
  · obtain ⟨service, first, kind, last, call, hservice, rfl, final⟩ := applyToTexts_ok texts
    refine (callValue_written (.service hservice.1) (by simp) call).append ?_
    obtain rfl | rfl := final
    · exact .plain (by simp)
    · have free := isStackRegister_of_mem_scratch (callValue_takes call).mem_scratch
      exact .single (isPlain_arith_imm (.inl free) (by decide))
  · exact .plain (isPlain_compareCode mem)
  · obtain ⟨isQuotient, -, division⟩ | ⟨-, -, -, -, rfl, rfl⟩ := arithmetic_ok coded
    · exact division_written mem division
    · exact .plain (isPlain_arithmeticCode mem)

section

variable
  (ih : ∀ e ∈ es, ∀ {f f' : Frame} {p q : Pool} {v : Value} {code : Code}, expression plan r e f p =
  .ok (((v, code), f'), q) → IsWritten plan source lo p code q)
include ih

lemma operands_written {callee : String} {index : Nat} {wants : List ValueKind}
    {regs : List Register} (h : operands plan r callee index es wants f p =
    .ok (((regs, code), f'), q)) :
    IsWritten plan source lo p code q := by
  induction es generalizing index wants regs code f p with
  | nil =>
    obtain ⟨-, rfl, -, rfl⟩ := operands_of_nil (.inl rfl) h
    exact .plain (by simp)
  | cons e rest more =>
    cases wants with
    | nil =>
      obtain ⟨-, rfl, -, rfl⟩ := operands_of_nil (.inr rfl) h
      exact .plain (by simp)
    | cons want wants =>
      obtain ⟨v, first, f1, p1, others, tail, begins, -, later, -, rfl⟩ := operands_cons h
      have later := more (fun e he => ih e (mem_cons_of_mem _ he)) later
      exact (ih e mem_cons_self begins).append later

lemma Application.written (h : Application plan r es f p v code f' q) : IsWritten plan source lo p
    code q := by
  obtain ⟨operands, -, call, given, aimed, rfl⟩ := h
  refine (operands_written ih operands).append (callValue_written ?_ given call)
  obtain ⟨service, hservice, rfl⟩ | ⟨⟨name, named⟩, -⟩ := aimed
  · exact .service hservice.1
  · exact .helper named

end

lemma expression_written (h : expression plan r e f p = .ok (((v, code), f'), q)) :
    IsWritten plan source lo p code q := by
  induction e using Expr.induction generalizing f f' p q v code with
  | int value =>
    rw [expression] at h
    exact integer_written h
  | bool value =>
    obtain ⟨reg, own, rfl, -, rfl⟩ := expression_bool h
    have free := isStackRegister_of_mem_scratch (Frame.takes_alloc own).mem_scratch
    exact .single (isPlain_move_imm free _)
  | str value =>
    obtain ⟨s, reg, hs, own, -, rfl⟩ := expression_str h
    have free := isStackRegister_of_mem_scratch (Frame.takes_alloc own).mem_scratch
    exact .after_interns (.text hs) fun known =>
      .single (isPlain_lea free rfl (isKnown_symbol known 0))
  | state field =>
    obtain ⟨slot, reg, -, own, rfl, -, rfl⟩ := expression_state h
    exact .single (isPlain_loadValue (Frame.takes_alloc own).mem_scratch _)
  | field field =>
    obtain ⟨schema, slot, reg, -, -, own, rfl, -, rfl⟩ := expression_field h
    exact .single (isPlain_loadValue (Frame.takes_alloc own).mem_scratch _)
  | var name =>
    obtain ⟨x, reg, -, own, rfl, -, rfl⟩ := expression_var h
    have free := isStackRegister_of_mem_scratch (Frame.takes_alloc own).mem_scratch
    exact .single (isPlain_load free rfl (isKnown_near _ _))
  | unary op operand ih =>
    obtain ⟨first, begins, -, rfl⟩ := expression_unary h
    have own := (expression_takes begins).mem_scratch
    exact (ih begins).append (.single (isPlain_unaryInstruction own))
  | binary op lhs rhs ihl ihr =>
    obtain ⟨a, first, f1, p1, b, second, f2, p2, last, left, right, final, rfl⟩ :=
      expression_binary h
    have own := (expression_takes left).mem_scratch
    exact ((ihl left).append (ihr right)).append (applyBinary_written own final)
  | builtin name args ih => exact (expression_builtin h).written fun e he => ih e he
  | call name args ih => exact (expression_call h).written fun e he => ih e he

lemma condition_written
    (hlabel : lo ≤ otherwise.id ∧ otherwise.id < p.labels.size)
    (h : condition plan r cond otherwise what f p = .ok ((code, f'), q)) :
    IsWritten plan source lo p code q := by
  obtain ⟨v, first, e, begins, -, -, rfl⟩ := condition_ok h
  exact (expression_written begins).append_of_le fun le _ _ _ =>
    .cons (.single (isPlain_check v.reg)) (.branch hlabel.1 (hlabel.2.trans_le le))

lemma assignment_plain {target : Target} (h : assignment r target v f p = .ok ((code, f'), q)) :
    ∀ i ∈ code, i.IsPlain plan.HasSmallNumbers p.symbols.size := by
  cases target with
  | state field =>
    obtain ⟨slot, -, -, -, -, rfl⟩ := assignment_state h
    rw [forall_mem_singleton]
    exact isPlain_storeValue _
  | var name =>
    obtain ⟨x, -, -, -, -, rfl⟩ := assignment_var h
    rw [forall_mem_singleton]
    exact isPlain_store rfl (isKnown_near _ _)

end

section

variable {source : Endpoint} {schema : SchemaLayout} {payload : Register}
  {fields : List (String × Expr)}

lemma messageFields_written {slots : List Slot}
    (h : messageFields plan r schema payload fields slots f p = .ok ((code, f'), q)) :
    IsWritten plan source lo p code q := by
  induction slots generalizing f p code with
  | nil =>
    obtain ⟨rfl, -, rfl⟩ := pure_ok.1 h
    exact .plain (by simp)
  | cons slot rest ih =>
    obtain more | ⟨e, v, first, f1, p1, tail, -, begins, later, rfl⟩ := messageFields_cons h
    · exact ih more
    · exact ((expression_written begins).append (.single (isPlain_storeValue _))).append (ih later)

lemma written_delivery {name goal : String} {storage : Storage} {P : Multiset Label}
    (hk : plan.Knows p) (alive : live <+: scratch)
    (carried : payload ∈ scratch) (known : plan.layout.schema? name = some schema)
    (leads : goal ∈ plan.layout.destinations source schema.name)
    (stored : plan.storage? goal = some storage) :
    Written plan source lo p P (callSequence live Service.enqueue.label
      (deliveryArguments schema payload storage)) p P := by
  refine .call alive (.delivery known leads stored carried) ?_
  intro s d hs
  obtain ⟨rfl, -⟩ : s = storage.queue ∧ d = 0 := by simpa [deliveryArguments] using hs
  exact (hk.queues goal storage stored).1

lemma deliver_written {name : String} {goals : List String}
    (known : plan.layout.schema? name = some schema) (carried : payload ∈ Register.scratch)
    (hgoals : ∀ goal ∈ goals, goal ∈ plan.layout.destinations source schema.name)
    (h : deliver plan r schema payload goals f p = .ok ((code, f'), q)) : IsWritten plan source lo p
    code q := by
  obtain ⟨-, rfl, storages, hstorages, rfl⟩ := deliver_ok h
  clear h
  intro _ hk P
  induction hstorages with
  | nil => exact .nil
  | @cons goal storage goals storages stored _ ih =>
    rw [forall_mem_cons] at hgoals
    exact (written_delivery hk (List.take_prefix _ _) carried known hgoals.1 stored).append
      (ih hgoals.2)

lemma message_written {schema : String}
    (h : message plan r schema fields f p = .ok ((code, f'), q)) :
    IsWritten plan (.agent r.agent.name) lo p code q := by
  obtain ⟨s, hs, ⟨-, -, rfl, rfl⟩ | ⟨payload, first, f1, p1, second, f2, last, begins, later, final,
    -, rfl⟩⟩ := message_ok h
  · exact .plain (by simp)
  · have allocate : IsWritten plan (.agent r.agent.name) lo p first p1 :=
      callValue_written (.service (by decide)) (by simp) begins
    have carried := (callValue_takes begins).mem_scratch
    exact (allocate.append (messageFields_written later)).append
      (deliver_written hs carried (fun goal leads => leads) final)

end

section

variable {body : List Stmt} {s : Stmt}

lemma returnCode_written {value : Option Expr}
    (hleave : lo ≤ r.epilogue.id ∧ r.epilogue.id < p.labels.size)
    (h : returnCode plan r value f p = .ok ((code, f'), q)) : IsWritten plan source lo p
    code q := by
  obtain ⟨-, -, rfl, rfl⟩ | ⟨e, v, first, f1, -, -, begins, -, rfl⟩ := returnCode_ok h
  · exact fun _ _ _ => .cons (.single (isPlain_zero rfl)) (.jump hleave.1 hleave.2)
  · exact (expression_written begins).append_of_le fun le _ _ _ =>
      .cons (.single (isPlain_move_reg rfl)) (.jump hleave.1 (hleave.2.trans_le le))

lemma print_written {descriptor : Int64} (h : print r descriptor v f p = .ok ((code, f'), q)) :
    IsWritten plan source lo p code q := by
  obtain ⟨service, hservice, -, rfl, rfl⟩ := print_ok h
  exact fun _ _ _ => written_call (List.take_prefix _ _) (.service hservice.1) (by simp)

lemma statements_written (ih : ∀ s ∈ body, ∀ {f f' : Frame} {p q : Pool} {code : Code},
      r.epilogue.id < p.labels.size → statement plan r s f p = .ok ((code, f'), q) →
        IsWritten plan (.agent r.agent.name) lo p code q) (hlabel : r.epilogue.id < p.labels.size)
    (h : statements plan r body f p = .ok ((code, f'), q)) : IsWritten plan (.agent r.agent.name) lo
        p code q := by
  induction body generalizing f p code with
  | nil =>
    obtain ⟨-, rfl, rfl⟩ := statements_nil h
    exact .plain (by simp)
  | cons s rest more =>
    obtain ⟨first, f1, p1, tail, begins, later, rfl⟩ := statements_cons h
    exact (ih s mem_cons_self hlabel begins).append_of_le fun le =>
      more (fun s hs => ih s (mem_cons_of_mem _ hs)) (hlabel.trans_le le) later

lemma simple_written (simple : s.isSimple = true)
    (hleave : lo ≤ r.epilogue.id ∧ r.epilogue.id < p.labels.size)
    (h : statement plan r s f p = .ok ((code, f'), q)) : IsWritten plan source lo p code q := by
  cases s with
  | declare name value =>
    obtain ⟨v, first, f1, x, f2, begins, -, -, rfl⟩ := statement_declare h
    exact (expression_written begins).append (.single (isPlain_store rfl (isKnown_near _ _)))
  | assign target value =>
    obtain ⟨v, first, f1, store, begins, stores, -, rfl⟩ := statement_assign h
    exact (expression_written begins).append (.plain (assignment_plain stores))
  | write value =>
    obtain ⟨v, first, f1, last, begins, final, -, rfl⟩ := statement_write h
    exact (expression_written begins).append (print_written final)
  | report value =>
    obtain ⟨-, rfl, rfl⟩ | ⟨newline, p1, v, first, f1, shown, last, hnewline, begins, hshown, final,
      -, rfl⟩ := statement_report h
    · exact .plain (by simp)
    · obtain ⟨-, -, -, rfl⟩ := call_ok final
      refine .after_interns (.text hnewline) fun known hlo hk P => ?_
      have written : Written plan source lo p1 P (first ++ shown) q P :=
        (expression_written begins).append (print_written hshown) hlo hk P
      refine written.append (.call (List.take_prefix _ _) ?_ ?_)
      · exact .service (by decide)
      · intro s d hs
        obtain ⟨rfl, -⟩ : s = newline ∧ d = 0 := by simpa using hs
        exact known.trans_le written.keeps.size_le
  | ret value =>
    rw [statement] at h
    exact returnCode_written hleave h
  | emit | branch | loop | block => cases simple

section

variable (hleave : lo ≤ r.epilogue.id) (hlabel : r.epilogue.id < p.labels.size)
include hleave hlabel

lemma statement_written
    (h : statement plan r s f p = .ok ((code, f'), q)) : IsWritten plan (.agent r.agent.name) lo p
    code q := by
  induction s using Stmt.induction generalizing f f' p q code with
  | emit schema fields =>
    rw [statement] at h
    exact message_written h
  | branch cond onTrue onFalse ihTrue ihFalse =>
    obtain ⟨other, p1, join, p2, test, f1, p3, first, f2, p4, second, h1, h2, tested, begins, later,
      rfl⟩ := statement_branch h
    obtain ⟨e1, body1, -⟩ := block_ok begins
    obtain ⟨e2, body2, -⟩ := block_ok later
    intro hlo hk P
    obtain ⟨id1, size1, -⟩ := fresh_facts h1
    obtain ⟨id2, size2, -⟩ := fresh_facts h2
    have hk2 := (hk.fresh h1).fresh h2
    have tested : Written plan (.agent r.agent.name) lo p2 (join ::ₘ other ::ₘ P) test p3
        (join ::ₘ other ::ₘ P) := condition_written (by omega) tested (by omega) hk2 _
    have le3 := tested.labels_le
    have begins := statements_written ihTrue (by omega) body1 (by omega) (tested.knows hk2)
      (join ::ₘ other ::ₘ P)
    have le4 := begins.labels_le
    have later := statements_written ihFalse (by omega) body2 (by omega)
      (begins.knows (tested.knows hk2)) (join ::ₘ P)
    have jump : Written plan (.agent r.agent.name) lo p4 (join ::ₘ other ::ₘ P)
        [jmp join, .label other] p4 (join ::ₘ P) :=
      .cons (.jump (by omega) (by omega)) (.bind (Multiset.cons_swap join other P))
    exact (Written.fresh h1).after_nil <| (Written.fresh h2).after_nil <|
      (((tested.append begins).append jump).append later).append (.bind rfl)
  | loop cond body ih =>
    obtain ⟨head, p1, leave, p2, test, f1, p3, inner, h1, h2, tested, nested, rfl⟩ :=
      statement_loop h
    obtain ⟨e, lowered, -⟩ := block_ok nested
    intro hlo hk P
    obtain ⟨id1, size1, -⟩ := fresh_facts h1
    obtain ⟨id2, size2, -⟩ := fresh_facts h2
    have hk2 := (hk.fresh h1).fresh h2
    have tested : Written plan (.agent r.agent.name) lo p2 (leave ::ₘ P) test p3 (leave ::ₘ P) :=
      condition_written (by omega) tested (by omega) hk2 _
    have le3 := tested.labels_le
    have nested := statements_written ih (by omega) lowered (by omega) (tested.knows hk2)
      (leave ::ₘ P)
    have le := nested.labels_le
    have headed : Written plan (.agent r.agent.name) lo p2 (leave ::ₘ head ::ₘ P)
        [label head] p2 (leave ::ₘ P) := .bind (Multiset.cons_swap leave head P)
    have jump : Written plan (.agent r.agent.name) lo q (leave ::ₘ P)
        [jmp head, .label leave] q P :=
      .cons (.jump (by omega) (by omega)) (.bind rfl)
    exact (Written.fresh h1).after_nil <| (Written.fresh h2).after_nil <|
      ((headed.append tested).append nested).append jump
  | block body ih =>
    rw [statement_block] at h
    obtain ⟨e, lowered, -⟩ := block_ok h
    exact statements_written ih hlabel lowered
  | declare | assign | write | report | ret => exact simple_written rfl ⟨hleave, hlabel⟩ h

lemma block_written
    (h : block plan r body f p = .ok ((code, f'), q)) : IsWritten plan (.agent r.agent.name) lo p
    code q := by
  obtain ⟨e, inner, -⟩ := block_ok h
  exact statements_written (fun _ _ => statement_written hleave) hlabel inner

end

lemma expression_grows (knows : plan.Knows p)
    (h : expression plan r e f p = .ok (((v, code), f'), q)) : p.Grows q := by
  have written : IsWritten plan .external 0 p code q := expression_written h
  exact written.grows (Nat.zero_le _) knows

lemma condition_grows (knows : plan.Knows p)
    (h : condition plan r cond otherwise what f p = .ok ((code, f'), q)) : p.Grows q := by
  obtain ⟨v, first, e, begins, -⟩ := condition_ok h
  exact expression_grows knows begins

section

variable (knows : plan.Knows p) (hlabel : r.epilogue.id < p.labels.size)
include knows hlabel

lemma statement_grows (h : statement plan r s f p = .ok ((code, f'), q)) : p.Grows q :=
  (statement_written (Nat.zero_le _) hlabel h).grows (Nat.zero_le _) knows

lemma statements_grows (h : statements plan r body f p = .ok ((code, f'), q)) : p.Grows q :=
  (statements_written (fun _ _ => statement_written (Nat.zero_le _)) hlabel h).grows
    (Nat.zero_le _) knows

lemma block_grows (h : block plan r body f p = .ok ((code, f'), q)) : p.Grows q :=
  (block_written (Nat.zero_le _) hlabel h).grows (Nat.zero_le _) knows

end

end

end Lower

end AgentCompiler
