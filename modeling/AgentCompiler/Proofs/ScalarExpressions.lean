import AgentCompiler.Proofs.PreservedMeaning

/-!
Expressions over integers and booleans keep their meaning without exception: once such an expression
has been lowered, it has a value or it divides by zero, and its code falls through with that value
or gets to the call that stops the program.
-/

namespace AgentCompiler

open Lower
open Register (rbp rsp)

/-- Trees of literals, reads and operators over integers and booleans. -/
def Expr.isScalar (r : Routine) (f : Frame) : Expr → Bool
  | .int _ | .bool _ => true
  | .state name => (r.agent.state.slot? name).all (·.type.kind ≠ .str)
  | .field name => (r.message.bind (·.payload.slot? name)).all (·.type.kind ≠ .str)
  | .var name => (f.lookup? name).all (·.kind ≠ .str)
  | .unary _ operand => operand.isScalar r f
  | .binary _ lhs rhs => lhs.isScalar r f && rhs.isScalar r f
  | .str _ | .builtin _ _ | .call _ _ => false

def Expr.isRead : Expr → Bool
  | .state _ | .field _ | .var _ => true
  | _ => false

def Expr.Settles (message : Fields) (store : Store) (e : Expr) (kind : ValueKind) : Prop :=
  kind ≠ .str ∧ ∃ result, (e.evaluate message store).run = some result ∧ ∀ d, result = .ok d →
    d.kind = kind

lemma Evaluation.run_bind {α β : Type} {x : Evaluation α} {g : α → Evaluation β} {a : α}
    (means : x.run = some (.ok a)) : (x >>= g).run = (g a).run := by
  rw [ExceptT.run_bind, means]
  rfl

variable {x y : Datum} {op : BinaryOperator}

lemma Expr.Settles.of_value {message : Fields} {store : Store} {e : Expr} {kind : ValueKind}
    (means : (e.evaluate message store).run = some (.ok x)) (same : x.kind = kind)
    (plain : kind ≠ .str) :
    e.Settles message store kind :=
  ⟨plain, _, means, fun _ given => Except.ok.inj given ▸ same⟩

lemma UnaryOperator.apply_isSome {op : UnaryOperator} (kind : x.kind = unaryKind op) :
    ∃ d, op.apply x = some d ∧ d.kind = x.kind := by
  cases op <;> cases x <;> simp [unaryKind, Datum.kind] at kind <;> exact ⟨_, rfl, rfl⟩

lemma BinaryOperator.apply_isSome (same : y.kind = x.kind) (plain : x.kind ≠ .str)
    (fits : (∃ cond, comparison? op = some cond) ∧ (x.kind = .bool → op = .eq ∨ op = .ne) ∨
      comparison? op = none ∧ x.kind = operandKind op x.kind) : ∃ result, (op.apply x y).run =
      some result := by
  cases x with
  | str => exact absurd rfl plain
  | int a =>
    cases y with
    | int b =>
      cases op <;> simp [comparison?, operandKind, Datum.kind] at fits <;>
        simp only [BinaryOperator.apply, BinaryOperator.applyInt] <;> try exact ⟨_, rfl⟩
      all_goals split <;> exact ⟨_, rfl⟩
    | _ => cases same
  | bool a =>
    cases y with
    | bool b =>
      cases op <;> simp [comparison?, operandKind, Datum.kind] at fits <;> exact ⟨_, rfl⟩
    | _ => cases same

lemma Memory.HoldsLocals.lookup_isSome {m : Memory} {frame : Word}
    {names : List (String × Variable)} {locals : List (String × Datum)} {name : String}
    {x : Variable} (holds : m.HoldsLocals frame names locals) (found : names.lookup name = some x) :
    ∃ d, locals.lookup name = some d := by
  induction holds with
  | nil => simp at found
  | @cons declared value _ _ first _ ih =>
    rw [List.lookup_cons] at found ⊢
    rw [← first.name]
    split at found
    · exact ⟨_, rfl⟩
    · exact ih found

namespace Lower

variable {plan : Plan} {r : Routine} {f f' : Frame} {p q : Pool} {v : Value} {code : Code}
  {W : Workspace} {P : Process} {s : Machine} {message : Fields} {store : Store} {k : Nat}
  {e : Expr}

lemma read_defined (ready : Ready W P r message f store s) (read : e.isRead = true)
    (h : expression plan r e f p = .ok (((v, code), f'), q)) :
    ∃ d, (e.evaluate message store).run = some (.ok d) ∧ d.kind = v.kind := by
  cases e with
  | state name =>
    obtain ⟨slot, reg, found, -, -, rfl, -⟩ := expression_state h
    obtain ⟨-, x, known, type, -⟩ := ready.holds.fields.get (ready.stateRecord ▸ found)
    exact ⟨x.read, by simp [Expr.evaluate, known], by rw [x.kind_read, type]⟩
  | field name =>
    obtain ⟨schema, slot, reg, handled, found, -, -, rfl, -⟩ := expression_field h
    have record : W.messageRecord = some schema.payload := by rw [ready.messageRecord, handled]; rfl
    obtain ⟨-, x, known, type, -⟩ := (ready.holds.payload _ record).get found
    exact ⟨x.read, by simp [Expr.evaluate, known], by rw [x.kind_read, type]⟩
  | var name =>
    obtain ⟨x, reg, found, -, -, rfl, -⟩ := expression_var h
    obtain ⟨d, known⟩ := ready.holds.locals.lookup_isSome found
    exact ⟨d, by simp [Expr.evaluate, known], (ready.holds.locals.lookup found known).1.symm⟩
  | _ => cases read

lemma Expr.isScalar_congr {r : Routine} {f f' : Frame} (keeps : f.Keeps f') (e : Expr) :
    e.isScalar r f' = e.isScalar r f := by
  induction e using Expr.induction <;> simp [Expr.isScalar, Frame.lookup?, keeps.scopes, *]

lemma applyBinary_settles {a b : Value} (plain : a.kind ≠ .str)
    (h : applyBinary r op a b f p = .ok (((v, code), f'), q)) : v.kind ≠ .str ∧
      ∀ x y, x.kind = a.kind → y.kind = b.kind → ∃ result, (op.apply x y).run = some result ∧
        ∀ d, result = .ok d → d.kind = v.kind := by
  obtain ⟨same, ⟨text, -⟩ | ⟨-, cond, compares, rfl, order, -⟩ | ⟨-, none, kind, rfl, -⟩⟩ :=
    applyBinary_ok h
  · exact absurd text plain
  · refine ⟨by simp, fun x y first second => ?_⟩
    rw [← first] at same plain order
    obtain ⟨result, means⟩ := BinaryOperator.apply_isSome (second.trans same.symm) plain
      (.inl ⟨⟨cond, compares⟩, order⟩)
    exact ⟨result, means, by rintro d rfl; exact kind_of_compare compares means⟩
  · refine ⟨plain, fun x y first second => ?_⟩
    rw [← first] at same plain kind ⊢
    obtain ⟨result, means⟩ := BinaryOperator.apply_isSome (second.trans same.symm) plain
      (.inr ⟨none, kind⟩)
    exact ⟨result, means, by rintro d rfl; exact kind_of_arithmetic none means⟩

lemma scalar_settles (ready : Ready W P r message f store s) (scalar : e.isScalar r f = true)
    (h : expression plan r e f p = .ok (((v, code), f'), q)) : e.Settles message store v.kind := by
  induction e using Expr.induction generalizing f f' p q v code with
  | int value =>
    rw [expression] at h
    obtain ⟨reg, -, rfl, -⟩ := integer_ok h
    exact .of_value (x := .int value) rfl rfl (by simp)
  | bool value =>
    obtain ⟨reg, -, -, rfl, -⟩ := expression_bool h
    exact .of_value (x := .bool value) rfl rfl (by simp)
  | state name =>
    obtain ⟨d, means, kind⟩ := read_defined ready rfl h
    obtain ⟨slot, reg, found, -, -, rfl, -⟩ := expression_state h
    exact .of_value means kind (by simpa [Expr.isScalar, found] using scalar)
  | field name =>
    obtain ⟨d, means, kind⟩ := read_defined ready rfl h
    obtain ⟨schema, slot, reg, handled, found, -, -, rfl, -⟩ := expression_field h
    exact .of_value means kind (by simpa [Expr.isScalar, handled, found] using scalar)
  | var name =>
    obtain ⟨d, means, kind⟩ := read_defined ready rfl h
    obtain ⟨x, reg, found, -, -, rfl, -⟩ := expression_var h
    exact .of_value means kind (by simpa [Expr.isScalar, found] using scalar)
  | unary op operand ih =>
    obtain ⟨first, lowered, kind, -⟩ := expression_unary h
    obtain ⟨plain, result, means, kinds⟩ := ih ready scalar lowered
    rcases result with why | x
    · exact ⟨plain, .error why, Evaluation.bind_eq_error.2 (.inl means), by simp⟩
    · have same := kinds x rfl
      obtain ⟨d, applied, result⟩ := UnaryOperator.apply_isSome (same.trans kind)
      exact .of_value (Evaluation.bind_ok.2 ⟨x, means, Evaluation.lift_ok.2 applied⟩)
        (result.trans same) plain
  | binary op lhs rhs ihl ihr =>
    obtain ⟨a, first, f1, p1, b, second, f2, p2, last, lowered1, lowered2, lowered3, -⟩ :=
      expression_binary h
    simp only [Expr.isScalar, Bool.and_eq_true] at scalar
    have keeps := (expression_takes lowered1).toKeeps
    have ready1 := ready.of_changes keeps rfl (n := 0) fun _ _ => rfl
    obtain ⟨plain, result1, means1, kinds1⟩ := ihl ready scalar.1 lowered1
    obtain ⟨-, result2, means2, kinds2⟩ := ihr ready1 (Expr.isScalar_congr keeps rhs ▸ scalar.2)
      lowered2
    obtain ⟨plain', applies⟩ := applyBinary_settles plain lowered3
    rcases result1 with why | x
    · exact ⟨plain', .error why, Evaluation.bind_eq_error.2 (.inl means1), by simp⟩
    rcases result2 with why | y
    · exact ⟨plain', .error why, Evaluation.bind_eq_error.2
        (.inr ⟨x, means1, Evaluation.bind_eq_error.2 (.inl means2)⟩),
        by simp⟩
    obtain ⟨result, means, kinds⟩ := applies x y (kinds1 x rfl) (kinds2 y rfl)
    refine ⟨plain', result, ?_, kinds⟩
    rw [Expr.evaluate, Evaluation.run_bind means1, Evaluation.run_bind means2, means]
  | str | builtin | call => cases scalar

/-- The code of an expression over integers and booleans falls through with its value, or it gets to
the call that stops the program when the expression divides by zero. -/
theorem expression_preserves_meaning (stands : W.Stands P) (distinct : P.HasDistinctLabels)
    (ready : Ready W P r message f store s) (knows : plan.Knows p)
    (lowered : expression plan r e f p = .ok (((v, code), f'), q)) (words : q.words ⊆ W.words)
    (placed : P.Holds k code) (tree : e.isScalar r f = true ∨ e.isRead = true) :
    (∃ d t, (e.evaluate message store).run = some (.ok d) ∧ d.kind = v.kind ∧
      P.Flows ⟨k, s⟩ ⟨k + code.length, t⟩ ∧ t.regs v.reg = d.word ∧ t.memory = s.memory ∧
      ∀ reg ∈ f.live ++ [.stateBase, .message, rbp, rsp], t.regs reg = s.regs reg) ∨
    ((e.evaluate message store).run = some (.error .divisionByZero) ∧ W.Panics P k s) := by
  have computes := expression_computes stands distinct ready knows lowered words placed
  have settled : ∃ result, (e.evaluate message store).run = some result := by
    rcases tree with scalar | read
    · obtain ⟨-, result, means, -⟩ := scalar_settles ready scalar lowered
      exact ⟨result, means⟩
    · obtain ⟨d, means, -⟩ := read_defined ready read lowered
      exact ⟨_, means⟩
  obtain ⟨why | d, means⟩ := settled
  · cases why
    exact .inr ⟨means, computes.fault _ means⟩
  · obtain ⟨kind, t, flows, receives⟩ := computes.value d means
    refine .inl ⟨d, t, means, kind, flows, receives.value, receives.memory, fun reg mem =>
      receives.others reg ?_⟩
    have spared : reg ∉ temporaries f.depth :=
      (List.mem_append.1 mem).elim Frame.live_spared (temporaries_spare f.depth reg)
    rw [List.mem_cons, not_or]
    exact ⟨fun same => spared (same ▸ (expression_takes lowered).reg_facts.1), spared⟩

end Lower

section

def halfCount : Expr := .binary .div (.binary .add (.state "count") (.int 8)) (.unary .neg (.int 2))

lemma halfCount_lowers : ∃ v code f' q,
    expression countPlan countRoutine halfCount {} countPool = .ok (((v, code), f'), q) ∧
    v = ⟨.rbx, .int⟩ ∧ q.words = [] ∧ (boundLabels (countProcess code).code).Nodup := by
  obtain ⟨⟨⟨⟨v, code⟩, f'⟩, q⟩, lowered, facts⟩ := exists_ok_of_any (p := fun result =>
      result.1.1.1 = ⟨.rbx, .int⟩ ∧ result.2.words = [] ∧
      (boundLabels (countProcess result.1.1.2).code).Nodup)
    (by decide +kernel : (expression countPlan countRoutine halfCount {} countPool).toOption.any _)
  exact ⟨v, code, f', q, lowered, by simpa using facts⟩

theorem expression_preserves_meaning_halfCount : ∃ v code f' q t,
    Lower.expression countPlan countRoutine halfCount {} countPool = .ok (((v, code), f'), q) ∧
    (countProcess code).Flows ⟨0, countMachine⟩ ⟨code.length, t⟩ ∧ t.regs .rbx = -3 ∧
    t.memory = countMachine.memory := by
  obtain ⟨v, code, f', q, lowered, rfl, words, labels⟩ := halfCount_lowers
  have placed : (countProcess code).Holds 0 code := List.prefix_append _ _
  have gives : (halfCount.evaluate (fun _ => none) (countStore (-1) [])).run = some
      (.ok (.int (-3))) := rfl
  obtain ⟨d, t, means, -, flows, value, memory, -⟩ | ⟨fails, -⟩ :=
    Lower.expression_preserves_meaning (countWorkspace_stands code)
    (Process.hasDistinctLabels_of_nodup labels) (countMachine_ready code)
    countPlan_knows lowered (by simp [words]) placed (.inl (by decide))
  · obtain rfl : .int (-3) = d := Except.ok.inj (Option.some.inj (gives.symm.trans means))
    rw [Nat.zero_add] at flows
    exact ⟨_, code, f', q, t, lowered, flows, value, memory⟩
  · cases gives.symm.trans fails

end

end AgentCompiler
