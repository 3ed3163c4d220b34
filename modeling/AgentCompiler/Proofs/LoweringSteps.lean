import AgentCompiler.Proofs.Emission

/-!
Each construct of a body, opened from the code that is written for it, and what its lowering does
to the frame: an expression takes the next scratch register, a statement gives back all it took,
and only a declaration adds a name, with a slot of its own.
-/

namespace AgentCompiler

open Instruction Register Service Emit

namespace Frame

variable {f f' : Frame} {name : String} {reg : Register}

lemma alloc_ok : f.alloc name = .ok (reg, f') ↔ scratch[f.depth]? = some reg ∧
      f' = { f with depth := f.depth + 1, maxDepth := max f.maxDepth (f.depth + 1) } := by
  unfold alloc
  split
  next s hs =>
    rw [pure_ok, Prod.mk.injEq, hs, Option.some.injEq, eq_comm (a := f')]
  next hs => simp [hs]

lemma declare_ok {routine : String} {kind : ValueKind} {x : Variable}
    (h : f.declare routine name kind = .ok (x, f')) : ∃ scope outer, f.scopes = scope :: outer ∧
      x = ⟨f.slots, kind⟩ ∧ f' = { f with scopes := ((name, x) :: scope) :: outer, slots :=
      f.slots + 1 } := by
  unfold declare at h
  split at h
  next => simp at h
  next scope outer scoping =>
    split at h
    next => simp at h
    next =>
      obtain ⟨rfl, rfl⟩ := Prod.mk.inj (pure_ok.1 h)
      exact ⟨scope, outer, scoping, rfl, rfl⟩

/-- Names and slots are the same, and no scratch register is forgotten. -/
structure Keeps (f f' : Frame) : Prop where
  scopes : f'.scopes = f.scopes
  slots : f'.slots = f.slots
  maxDepth : f.maxDepth ≤ f'.maxDepth

lemma Keeps.refl (f : Frame) : f.Keeps f := ⟨rfl, rfl, le_rfl⟩

lemma Keeps.trans {g : Frame} (h : f.Keeps f') (h' : f'.Keeps g) : f.Keeps g :=
  ⟨h'.scopes.trans h.scopes, h'.slots.trans h.slots, h.maxDepth.trans h'.maxDepth⟩

lemma keeps_release (f : Frame) (regs : List Register) : f.Keeps (f.release regs) := by
  induction regs generalizing f with
  | nil => exact .refl f
  | cons reg rest ih =>
    have first : f.Keeps (f.free reg) := ⟨rfl, rfl, le_rfl⟩
    exact first.trans (ih (f.free reg))

lemma keeps_alloc (h : f.alloc name = .ok (reg, f')) : f.Keeps f' := by
  obtain ⟨-, rfl⟩ := alloc_ok.1 h
  exact ⟨rfl, rfl, le_max_left _ _⟩

@[simp] lemma depth_release (f : Frame) (regs : List Register) : (f.release regs).depth =
    f.depth - regs.length := by
  induction regs generalizing f with
  | nil => rfl
  | cons reg rest ih => exact (ih (f.free reg)).trans (by simp [free, Nat.sub_sub, add_comm])

end Frame

namespace Lower

attribute [local simp] expression statement

variable {plan : Plan} {r : Routine} {f f' : Frame} {p q : Pool} {v : Value} {code : Code}
  {slot : Slot} {field name what entity : String}

section

variable {target : Label} {args : List Argument}

lemma call_ok (h : call r target args f p = .ok ((code, f'), q)) :
    args.length ≤ 6 ∧ f = f' ∧ p = q ∧ code = callSequence f.live target args := by
  unfold call at h
  split at h
  next => simp [bind_ok] at h
  next length =>
    simp only [bind_ok, get_ok, pure_ok] at h
    obtain ⟨_, _, _, ⟨rfl, rfl, rfl⟩, rfl, rfl, rfl⟩ := h
    exact ⟨not_lt.1 length, rfl, rfl, rfl⟩

lemma callValue_ok {kind : ValueKind}
    (h : callValue r target args kind f p = .ok (((v, code), f'), q)) :
    ∃ reg, args.length ≤ 6 ∧ f.alloc r.name = .ok (reg, f') ∧ p = q ∧ v = ⟨reg, kind⟩ ∧
      code = callSequence f.live target args ++ [move reg result] := by
  simp only [callValue, bind_ok, alloc_ok, pure_ok, Prod.mk.injEq] at h
  obtain ⟨_, _, _, call, reg, _, _, ⟨own, rfl⟩, ⟨rfl, rfl⟩, rfl, rfl⟩ := h
  obtain ⟨length, rfl, rfl, rfl⟩ := call_ok call
  exact ⟨reg, length, own, rfl, rfl, rfl⟩

end

section

lemma integer_ok {value : Int64} (h : integer r value f p = .ok (((v, code), f'), q)) :
    ∃ reg, f.alloc r.name = .ok (reg, f') ∧ v = ⟨reg, .int⟩ ∧
      ((fitsInt32 value.toInt = true ∧ p = q ∧ code = [.move reg value]) ∨
        ∃ s, p.internWord value = .ok (s, q) ∧ code = [.move reg (Address.symbol s 0)]) := by
  simp only [integer, bind_ok, alloc_ok] at h
  obtain ⟨reg, _, _, ⟨own, rfl⟩, h⟩ := h
  split at h
  next fits =>
    simp only [pure_ok, Prod.mk.injEq] at h
    obtain ⟨⟨rfl, rfl⟩, rfl, rfl⟩ := h
    exact ⟨reg, own, rfl, .inl ⟨fits, rfl, rfl⟩⟩
  next =>
    simp only [bind_ok, liftEmit_ok, pure_ok, Prod.mk.injEq] at h
    obtain ⟨s, _, _, ⟨hs, rfl⟩, ⟨rfl, rfl⟩, rfl, rfl⟩ := h
    exact ⟨reg, own, rfl, .inr ⟨s, hs, rfl⟩⟩

lemma readField_ok {base : Register} (h : readField r base slot f p = .ok (((v, code), f'), q)) :
    ∃ reg, f.alloc r.name = .ok (reg, f') ∧ p = q ∧ v = ⟨reg, slot.type.kind⟩ ∧
      code = [loadValue slot.type reg (.near base (Int32.ofNat slot.offset))] := by
  simp only [readField, bind_ok, alloc_ok, pure_ok, Prod.mk.injEq] at h
  obtain ⟨reg, _, _, ⟨own, rfl⟩, ⟨rfl, rfl⟩, rfl, rfl⟩ := h
  exact ⟨reg, own, rfl, rfl, rfl⟩

lemma stateSlot_ok : stateSlot r field = .ok slot ↔ r.agent.state.slot? field = some slot := by
  unfold stateSlot
  split <;> simp_all

lemma messageSlot_ok : messageSlot r field = .ok slot ↔
      ∃ schema, r.message = some schema ∧ schema.payload.slot? field = some slot := by
  unfold messageSlot
  dsimp only
  split
  next absent => simp [absent]
  next schema known => split <;> simp_all

lemma variableSlot_ok {x : Variable} :
    variableSlot r name f p = .ok ((x, f'), q) ↔ f.lookup? name = some x ∧ f = f' ∧ p = q := by
  simp only [variableSlot, bind_ok, get_ok]
  constructor
  · rintro ⟨_, _, _, ⟨rfl, rfl, rfl⟩, h⟩
    cases hx : f.lookup? name with
    | none => simp [hx] at h
    | some y =>
      simp only [hx, pure_ok] at h
      exact ⟨congrArg some h.1, h.2⟩
  · rintro ⟨h, rfl, rfl⟩
    exact ⟨f, f, p, ⟨rfl, rfl, rfl⟩, by simp [h]⟩

lemma expression_bool {value : Bool}
    (h : expression plan r (.bool value) f p = .ok (((v, code), f'), q)) :
    ∃ reg, f.alloc r.name = .ok (reg, f') ∧ p = q ∧ v = ⟨reg, .bool⟩ ∧
      code = [.move reg (.imm (if value then 1 else 0))] := by
  simp only [expression, bind_ok, alloc_ok, pure_ok, Prod.mk.injEq] at h
  obtain ⟨reg, _, _, ⟨own, rfl⟩, ⟨rfl, rfl⟩, rfl, rfl⟩ := h
  exact ⟨reg, own, rfl, rfl, rfl⟩

lemma expression_str {value : String}
    (h : expression plan r (.str value) f p = .ok (((v, code), f'), q)) :
    ∃ s reg, p.internText value = .ok (s, q) ∧ f.alloc r.name = .ok (reg, f') ∧
      v = ⟨reg, .str⟩ ∧ code = [.lea reg (.symbol s 0)] := by
  simp only [expression, bind_ok, liftEmit_ok, alloc_ok, pure_ok, Prod.mk.injEq] at h
  obtain ⟨s, _, _, ⟨hs, rfl⟩, reg, _, _, ⟨own, rfl⟩, ⟨rfl, rfl⟩, rfl, rfl⟩ := h
  exact ⟨s, reg, hs, own, rfl, rfl⟩

lemma expression_state (h : expression plan r (.state field) f p = .ok (((v, code), f'), q)) :
    ∃ slot reg, r.agent.state.slot? field = some slot ∧ f.alloc r.name = .ok (reg, f') ∧ p = q ∧
      v = ⟨reg, slot.type.kind⟩ ∧
      code = [loadValue slot.type reg (.near .stateBase (Int32.ofNat slot.offset))] := by
  simp only [expression, bind_ok, lift_ok] at h
  obtain ⟨slot, _, _, ⟨within, rfl, rfl⟩, h⟩ := h
  obtain ⟨reg, read⟩ := readField_ok h
  exact ⟨slot, reg, stateSlot_ok.1 within, read⟩

lemma expression_field (h : expression plan r (.field field) f p = .ok (((v, code), f'), q)) :
    ∃ schema slot reg, r.message = some schema ∧ schema.payload.slot? field = some slot ∧
      f.alloc r.name = .ok (reg, f') ∧ p = q ∧ v = ⟨reg, slot.type.kind⟩ ∧
      code = [loadValue slot.type reg (.near .message (Int32.ofNat slot.offset))] := by
  simp only [expression, bind_ok, lift_ok] at h
  obtain ⟨slot, _, _, ⟨within, rfl, rfl⟩, h⟩ := h
  obtain ⟨schema, known, within⟩ := messageSlot_ok.1 within
  obtain ⟨reg, read⟩ := readField_ok h
  exact ⟨schema, slot, reg, known, within, read⟩

lemma expression_var (h : expression plan r (.var name) f p = .ok (((v, code), f'), q)) :
    ∃ x reg, f.lookup? name = some x ∧ f.alloc r.name = .ok (reg, f') ∧ p = q ∧
      v = ⟨reg, x.kind⟩ ∧ code = [.move reg (Variable.address x.slot)] := by
  simp only [expression, bind_ok, variableSlot_ok, alloc_ok, pure_ok, Prod.mk.injEq] at h
  obtain ⟨x, _, _, ⟨hx, rfl, rfl⟩, reg, _, _, ⟨own, rfl⟩, ⟨rfl, rfl⟩, rfl, rfl⟩ := h
  exact ⟨x, reg, hx, own, rfl, rfl, rfl⟩

end

section

def unaryInstruction (op : UnaryOperator) (reg : Register) : Instruction :=
  match op with
  | .neg => .unary .neg (.reg reg)
  | .bitNot => .unary .not (.reg reg)
  | .not => .arith .xor reg (.imm 1)

def unaryKind : UnaryOperator → ValueKind
  | .neg | .bitNot => .int
  | .not => .bool

lemma expression_unary {op : UnaryOperator} {operand : Expr}
    (h : expression plan r (.unary op operand) f p = .ok (((v, code), f'), q)) :
    ∃ first, expression plan r operand f p = .ok (((v, first), f'), q) ∧ v.kind = unaryKind op ∧
      code = first ++ [unaryInstruction op v.reg] := by
  simp only [expression, bind_ok, pure_ok, Prod.exists, Prod.mk.injEq] at h
  obtain ⟨_, first, _, _, begins, last, _, _, final, ⟨rfl, rfl⟩, rfl, rfl⟩ := h
  cases op <;>
  · simp only [applyUnary, bind_ok, expect_ok, pure_ok] at final
    obtain ⟨_, _, _, ⟨kind, rfl, rfl⟩, rfl, rfl, rfl⟩ := final
    exact ⟨first, begins, kind, rfl⟩

lemma expression_binary {op : BinaryOperator} {lhs rhs : Expr}
    (h : expression plan r (.binary op lhs rhs) f p = .ok (((v, code), f'), q)) :
      ∃ a first f1 p1 b second f2 p2 last, expression plan r lhs f p = .ok (((a, first), f1), p1) ∧
      expression plan r rhs f1 p1 = .ok (((b, second), f2), p2) ∧
      applyBinary r op a b f2 p2 = .ok (((v, last), f'), q) ∧ code = first ++ second ++ last := by
  simp only [expression, bind_ok, pure_ok, Prod.exists, Prod.mk.injEq] at h
  obtain ⟨a, first, f1, p1, left, b, second, f2, p2, right, v, last, _, _, final, ⟨rfl, rfl⟩, rfl,
      rfl⟩ := h
  exact ⟨a, first, f1, p1, b, second, f2, p2, last, left, right, final, rfl⟩

variable {op : BinaryOperator} {a b : Value}

lemma applyToTexts_ok {x y : Register}
    (h : applyToTexts r what op x y f p = .ok (((v, code), f'), q)) :
    ∃ service first kind last, callValue r (Service.label service) [.reg x, .reg y] kind f p =
        .ok (((v, first), f'), q) ∧ (service ≠ .enqueue ∧ service ≠ .allocate) ∧
        code = first ++ last ∧
      (last = [] ∨ last = [arith .xor v.reg (.imm 1)]) := by
  unfold applyToTexts at h
  split at h
  next => exact ⟨.concat, code, _, [], h, by decide, by simp, .inl rfl⟩
  next => exact ⟨.textEqual, code, _, [], h, by decide, by simp, .inl rfl⟩
  next =>
    simp only [bind_ok, pure_ok, Prod.exists, Prod.mk.injEq] at h
    obtain ⟨_, first, _, _, begins, ⟨rfl, rfl⟩, rfl, rfl⟩ := h
    exact ⟨.textEqual, first, _, _, begins, by decide, rfl, .inr rfl⟩
  next => simp at h

lemma division_ok {isQuotient : Bool} {x y : Register}
    (h : division r isQuotient x y f p = .ok ((code, f'), q)) :
    ∃ message s, p.internText "tidal: division by zero" = .ok (message, s) ∧ f = f' ∧
      ∃ nonzero s1 general s2 done, fresh "div.nonzero" s = .ok (nonzero, s1) ∧
        fresh "div.general" s1 = .ok (general, s2) ∧
        fresh "div.done" s2 = .ok (done, q) ∧
        code = divisionCode isQuotient x y
          (callSequence f.live abort.label [.address message 0]) nonzero general done := by
  simp only [division, bind_ok, liftEmit_ok, pure_ok] at h
  obtain ⟨message, _, s, ⟨hs, rfl⟩, nonzero, _, s1, ⟨h1, rfl⟩, general, _, s2, ⟨h2, rfl⟩, done, _,
    s3, ⟨h3, rfl⟩, stop, _, _, hstop, rfl, rfl, rfl⟩ := h
  obtain ⟨-, rfl, rfl, rfl⟩ := call_ok hstop
  exact ⟨message, s, hs, rfl, nonzero, s1, general, s2, done, h1, h2, h3, rfl⟩

def arithmeticCode (op : BinaryOperator) (x y : Register) : Code :=
  match op with
  | .add => [.arith .add x y]
  | .sub => [.arith .sub x y]
  | .mul => [.imul x (.reg y)]
  | .and | .land => [.arith .and x y]
  | .or | .lor => [.arith .or x y]
  | .xor => [.arith .xor x y]
  | .shl => [.move rcx y, .shift .shl (.reg x) .cl]
  | .shr => [.move rcx y, .shift .sar (.reg x) .cl]
  | _ => []

lemma arithmetic_ok {x y : Register} (h : arithmetic r what op x y f p = .ok ((code, f'), q)) :
    (∃ isQuotient, op = (if isQuotient then .div else .mod) ∧ division r isQuotient x y f p =
      .ok ((code, f'), q)) ∨ (op ≠ .div ∧ op ≠ .mod ∧ comparison? op = none ∧ f = f' ∧ p = q ∧
      code = arithmeticCode op x y) := by
  unfold arithmetic at h
  cases op with
  | div => exact .inl ⟨true, rfl, h⟩
  | mod => exact .inl ⟨false, rfl, h⟩
  | eq | ne | lt | le | gt | ge => simp at h
  | _ =>
    obtain ⟨rfl, rfl, rfl⟩ := pure_ok.1 h
    exact .inr ⟨by decide, by decide, rfl, rfl, rfl, rfl⟩

/-- What is written for an operator: a call for strings, else a comparison or arithmetic, with the
result in the register of the first operand. -/
lemma applyBinary_ok (h : applyBinary r op a b f p = .ok (((v, code), f'), q)) : a.kind = b.kind ∧
    ((a.kind = .str ∧ ∃ what,
        applyToTexts r what op a.reg b.reg (f.release [b.reg, a.reg]) p = .ok
          (((v, code), f'), q)) ∨
      (a.kind ≠ .str ∧ ∃ cond, comparison? op = some cond ∧ v = ⟨a.reg, .bool⟩ ∧
        (a.kind = .bool → op = .eq ∨ op = .ne) ∧
        f' = f.release [b.reg] ∧ p = q ∧ code = compareCode cond a.reg b.reg) ∨
      (a.kind ≠ .str ∧ comparison? op = none ∧ a.kind = operandKind op a.kind ∧ v = a ∧
        ∃ what e, arithmetic r what op a.reg b.reg f p = .ok ((code, e), q) ∧ f' = e.release
        [b.reg])) := by
  unfold applyBinary at h
  dsimp only at h
  split at h
  next => simp [bind_ok] at h
  next kind =>
    refine ⟨by simpa using kind, ?_⟩
    split at h
    next str =>
      simp only [bind_ok, release_ok] at h
      obtain ⟨_, _, _, ⟨rfl, rfl⟩, h⟩ := h
      exact .inl ⟨str, _, h⟩
    next str =>
      refine .inr ?_
      cases tested : comparison? op with
      | some cond =>
        simp only [tested, applyComparison] at h
        split at h
        next => simp [bind_ok] at h
        next order =>
          simp only [bind_ok, release_ok, pure_ok, Prod.mk.injEq] at h
          obtain ⟨_, _, _, ⟨rfl, rfl⟩, ⟨rfl, rfl⟩, rfl, rfl⟩ := h
          refine .inl ⟨str, cond, rfl, rfl, ?_, rfl, rfl, rfl⟩
          intro bool
          by_contra applied
          exact order ⟨bool, by tauto, by tauto⟩
      | none =>
        simp only [tested, bind_ok, expect_ok, release_ok, pure_ok, Prod.mk.injEq] at h
        obtain ⟨_, _, _, ⟨want, rfl, rfl⟩, code, e, _, coded, _, _, _, ⟨rfl, rfl⟩, ⟨rfl, rfl⟩, rfl,
            rfl⟩ := h
        exact .inr ⟨str, rfl, want, rfl, _, e, coded, rfl⟩

end

section

variable {args : List Expr} {wants : List ValueKind} {regs : List Register} {callee : String}
  {index : Nat}

lemma operands_cons {e : Expr} {rest : List Expr}
    {want : ValueKind}
    (h : operands plan r callee index (e :: rest) (want :: wants) f p =
    .ok (((regs, code), f'), q)) :
    ∃ v first f1 p1 others tail, expression plan r e f p = .ok (((v, first), f1), p1) ∧
      v.kind = want ∧ operands plan r callee (index + 1) rest wants f1 p1 = .ok
      (((others, tail), f'), q) ∧ regs = v.reg :: others ∧ code = first ++ tail := by
  simp only [operands, bind_ok, expect_ok, pure_ok, Prod.exists, Prod.mk.injEq] at h
  obtain ⟨v, first, f1, p1, begins, _, _, _, ⟨kind, rfl, rfl⟩, others, tail, _, _, more, ⟨rfl, rfl⟩,
      rfl, rfl⟩ := h
  exact ⟨v, first, f1, p1, others, tail, begins, kind, more, rfl, rfl⟩

lemma operands_of_nil (nil : args = [] ∨ wants = [])
    (h : operands plan r callee index args wants f p = .ok (((regs, code), f'), q)) :
    regs = [] ∧ code = [] ∧ f = f' ∧ p = q := by
  have skip : operands plan r callee index args wants = pure ([], []) := by
    obtain rfl | rfl := nil
    · simp [operands]
    · cases args <;> simp [operands]
  simp only [skip, pure_ok, Prod.mk.injEq] at h
  obtain ⟨⟨rfl, rfl⟩, rfl, rfl⟩ := h
  exact ⟨rfl, rfl, rfl, rfl⟩

inductive Application (plan : Plan) (r : Routine) (es : List Expr) (f : Frame) (p : Pool)
    (v : Value) (code : Code) (f' : Frame) (q : Pool) : Prop
  | intro {callee : String} {wants : List ValueKind} {regs : List Register} {first last : Code}
      {f1 : Frame} {p1 : Pool} {target : Label} {given : List Argument} {kind : ValueKind}
      (operands : operands plan r callee 1 es wants f p = .ok (((regs, first), f1), p1))
      (length : es.length = wants.length)
      (call : callValue r target given kind (f1.release regs.reverse) p1 = .ok (((v, last), f'), q))
      (given_eq : ∀ s d, .address s d ∉ given)
      (target_eq : (∃ service : Service, (service ≠ .enqueue ∧ service ≠ .allocate) ∧
        target = service.label) ∨ (∃ name, plan.helper? r.agent.name name = some target) ∧
          given = [.reg .stateBase, .reg .message] ++ regs.map .reg)
      (code_eq : code = first ++ last)

lemma checkArity_ok {m n : Nat} {u : Unit} : checkArity entity m n = .ok u ↔ n = m := by
  unfold checkArity
  split <;> simp_all

lemma expression_builtin {name : Builtin}
    (h : expression plan r (.builtin name args) f p = .ok (((v, code), f'), q)) :
    Application plan r args f p v code f' q := by
  by_cases read : name = .readInput ∧ args = []
  · obtain ⟨rfl, rfl⟩ := read
    simp only [expression] at h
    have absent : operands plan r "" 1 [] [] f p = .ok ((([], []), f), p) := by simp [operands]
    have call := h
    exact .intro absent rfl call (by simp) (.inl ⟨.readText, by decide, rfl⟩)
      (List.nil_append code).symm
  · rw [expression] at h
    swap
    · rintro rfl rfl
      exact read ⟨rfl, rfl⟩
    simp only [bind_ok, lift_ok, checkArity_ok, release_ok, pure_ok, Prod.exists,
      Prod.mk.injEq] at h
    obtain ⟨_, _, _, ⟨length, rfl, rfl⟩, regs, first, f1, p1, begins, _, _, _, ⟨rfl, rfl⟩, _, last,
      _, _, final, ⟨rfl, rfl⟩, rfl, rfl⟩ := h
    exact .intro begins length final (by simp)
      (.inl ⟨(builtinSignature name).2.2, by cases name <;> decide, rfl⟩) rfl

lemma expression_call (h : expression plan r (.call name args) f p = .ok (((v, code), f'), q)) :
    Application plan r args f p v code f' q := by
  simp only [expression, bind_ok, lift_ok, checkArity_ok, release_ok, pure_ok,
    Prod.exists, Prod.mk.injEq] at h
  obtain ⟨helper, _, _, ⟨-, rfl, rfl⟩, _, _, _, ⟨length, rfl, rfl⟩, target, _, _,
    ⟨aimed, rfl, rfl⟩, regs, first, f1, p1, begins, _, _, _, ⟨rfl, rfl⟩, _, last, _, _, final,
    ⟨rfl, rfl⟩, rfl, rfl⟩ := h
  refine .intro begins length final (by simp) (.inr ⟨⟨name, ?_⟩, rfl⟩) rfl
  unfold helperLabel at aimed
  split at aimed <;> simp_all

end

section

variable {cond value : Expr} {schema : String} {fields : List (String × Expr)} {payload : Register}
  {body : List Stmt}

lemma print_ok {descriptor : Int64} (h : print r descriptor v f p = .ok ((code, f'), q)) :
    ∃ service : Service, (service ≠ .enqueue ∧ service ≠ .allocate) ∧ f = f' ∧ p = q ∧
      code = callSequence f.live service.label [.imm descriptor, .reg v.reg] := by
  unfold print at h
  obtain ⟨-, hf, hp, coded⟩ := call_ok h
  refine ⟨_, ?_, hf, hp, coded⟩
  cases v.kind <;> decide

lemma condition_ok {otherwise : Label}
    (h : condition plan r cond otherwise what f p = .ok ((code, f'), q)) :
    ∃ v first e, expression plan r cond f p = .ok (((v, first), e), q) ∧ v.kind = .bool ∧
      f' = e.release [v.reg] ∧ code = first ++ [check v.reg, .jcc .e otherwise] := by
  simp only [condition, bind_ok, expect_ok, release_ok, pure_ok, Prod.exists] at h
  obtain ⟨v, first, e, _, begins, _, _, _, ⟨kind, rfl, rfl⟩, _, _, _, ⟨rfl, rfl⟩, rfl, rfl, rfl⟩ :=
    h
  exact ⟨v, first, e, begins, kind, rfl, rfl⟩

lemma assignment_state (h : assignment r (.state field) v f p = .ok ((code, f'), q)) :
    ∃ slot, r.agent.state.slot? field = some slot ∧ v.kind = slot.type.kind ∧ f = f' ∧ p = q ∧
      code = [storeValue slot.type (.near .stateBase (Int32.ofNat slot.offset)) v.reg] := by
  simp only [assignment, bind_ok, lift_ok, stateSlot_ok, expect_ok, pure_ok] at h
  obtain ⟨slot, _, _, ⟨within, rfl, rfl⟩, _, _, _, ⟨kind, rfl, rfl⟩, rfl, rfl, rfl⟩ := h
  exact ⟨slot, within, kind, rfl, rfl, rfl⟩

lemma assignment_var (h : assignment r (.var name) v f p = .ok ((code, f'), q)) :
    ∃ x, f.lookup? name = some x ∧ v.kind = x.kind ∧ f = f' ∧ p = q ∧
      code = [.move (Variable.address x.slot) v.reg] := by
  simp only [assignment, bind_ok, variableSlot_ok, expect_ok, pure_ok] at h
  obtain ⟨x, _, _, ⟨hx, rfl, rfl⟩, _, _, _, ⟨kind, rfl, rfl⟩, rfl, rfl, rfl⟩ := h
  exact ⟨x, hx, kind, rfl, rfl, rfl⟩

lemma messageSchema_ok {s : SchemaLayout} (h : messageSchema plan entity schema fields = .ok s) :
    plan.layout.schema? schema = some s := by
  unfold messageSchema at h
  split at h
  next => simp at h
  next s' hs =>
    split at h <;> split at h <;>
      simp only [AgentCompiler.bind_ok, AgentCompiler.throw_ok, AgentCompiler.pure_ok,
        false_and, exists_false] at h
    exact h ▸ hs

lemma messageFields_cons {schema : SchemaLayout} {rest : List Slot}
    (h : messageFields plan r schema payload fields (slot :: rest) f p = .ok ((code, f'), q)) :
    messageFields plan r schema payload fields rest f p = .ok ((code, f'), q) ∨
      ∃ e v first f1 p1 tail, fields.lookup slot.name = some e ∧ expression plan r e f p = .ok
        (((v, first), f1), p1) ∧ messageFields plan r schema payload fields rest
        (f1.release [v.reg]) p1 = .ok ((tail, f'), q) ∧ code = first ++
        [storeValue slot.type (.near payload (Int32.ofNat slot.offset)) v.reg] ++ tail := by
  rw [messageFields] at h
  cases he : fields.lookup slot.name with
  | none =>
    simp only [he] at h
    exact .inl h
  | some e =>
    simp only [he, bind_ok, expect_ok, release_ok, pure_ok, Prod.exists] at h
    obtain ⟨v, first, f1, p1, begins, _, _, _, ⟨-, rfl, rfl⟩, _, _, _, ⟨rfl, rfl⟩, tail, _, _, more,
      rfl, rfl, rfl⟩ := h
    exact .inr ⟨e, v, first, f1, p1, tail, rfl, begins, more, rfl⟩

lemma storageOf_ok {agent : String} {storage : Storage} :
    storageOf plan agent = .ok storage ↔ plan.storage? agent = some storage := by
  unfold storageOf
  split <;> simp_all

def deliveryArguments (schema : SchemaLayout) (payload : Register) (storage : Storage) :
    List Argument :=
  [.address storage.queue 0, .imm (Int64.ofNat schema.id), .reg payload]

lemma deliver_ok {schema : SchemaLayout} {goals : List String}
    (h : deliver plan r schema payload goals f p = .ok ((code, f'), q)) :
    f = f' ∧ p = q ∧ ∃ storages, List.Forall₂ (fun g s => plan.storage? g = some s) goals storages ∧
      code = storages.flatMap fun storage =>
        callSequence f.live enqueue.label (deliveryArguments schema payload storage) := by
  induction goals generalizing code with
  | nil =>
    simp only [deliver, pure_ok] at h
    obtain ⟨rfl, hf, hp⟩ := h
    exact ⟨hf, hp, [], .nil, rfl⟩
  | cons goal rest ih =>
    simp only [deliver, bind_ok, lift_ok, storageOf_ok, pure_ok] at h
    obtain ⟨storage, _, _, ⟨stored, rfl, rfl⟩, first, _, _, begins, tail, _, _, more, rfl, rfl,
        rfl⟩ := h
    obtain ⟨-, rfl, rfl, rfl⟩ := call_ok begins
    obtain ⟨hf, hp, storages, hstorages, rfl⟩ := ih more
    exact ⟨hf, hp, storage :: storages, .cons stored hstorages, rfl⟩

lemma message_ok (h : message plan r schema fields f p = .ok ((code, f'), q)) :
    ∃ s, plan.layout.schema? schema = some s ∧
      ((plan.layout.destinations (.agent r.agent.name) s.name = [] ∧ f = f' ∧ p = q ∧ code = []) ∨
        ∃ payload first f1 p1 second f2 last,
          callValue r allocate.label [.imm (Int64.ofNat s.payload.size)] .str f p =
            .ok (((payload, first), f1), p1) ∧
          messageFields plan r s payload.reg fields s.payload.slots f1 p1 = .ok ((second, f2), q) ∧
          deliver plan r s payload.reg (plan.layout.destinations (.agent r.agent.name) s.name)
            f2 q = .ok ((last, f2), q) ∧
          f' = f2.release [payload.reg] ∧ code = first ++ second ++ last) := by
  simp only [message, bind_ok, lift_ok] at h
  obtain ⟨s, _, _, ⟨hs, rfl, rfl⟩, h⟩ := h
  refine ⟨s, messageSchema_ok hs, ?_⟩
  cases goals : plan.layout.destinations (.agent r.agent.name) s.name with
  | nil =>
    simp only [goals, pure_ok] at h
    obtain ⟨rfl, hf, hp⟩ := h
    exact .inl ⟨rfl, hf, hp, rfl⟩
  | cons goal rest =>
    simp only [goals, bind_ok, release_ok, pure_ok, Prod.exists] at h
    obtain ⟨payload, first, f1, p1, begins, second, f2, _, later, last, _, _, final, _, _, _,
      ⟨rfl, rfl⟩, rfl, rfl, rfl⟩ := h
    obtain ⟨rfl, rfl, -⟩ := deliver_ok final
    exact .inr ⟨payload, first, f1, p1, second, f2, last, begins, later, final, rfl, rfl⟩

lemma returnCode_ok {value : Option Expr} (h : returnCode plan r value f p = .ok ((code, f'), q)) :
    (value = none ∧ f = f' ∧ p = q ∧ code = [.zero .rax, .jmp r.epilogue]) ∨
      ∃ e v first f1, value = some e ∧ returnKind r.returns = some v.kind ∧
        expression plan r e f p = .ok (((v, first), f1), q) ∧ f' = f1.release [v.reg] ∧
        code = first ++ [.move result v.reg, .jmp r.epilogue] := by
  unfold returnCode at h
  cases kind : returnKind r.returns <;> cases value <;> simp only [kind, bind_ok, pure_ok] at h
  case none.none =>
    obtain ⟨_, _, _, ⟨rfl, rfl, rfl⟩, rfl, hf, hp⟩ := h
    exact .inl ⟨rfl, hf, hp, rfl⟩
  case none.some => simp at h
  case some.none =>
    split at h
    next =>
      simp only [bind_ok, pure_ok] at h
      obtain ⟨_, _, _, ⟨rfl, rfl, rfl⟩, rfl, hf, hp⟩ := h
      exact .inl ⟨rfl, hf, hp, rfl⟩
    next => simp only [bind_ok, throw_ok, false_and, exists_false] at h
  case some.some e =>
    simp only [expect_ok, release_ok, Prod.exists] at h
    obtain ⟨v, first, f1, _, begins, _, _, _, ⟨rfl, rfl, rfl⟩, _, _, _, ⟨rfl, rfl⟩, _, _, _,
      ⟨rfl, rfl, rfl⟩, rfl, rfl, rfl⟩ := h
    exact .inr ⟨e, v, first, f1, rfl, rfl, begins, rfl, by simp⟩

lemma statement_declare (h : statement plan r (.declare name value) f p = .ok ((code, f'), q)) :
    ∃ v first f1 x f2, expression plan r value f p = .ok (((v, first), f1), q) ∧
      f1.declare r.name name v.kind = .ok (x, f2) ∧ f' = f2.release [v.reg] ∧
      code = first ++ [.move (Variable.address x.slot) v.reg] := by
  simp only [statement, bind_ok, declare_ok, release_ok, pure_ok, Prod.exists] at h
  obtain ⟨v, first, f1, _, begins, x, f2, _, ⟨hx, rfl⟩, _, _, _, ⟨rfl, rfl⟩, rfl, rfl, rfl⟩ := h
  exact ⟨v, first, f1, x, f2, begins, hx, rfl, rfl⟩

lemma statement_assign {target : Target}
    (h : statement plan r (.assign target value) f p = .ok ((code, f'), q)) :
    ∃ v first f1 store, expression plan r value f p = .ok (((v, first), f1), q) ∧
      assignment r target v f1 q = .ok ((store, f1), q) ∧ f' = f1.release [v.reg] ∧
      code = first ++ store := by
  simp only [statement, bind_ok, release_ok, pure_ok, Prod.exists] at h
  obtain ⟨v, first, f1, p1, begins, store, f2, p2, stores, _, _, _, ⟨rfl, rfl⟩, rfl, rfl, rfl⟩ := h
  have same : f1 = f2 ∧ p1 = p2 := by
    cases target with
    | state field =>
      obtain ⟨-, -, -, hf, hp, -⟩ := assignment_state stores
      exact ⟨hf, hp⟩
    | var name =>
      obtain ⟨-, -, -, hf, hp, -⟩ := assignment_var stores
      exact ⟨hf, hp⟩
  obtain ⟨rfl, rfl⟩ := same
  exact ⟨v, first, f1, store, begins, stores, rfl, rfl⟩

lemma statement_branch {onTrue onFalse : List Stmt}
    (h : statement plan r (.branch cond onTrue onFalse) f p = .ok ((code, f'), q)) :
    ∃ other p1 join p2 test f1 p3 first f2 p4 second,
      fresh "if.else" p = .ok (other, p1) ∧ fresh "if.join" p1 = .ok (join, p2) ∧
      condition plan r cond other "if condition" f p2 = .ok ((test, f1), p3) ∧
      block plan r onTrue f1 p3 = .ok ((first, f2), p4) ∧
      block plan r onFalse f2 p4 = .ok ((second, f'), q) ∧
      code = test ++ first ++ [jmp join, .label other] ++ second ++ [label join] := by
  simp only [statement, bind_ok, liftEmit_ok, pure_ok] at h
  obtain ⟨other, _, p1, ⟨h1, rfl⟩, join, _, p2, ⟨h2, rfl⟩, test, f1, p3, tested, first, f2,
    p4, begins, second, _, _, later, rfl, rfl, rfl⟩ := h
  exact ⟨other, p1, join, p2, test, f1, p3, first, f2, p4, second, h1, h2, tested, begins,
    later, rfl⟩

lemma statement_loop (h : statement plan r (.loop cond body) f p = .ok ((code, f'), q)) :
    ∃ head p1 leave p2 test f1 p3 inner,
      fresh "while.head" p = .ok (head, p1) ∧ fresh "while.exit" p1 = .ok (leave, p2) ∧
      condition plan r cond leave "while condition" f p2 = .ok ((test, f1), p3) ∧
      block plan r body f1 p3 = .ok ((inner, f'), q) ∧
      code = [label head] ++ test ++ inner ++ [jmp head, .label leave] := by
  simp only [statement, bind_ok, liftEmit_ok, pure_ok] at h
  obtain ⟨head, _, p1, ⟨h1, rfl⟩, leave, _, p2, ⟨h2, rfl⟩, test, f1, p3, tested, inner, _, _,
      nested, rfl, rfl, rfl⟩ := h
  exact ⟨head, p1, leave, p2, test, f1, p3, inner, h1, h2, tested, nested, rfl⟩

lemma statement_block : statement plan r (.block body) =
    block plan r body := by rw [statement, block]

lemma statement_write (h : statement plan r (.write value) f p = .ok ((code, f'), q)) :
    ∃ v first f1 last, expression plan r value f p = .ok (((v, first), f1), q) ∧
      print r outputDescriptor v (f1.release [v.reg]) q = .ok ((last, f'), q) ∧ f' = f1.release
      [v.reg] ∧ code = first ++ last := by
  simp only [statement, bind_ok, release_ok, pure_ok, Prod.exists] at h
  obtain ⟨v, first, f1, p1, begins, _, _, _, ⟨rfl, rfl⟩, last, _, _, final, rfl, rfl, rfl⟩ := h
  obtain ⟨-, -, rfl, rfl, -⟩ := print_ok final
  exact ⟨v, first, f1, last, begins, final, rfl, rfl⟩

lemma statement_report (h : statement plan r (.report value) f p = .ok ((code, f'), q)) :
    (f = f' ∧ p = q ∧ code = []) ∨ ∃ newline p1 v first f1 shown last, p.internText "\n" = .ok
        (newline, p1) ∧ expression plan r value f p1 = .ok (((v, first), f1), q) ∧
        print r reportDescriptor v (f1.release [v.reg]) q = .ok ((shown, f'), q) ∧
        call r putText.label [.imm reportDescriptor, .address newline 0] f' q = .ok
        ((last, f'), q) ∧ f' = f1.release [v.reg] ∧ code = first ++ shown ++ last := by
  rw [statement] at h
  split at h
  next =>
    simp only [bind_ok, liftEmit_ok, release_ok, pure_ok, Prod.exists] at h
    obtain ⟨newline, _, p1, ⟨hnewline, rfl⟩, v, first, f1, _, begins, _, _, _, ⟨rfl, rfl⟩, shown, _,
      _, hshown, last, _, _, final, rfl, rfl, rfl⟩ := h
    obtain ⟨-, -, rfl, rfl, -⟩ := print_ok hshown
    obtain ⟨-, rfl, rfl, -⟩ := call_ok final
    exact .inr ⟨newline, p1, v, first, f1, shown, last, hnewline, begins, hshown, final, rfl, rfl⟩
  next =>
    simp only [pure_ok] at h
    obtain ⟨rfl, hf, hp⟩ := h
    exact .inl ⟨hf, hp, rfl⟩

lemma statements_cons {s : Stmt} {rest : List Stmt}
    (h : statements plan r (s :: rest) f p = .ok ((code, f'), q)) :
    ∃ first f1 p1 tail, statement plan r s f p = .ok ((first, f1), p1) ∧
      statements plan r rest f1 p1 = .ok ((tail, f'), q) ∧ code = first ++ tail := by
  simp only [statements, bind_ok, pure_ok] at h
  obtain ⟨first, f1, p1, begins, tail, _, _, more, rfl, rfl, rfl⟩ := h
  exact ⟨first, f1, p1, tail, begins, more, rfl⟩

lemma statements_nil (h : statements plan r [] f p = .ok ((code, f'), q)) : f = f' ∧ p = q ∧
    code = [] := by
  simp only [statements, pure_ok] at h
  obtain ⟨rfl, hf, hp⟩ := h
  exact ⟨hf, hp, rfl⟩

lemma block_ok (h : block plan r body f p = .ok ((code, f'), q)) :
    ∃ e, statements plan r body f.openScope p = .ok ((code, e), q) ∧ f' = e.closeScope := by
  obtain ⟨e, inner, rfl⟩ := inScope_ok.1 h
  exact ⟨e, inner, rfl⟩

end

end Lower

end AgentCompiler
