import AgentCompiler.Proofs.BodyMeaning
import AgentCompiler.Proofs.LoweringSteps
import AgentCompiler.Proofs.Processor

/-!
What the instructions of the operators compute. A value stands in a register as a word: an integer
as it is, a boolean as one or zero, a string as its address. For every operator the instructions
that are written for it leave the word of its result in the register of the first operand.
-/

namespace AgentCompiler

open Process BinaryOperator Condition Datum
open Register (rax rcx rdx)
open BitVec (ofNat)

variable {cond : Condition}

def Datum.word : Datum → Word
  | int value => value.toBitVec
  | bool value => ofNat 64 value.toNat
  | str address => address.toBitVec

section

lemma toInt_bounds (x : Word) : -0x8000000000000000 ≤ x.toInt ∧ x.toInt < 0x8000000000000000 :=
  ⟨BitVec.le_toInt x, BitVec.toInt_lt⟩

lemma toNat_smod_width (x : Word) : (x.smod 64).toNat = x.toNat % 64 := by
  have value : (x.smod 64).toInt = x.toInt % 64 := BitVec.toInt_smod.trans
    (Int.fmod_eq_emod_of_nonneg _ (by decide))
  have bound := (x.smod 64).isLt
  rw [BitVec.toInt_eq_toNat_cond, BitVec.toInt_eq_toNat_cond] at value
  split at value <;> split at value <;> omega

lemma sign_ne_overflow (x y : Word) : ((x - y).msb != BitVec.ssubOverflow x y) = decide
    (x.toInt < y.toInt) := by
  obtain ⟨lowx, ighx⟩ := toInt_bounds x
  obtain ⟨lowy, ighy⟩ := toInt_bounds y
  have difference : (x - y).toInt = (x.toInt - y.toInt).bmod 0x10000000000000000 := BitVec.toInt_sub
  have sign : (x - y).msb = decide ((x - y).toInt < 0) := BitVec.msb_eq_toInt
  have overflow : BitVec.ssubOverflow x y = (decide (0x8000000000000000 ≤ x.toInt - y.toInt) ||
      decide (x.toInt - y.toInt < -0x8000000000000000)) := rfl
  rw [sign, overflow]
  by_cases high : 0x8000000000000000 ≤ x.toInt - y.toInt
  · have wrapped : (x - y).toInt < 0 := by
      rw [difference, Int.bmod]
      split <;> omega
    rw [decide_eq_true wrapped, decide_eq_true high,
      decide_eq_false (by omega : ¬ x.toInt < y.toInt)]
    rfl
  by_cases low : x.toInt - y.toInt < -0x8000000000000000
  · have wrapped : ¬ (x - y).toInt < 0 := by
      rw [difference, Int.bmod]
      split <;> omega
    rw [decide_eq_false wrapped, decide_eq_false high, decide_eq_true low,
      decide_eq_true (by omega : x.toInt < y.toInt)]
    rfl
  · have plain : ((x - y).toInt < 0) = (x.toInt < y.toInt) := by
      rw [difference, Int.bmod, eq_iff_iff]
      split <;> omega
    simp only [plain, decide_eq_false high, decide_eq_false low, Bool.or_false, Bool.bne_false]

lemma extend_flag (x : Word) (flag : Bool) :
    ((x &&& ~~~0xFF ||| ofNat 64 flag.toNat &&& 0xFF).setWidth 8).setWidth 64 =
        ofNat 64 flag.toNat := by
  have masked : (x &&& ~~~0xFF).setWidth 8 = 0#8 := by
    rw [BitVec.setWidth_and]
    exact BitVec.and_zero
  rw [BitVec.setWidth_or, masked, BitVec.zero_or]
  cases flag <;> rfl

lemma toInt_extended (x : Word) : ((if x.msb then BitVec.allOnes 64 else 0) ++ x).toInt =
    x.toInt := by
  have value := @BitVec.toInt_append 64 64 (if x.msb then BitVec.allOnes 64 else 0) x
  rw [value, BitVec.toInt_eq_msb_cond x]
  by_cases negative : x.msb
  · simp only [negative, if_true, BitVec.toInt_allOnes]
    omega
  · simp [negative]

lemma sdiv_neg_one (x : Word) : x.sdiv (-1) = -x := by
  apply BitVec.eq_of_toInt_eq
  have divisor : (-1 : Word).toInt = -1 := by decide
  rw [BitVec.toInt_sdiv, divisor, Int.tdiv_neg, Int.tdiv_one, ← BitVec.toInt_neg]

lemma srem_neg_one (x : Word) : x.srem (-1) = 0 := by
  apply BitVec.eq_of_toInt_eq
  have divisor : (-1 : Word).toInt = -1 := by decide
  rw [BitVec.toInt_srem, divisor, Int.tmod_neg, Int.tmod_one]
  rfl

end

namespace Condition

@[simp] lemma holds_e_cmp {n : Nat} (x y : BitVec n) : e.holds (AluOp.cmp.flags x y) = some
    (x == y) := by
  change some (x - y == 0) = _
  rw [Option.some.injEq, Bool.eq_iff_iff, beq_iff_eq, beq_iff_eq]
  constructor
  · intro same
    rw [← BitVec.sub_add_cancel x y, same]
    exact BitVec.zero_add y
  · rintro rfl
    exact BitVec.sub_self x

variable (x y : Word)

@[simp] lemma holds_ne_cmp : ne.holds (AluOp.cmp.flags x y) = some (x != y) := by
  have equal : (AluOp.cmp.flags x y).zero = some (x == y) := holds_e_cmp x y
  rw [holds, equal]
  rfl

@[simp] lemma holds_l_cmp : l.holds (AluOp.cmp.flags x y) = some (decide (x.toInt < y.toInt)) :=
  congrArg some (sign_ne_overflow x y)

@[simp] lemma holds_ge_cmp : ge.holds (AluOp.cmp.flags x y) = some
    (decide (y.toInt ≤ x.toInt)) := by
  change some ((x - y).msb == BitVec.ssubOverflow x y) = _
  have less := sign_ne_overflow x y
  rw [bne, Bool.not_eq_eq_eq_not, ← decide_not] at less
  rw [less]
  simp only [Int.not_lt]

@[simp] lemma holds_le_cmp : le.holds (AluOp.cmp.flags x y) = some
    (decide (x.toInt ≤ y.toInt)) := by
  have equal : (AluOp.cmp.flags x y).zero = some (x == y) := holds_e_cmp x y
  rw [holds, equal]
  change some (x == y || ((x - y).msb != BitVec.ssubOverflow x y)) = _
  rw [sign_ne_overflow, Option.some.injEq, Bool.eq_iff_iff, Bool.or_eq_true, beq_iff_eq,
    decide_eq_true_iff, decide_eq_true_iff, ← BitVec.toInt_inj]
  omega

@[simp] lemma holds_g_cmp : g.holds (AluOp.cmp.flags x y) = some (decide (y.toInt < x.toInt)) := by
  have contrary : g.holds (AluOp.cmp.flags x y) = (le.holds (AluOp.cmp.flags x y)).map (!·) := rfl
  rw [contrary, holds_le_cmp, Option.map_some, ← decide_not]
  simp only [Int.not_le]

end Condition

namespace Process

variable {P : Process} {s : Machine}

@[simp] lemma effect_setcc {flag : Bool} (holds : cond.holds s.flags = some flag) (r : Register) :
    P.effect (.setcc cond r) s =
      some (s.set r (s.regs r &&& ~~~0xFF ||| ofNat 64 flag.toNat &&& 0xFF)) := by
  rw [effect, holds]
  rfl

@[simp] lemma effect_movZeroByte (r a : Register) (s : Machine) :
      P.effect (.movZeroByte r (.reg a)) s = some (s.set r (((s.regs a).setWidth 8).setWidth 64)) :=
      rfl

@[simp] lemma effect_neg (r : Register) (s : Machine) : P.effect (.unary .neg (.reg r)) s = some
    (({ s with
      flags := .ofResult (-s.regs r) (some (s.regs r != 0))
        (some (BitVec.negOverflow (s.regs r))) } : Machine).set r (-s.regs r)) := rfl

@[simp] lemma effect_not (r : Register) (s : Machine) :
    P.effect (.unary .not (.reg r)) s = some (s.set r (~~~s.regs r)) := rfl

@[simp] lemma effect_imul (r a : Register) (s : Machine) : P.effect (.imul r (.reg a)) s =
      let lost := some (BitVec.smulOverflow (s.regs r) (s.regs a))
      some (({ s with flags := ⟨lost, none, none, lost⟩ } : Machine).set r (s.regs r * s.regs a)) :=
        rfl

@[simp] lemma effect_shift_cl (op : ShiftOp) (r : Register) (s : Machine) :
    P.effect (.shift op (.reg r) .cl) s =
      let count := (s.regs rcx).toNat % 64
      some (({ s with
        flags := if count = 0 then s.flags
          else .ofResult (op.result (s.regs r) count) none none } : Machine).set r
        (op.result (s.regs r) count)) := rfl

@[simp] lemma effect_cqo (s : Machine) : P.effect .cqo s =
    some (s.set rdx (if (s.regs rax).msb then BitVec.allOnes 64 else 0)) := rfl

lemma effect_idiv {x y : Word} {r : Register} (low : s.regs rax = x)
    (high : s.regs rdx = if x.msb then BitVec.allOnes 64 else 0) (divisor : s.regs r = y)
    (nonzero : y ≠ 0) (general : y ≠ -1) :
    P.effect (.unary .idiv (.reg r)) s = some ({ (s.set rax (x.sdiv y)).set rdx (x.srem y) with
      flags := .undefined }) := by
  have quotient : (x.sdiv y).toInt = x.toInt.tdiv y.toInt := BitVec.toInt_sdiv_of_ne_or_ne x y
    (.inr general)
  have remainder : (x.srem y).toInt = x.toInt.tmod y.toInt := BitVec.toInt_srem x y
  have bounds := toInt_bounds (x.sdiv y)
  have fits : ¬ (y.toInt = 0 ∨ x.toInt.tdiv y.toInt < -0x8000000000000000 ∨
      0x7FFFFFFFFFFFFFFF < x.toInt.tdiv y.toInt) := by
    rintro (zero | outside)
    · exact nonzero (BitVec.eq_of_toInt_eq zero)
    · omega
  have opened : P.effect (.unary .idiv (.reg r)) s =
      divide s (s.regs rdx ++ s.regs rax).toInt (s.regs r).toInt
        (-0x8000000000000000) 0x7FFFFFFFFFFFFFFF := rfl
  rw [opened, divisor, high, low, toInt_extended, divide]
  dsimp only
  rw [if_neg fits, ← quotient, ← remainder, BitVec.ofInt_toInt, BitVec.ofInt_toInt]

end Process

namespace Machine

structure Receives (s : Machine) (r : Register) (value : Word) (spent : List Register)
    (t : Machine) :
    Prop where
  value : t.regs r = value
  memory : t.memory = s.memory
  others : s.ChangesOnly (r :: spent) t

lemma receives_set (s : Machine) (flags : Flags) (r : Register) (value : Word)
    (spent : List Register) : s.Receives r value spent (({ s with flags } : Machine).set r value)
    where
  value := by simp
  memory := rfl
  others := by
    intro other outside
    have differs : other ≠ r := fun same => outside (by simp [same])
    simp [differs]

end Machine

namespace Lower

variable {P : Process} {s : Machine} {a b : Register} {x y d : Datum} {op : BinaryOperator}
  {value : Word}

lemma execute_unary {op : UnaryOperator} (operand : s.regs a = x.word)
    (gives : op.apply x = some d) :
    ∃ t, P.execute [unaryInstruction op a] s = some t ∧ s.Receives a d.word [] t := by
  cases op <;> cases x <;> simp only [UnaryOperator.apply, Option.some.injEq,
    reduceCtorEq] at gives <;> subst gives
  case neg.int value =>
    have result : (Datum.int (-value)).word = -s.regs a := by
      rw [operand, word, word, Int64.toBitVec_neg]
    exact ⟨_, rfl, result ▸ s.receives_set _ a _ []⟩
  case not.bool value =>
    have result : (Datum.bool !value).word = AluOp.xor.result (s.regs a) 1 := by
      rw [operand]
      cases value <;> rfl
    exact ⟨_, rfl, result ▸ s.receives_set _ a _ []⟩
  case bitNot.int value =>
    have result : (Datum.int (~~~value)).word = ~~~s.regs a := by
      rw [operand, word, word, Int64.toBitVec_not]
    exact ⟨_, rfl, result ▸ s.receives_set _ a _ []⟩

lemma toBitVec_beq (m n : Int64) : (m.toBitVec == n.toBitVec) = (m == n) := by
  rw [Bool.eq_iff_iff, beq_iff_eq, beq_iff_eq, Int64.toBitVec_inj]

lemma comparison_holds (compares : comparison? op = some cond)
    (gives : (op.apply x y).run = some (.ok d)) :
    ∃ flag, cond.holds (AluOp.cmp.flags x.word y.word) = some flag ∧ d = .bool flag := by
  have ordered : ∀ m n : Int64, decide (m < n) = decide (m.toBitVec.toInt < n.toBitVec.toInt) ∧
      decide (m ≤ n) = decide (m.toBitVec.toInt ≤ n.toBitVec.toInt) := fun m n =>
    ⟨decide_eq_decide.2 Int64.lt_iff_toInt_lt, decide_eq_decide.2 Int64.le_iff_toInt_le⟩
  cases x <;> cases y <;> cases op <;> simp [comparison?] at compares <;> subst compares <;>
    simp [apply, applyInt, applyBool] at gives <;>
    subst gives
  case bool.bool.eq m n | bool.bool.ne m n =>
    cases m <;> cases n <;> exact ⟨_, rfl, rfl⟩
  all_goals
    refine ⟨_, ?_, rfl⟩
    simp [word, ordered, toBitVec_beq, bne]

lemma execute_compare (compares : comparison? op = some cond) (left : s.regs a = x.word)
    (right : s.regs b = y.word) (gives : (op.apply x y).run = some (.ok d)) :
    ∃ t, P.execute (compareCode cond a b) s = some t ∧ s.Receives a d.word [] t := by
  obtain ⟨flag, holds, rfl⟩ := comparison_holds compares gives
  rw [← left, ← right] at holds
  let compared : Machine := { s with flags := AluOp.cmp.flags (s.regs a) (s.regs b) }
  have set : P.effect (.setcc cond a) compared = some (compared.set a
      (s.regs a &&& ~~~0xFF ||| ofNat 64 flag.toNat &&& 0xFF)) := effect_setcc holds a
  have runs : P.execute (compareCode cond a b) s = some ((compared.set a
      (s.regs a &&& ~~~0xFF ||| ofNat 64 flag.toNat &&& 0xFF)).set a (Datum.bool flag).word) := by
    have first : P.effect (.arith .cmp a b) s = some compared := by simp [compared]
    rw [compareCode, execute_cons, first, Option.bind_some, execute_cons, set,
      Option.bind_some, execute_cons, effect_movZeroByte, Machine.set_regs, Function.update_self,
      extend_flag]
    rfl
  refine ⟨_, runs, by simp, rfl, fun other outside => ?_⟩
  have differs : other ≠ a := fun same => outside (by simp [same])
  simp [compared, differs]

lemma execute_alu {alu : AluOp} (stores : alu ≠ .cmp)
    (result : alu.result (s.regs a) (s.regs b) = value) :
    ∃ t, P.execute [.arith alu a b] s = some t ∧ s.Receives a value [rcx] t := by
  subst result
  refine ⟨_, ?_, s.receives_set (alu.flags (s.regs a) (s.regs b)) a _ [rcx]⟩
  rw [execute_cons, effect_arith stores]
  rfl

lemma execute_shift {shift : ShiftOp} (apart : a ≠ rcx)
    (result : shift.result (s.regs a) ((s.regs b).toNat % 64) = value) :
    ∃ t, P.execute [.move rcx b, .shift shift (.reg a) .cl] s = some t ∧ s.Receives a value
        [rcx] t := by
  refine ⟨_, rfl, ?_, rfl, fun other outside => ?_⟩
  · simp [← result, apart, Machine.shiftCount]
  · rw [List.mem_cons, List.mem_singleton, not_or] at outside
    simp [outside.1, outside.2]

lemma execute_arithmetic (noQuotient : op ≠ .div) (noRemainder : op ≠ .mod)
    (plain : comparison? op = none) (apart : a ≠ rcx) (left : s.regs a = x.word)
    (right : s.regs b = y.word) (gives : (op.apply x y).run = some (.ok d)) :
    ∃ t, P.execute (arithmeticCode op a b) s = some t ∧ s.Receives a d.word [rcx] t := by
  cases x <;> cases y <;> cases op <;> simp [comparison?] at plain noQuotient noRemainder <;>
    simp [apply, applyInt, applyBool] at gives <;>
    subst gives
  case int.int.mul m n =>
    have result : (Datum.int (m * n)).word = s.regs a * s.regs b := by
      rw [left, right, word, word, word, Int64.toBitVec_mul]
    let lost := some (BitVec.smulOverflow (s.regs a) (s.regs b))
    exact ⟨_, rfl, result ▸ s.receives_set ⟨lost, none, none, lost⟩ a _ [rcx]⟩
  case int.int.shl m n =>
    refine execute_shift apart ?_
    rw [left, right, word, word, word, Int64.toBitVec_shiftLeft,
      BitVec.shiftLeft_eq', toNat_smod_width]
    rfl
  case int.int.shr m n =>
    refine execute_shift apart ?_
    rw [left, right, word, word, word, Int64.toBitVec_shiftRight,
      BitVec.sshiftRight_eq', toNat_smod_width]
    rfl
  case bool.bool.and m n | bool.bool.or m n | bool.bool.xor m n | bool.bool.land m
      n | bool.bool.lor m n =>
    refine execute_alu (by decide) ?_
    rw [left, right]
    cases m <;> cases n <;> rfl
  all_goals
    refine execute_alu (by decide) ?_
    rw [left, right]
    simp [word, AluOp.result]

section

variable {k j : Nat} {isQuotient : Bool} {stop : Code} {nonzero general done : Label} {m n : Int64}

lemma division_stops (placed : P.Holds k (divisionCode isQuotient a b stop nonzero general done))
    (divisor : s.regs b = 0) : P.Holds (k + 2) stop ∧ ∃ flags, P.Flows ⟨k, s⟩
    ⟨k + 2, { s with flags }⟩ := by
  rw [divisionCode, List.append_assoc, holds_append, holds_append] at placed
  obtain ⟨front, stands, -⟩ := placed
  obtain ⟨first, second⟩ := holds_cons.1 front
  obtain ⟨second, -⟩ := holds_cons.1 second
  refine ⟨stands, .ofResult (s.regs b) (some false) (some false), ?_⟩
  have zero : ne.holds (Flags.ofResult (s.regs b) (some false) (some false)) =
      some false := by rw [divisor]; rfl
  exact .head (.effect first (effect_check b s)) (.single (.pass second (.inl rfl) zero))

def divideCode (isQuotient : Bool) (a b : Register) (nonzero general done : Label) : Code :=
  [.label nonzero, .arith .cmp b (.imm (-1)), .jcc .ne general,
    if isQuotient then .unary .neg (.reg a) else .zero a, .jmp done,
    .label general, .move rax a, .cqo, .unary .idiv (.reg b),
      .move a (if isQuotient then rax else rdx), .label done]

section

variable (distinct : P.HasDistinctLabels)
  (placed : P.Holds j (divideCode isQuotient a b nonzero general done))
include distinct placed

lemma divide_by_minus_one
    (left : s.regs a = m.toBitVec) (right : s.regs b = -1) : ∃ t, P.Flows ⟨j, s⟩ ⟨j + 11, t⟩ ∧
      s.Receives a (if isQuotient then m / -1 else m % -1).toBitVec [rax, rdx] t := by
  simp only [divideCode, holds_cons] at placed
  obtain ⟨entry, compare, branch, short, jump, -, -, -, -, -, last, -⟩ := placed
  let compared : Machine := { s with flags := AluOp.cmp.flags (s.regs b) (-1) }
  have passed : ne.holds compared.flags = some false := by
    rw [holds_ne_cmp, right]
    rfl
  obtain ⟨t, runs, receives⟩ : ∃ t, P.effect (if isQuotient then .unary .neg (.reg a) else .zero a)
      compared = some t ∧ s.Receives a (if isQuotient then m / -1 else m % -1).toBitVec
      [rax, rdx] t := by
    cases isQuotient with
    | true =>
      have result : (m / -1).toBitVec = -s.regs a := by
        rw [left, Int64.toBitVec_div]
        exact sdiv_neg_one _
      exact ⟨_, effect_neg a compared, result ▸ s.receives_set _ a _ _⟩
    | false =>
      have result : (m % -1).toBitVec = 0 := by
        rw [Int64.toBitVec_mod]
        exact srem_neg_one _
      exact ⟨_, effect_zero a compared, result ▸ s.receives_set _ a _ _⟩
  refine ⟨t, ?_, receives⟩
  calc P.Flows ⟨j, s⟩ ⟨j + 1, s⟩ := .single (.effect entry rfl)
    P.Flows _ ⟨j + 2, compared⟩ := .single (.effect compare (by simp [compared]))
    P.Flows _ ⟨j + 3, compared⟩ := .single (.pass branch (.inl rfl) passed)
    P.Flows _ ⟨j + 4, t⟩ := .single (.effect short runs)
    P.Flows _ ⟨j + 10, t⟩ := .single (.jump jump (.inl rfl) (labelPosition_of_at distinct last))
    P.Flows _ ⟨j + 11, t⟩ := .single (.effect last rfl)

lemma divide_in_general (kept : b ≠ rax ∧ b ≠ rdx)
    (left : s.regs a = m.toBitVec) (right : s.regs b = n.toBitVec) (divisor : n ≠ 0)
    (other : n.toBitVec ≠ -1) : ∃ t, P.Flows ⟨j, s⟩ ⟨j + 11, t⟩ ∧
      s.Receives a (if isQuotient then m / n else m % n).toBitVec [rax, rdx] t := by
  simp only [divideCode, holds_cons] at placed
  obtain ⟨entry, compare, branch, -, -, long, load, extend, divide, take, last, -⟩ := placed
  let compared : Machine := { s with flags := AluOp.cmp.flags (s.regs b) (-1) }
  let loaded := (compared.set rax m.toBitVec).set rdx
    (if m.toBitVec.msb then BitVec.allOnes 64 else 0)
  let divided : Machine := { (loaded.set rax (m / n).toBitVec).set rdx (m % n).toBitVec with
    flags := .undefined }
  have taken : ne.holds compared.flags = some true := by
    rw [holds_ne_cmp, right, Option.some.injEq, bne_iff_ne]
    exact other
  have runs : P.effect (.unary .idiv (.reg b)) loaded = some divided := by
    have nonzero := fun zero => divisor (Int64.toBitVec_inj.1 zero)
    simp only [divided, Int64.toBitVec_div, Int64.toBitVec_mod]
    refine effect_idiv ?_ ?_ ?_ nonzero other <;> simp [loaded, compared, kept, right]
  refine ⟨divided.set a (if isQuotient then m / n else m % n).toBitVec, ?_, ?_⟩
  · calc P.Flows ⟨j, s⟩ ⟨j + 1, s⟩ := .single (.effect entry rfl)
      P.Flows _ ⟨j + 2, compared⟩ := .single (.effect compare (by simp [compared]))
      P.Flows _ ⟨j + 5, compared⟩ :=
        .single (.branch branch (.inl rfl) taken (labelPosition_of_at distinct long))
      P.Flows _ ⟨j + 6, compared⟩ := .single (.effect long rfl)
      P.Flows _ ⟨j + 7, compared.set rax m.toBitVec⟩ :=
        .single (.effect load (by simp [compared, left]))
      P.Flows _ ⟨j + 8, loaded⟩ := .single (.effect extend (by simp [loaded]))
      P.Flows _ ⟨j + 9, divided⟩ := .single (.effect divide runs)
      P.Flows _ ⟨j + 10, _⟩ := .single (.effect take (by cases isQuotient <;> simp [divided]))
      P.Flows _ ⟨j + 11, _⟩ := .single (.effect last rfl)
  · refine ⟨by simp, rfl, fun reg outside => ?_⟩
    simp only [List.mem_cons, List.not_mem_nil, or_false, not_or] at outside
    simp [divided, loaded, compared, outside]

end

lemma division_flows (distinct : P.HasDistinctLabels)
    (placed : P.Holds k (divisionCode isQuotient a b stop nonzero general done))
    (kept : b ≠ rax ∧ b ≠ rdx) (left : s.regs a = m.toBitVec)
    (right : s.regs b = n.toBitVec) (divisor : n ≠ 0) :
    ∃ t, P.Flows ⟨k, s⟩ ⟨k + (divisionCode isQuotient a b stop nonzero general done).length, t⟩ ∧
      s.Receives a (if isQuotient then m / n else m % n).toBitVec [rax, rdx] t := by
  have split : divisionCode isQuotient a b stop nonzero general done =
      [.check b, .jcc .ne nonzero] ++ stop ++ divideCode isQuotient a b nonzero general done := rfl
  rw [split, holds_append, holds_append] at placed
  obtain ⟨⟨front, -⟩, rest⟩ := placed
  obtain ⟨check, front⟩ := holds_cons.1 front
  obtain ⟨branch, -⟩ := holds_cons.1 front
  let checked : Machine := { s with flags := .ofResult (s.regs b) (some false) (some false) }
  have taken : ne.holds checked.flags = some true := by
    have nonzero : s.regs b ≠ 0 := fun zero =>
      divisor (Int64.toBitVec_inj.1 (right.symm.trans zero))
    change some (!(s.regs b == 0)) = some true
    rw [beq_eq_false_iff_ne.2 nonzero]
    rfl
  have entry := (holds_cons.1 rest).1
  have enters : P.Flows ⟨k, s⟩ ⟨k + ([.check b, .jcc .ne nonzero] ++ stop : Code).length,
      checked⟩ :=
    .head (.effect check (effect_check b s))
      (.single (.branch branch (.inl rfl) taken (labelPosition_of_at distinct entry)))
  obtain ⟨t, flows, receives⟩ : ∃ t, P.Flows ⟨k + ([.check b, .jcc .ne nonzero] ++
      stop : Code).length, checked⟩ ⟨k + ([.check b, .jcc .ne nonzero] ++ stop : Code).length + 11,
      t⟩ ∧ checked.Receives a (if isQuotient then m / n else m % n).toBitVec [rax, rdx] t := by
    by_cases other : n.toBitVec = -1
    · obtain rfl : n = -1 := Int64.toBitVec_inj.1 other
      exact divide_by_minus_one distinct rest left right
    · exact divide_in_general distinct rest kept left right divisor other
  refine ⟨t, ?_, ⟨receives.value, receives.memory, receives.others⟩⟩
  rw [split, List.length_append, ← add_assoc]
  exact enters.trans flows

end

end Lower

end AgentCompiler
