import AgentCompiler.Proofs.Seen
import AgentCompiler.Proofs.Success

/-!
Operand fields read back: registers, the operand byte with what follows it, and the REX byte. A
place and the register or selector beside it are found again whatever bytes come after them.
-/

namespace AgentCompiler
open MachineCode Address

variable {r : Register} {rex : Rex}

section

@[simp] lemma lowBits_mod (r : Register) : r.lowBits % 8 = r.lowBits := Nat.mod_mod _ _

@[simp] lemma ofBits_lowBits (r : Register) : Register.ofBits r.isExtended r.lowBits = r := by
  cases r <;> rfl

@[simp] lemma ofBits_number (r : Register) : Register.ofBits (decide (8 ≤ r.number))
    (r.number % 8) = r := by
  cases r <;> rfl

lemma eq_rsp_of_lowBits (low : r.lowBits = 4) (ext : r.isExtended = false) : r = .rsp := by
  revert low ext
  cases r <;> decide

lemma registerPlace_lowBits {rex? : Option Rex} {width : Width}
    (h : width = .byte → rex? = none → r.number < 4) :
    registerPlace rex? width r.isExtended r.lowBits = .reg r := by
  have low : r.lowBits ≤ r.number := Nat.mod_le _ _
  rw [registerPlace, if_neg, ofBits_lowBits]
  rintro ⟨hwidth, hrex, four⟩
  have small := h hwidth hrex
  omega

end

section

lemma fieldsOf_operandByte (mode reg base : Nat) :
    fieldsOf (operandByte mode reg base) = (mode % 4, reg % 8, base % 8) := by
  have byte : (operandByte mode reg base).toNat = 64 * (mode % 4) + 8 * (reg % 8) + base % 8 := by
    rw [operandByte, UInt8.toNat_ofNat']
    omega
  simp only [fieldsOf, byte, Prod.mk.injEq]
  omega

lemma fieldsOf_indexByte (scale index base : Nat) :
    fieldsOf (indexByte scale index base) = (scale % 4, index % 8, base % 8) :=
  fieldsOf_operandByte scale index base

@[simp] lemma ofBits_bits (scale : Scale) : Scale.ofBits (scale.bits % 4) = scale := by
  cases scale <;> rfl

/-- The mode tells the size of the displacement, and a base numbered five never goes without. -/
lemma takeDisp_modeFor {base : Register} {value : Int32} {mode : Nat} {disp : Displacement}
    (h : modeFor base value = (mode, disp)) (fill : Filling) (rest : Bytes) :
    takeDisp mode (disp.filled fill ++ rest) = some (value.toInt, rest) ∧ mode < 3 ∧
      ¬(base.lowBits = 5 ∧ mode = 0) := by
  unfold modeFor at h
  split_ifs at h with zero byte
  · obtain ⟨rfl, rfl⟩ := Prod.mk.inj h
    refine ⟨?_, by decide, fun based => zero.2 based.1⟩
    simp [takeDisp, Displacement.filled, Displacement.bytes, zero.1]
  · obtain ⟨rfl, rfl⟩ := Prod.mk.inj h
    refine ⟨?_, by decide, by simp⟩
    have valued : value.toInt8.toInt = value.toInt := by
      simp only [fitsInt8, Bool.and_eq_true, decide_eq_true_eq] at byte
      rw [Int32.toInt_toInt8]
      exact Int.bmod_eq_of_le (by omega) (by omega)
    rw [Displacement.filled, Displacement.bytes, valued, ← valued]
    exact takeInt_of_bmod_eq value.toInt8.toInt_bmod rest
    simp
  · obtain ⟨rfl, rfl⟩ := Prod.mk.inj h
    exact ⟨takeInt_of_bmod_eq value.toInt_bmod rest, by decide, by simp⟩

lemma takeIndexed_indexByte {mode : Nat} {base : Register} {bytes rest : Bytes} {disp : Int}
    (found : rex.b = base.isExtended) (near : takeDisp mode bytes = some (disp, rest))
    (five : ¬(base.lowBits = 5 ∧ mode = 0)) (scale index : Nat) :
    takeIndexed rex mode (indexByte scale index base.lowBits :: bytes) = some (⟨.register base,
        if index % 8 = 4 ∧ rex.x = false then none
        else some (Register.ofBits rex.x (index % 8), Scale.ofBits (scale % 4)), disp⟩, rest) := by
  simp only [takeIndexed, fieldsOf_indexByte, lowBits_mod]
  rw [if_neg five, near, found, ofBits_lowBits]
  rfl

lemma takeAddress_fields {reg : Nat} {m : Address} {f : PlaceFields} (h : m.fields reg = .ok f)
    (hx : rex.x = f.rex.x) (same : rex.b = f.rex.b) (fill : Filling) (rest : Bytes) :
    ∃ mode base, fieldsOf f.modrm = (mode, reg % 8, base) ∧ mode ≠ 3 ∧
      takeAddress rex mode base (f.sib.toList ++ (f.disp.filled fill ++ rest)) = some
      (m.seen fill, rest) := by
  obtain ⟨base, index, disp⟩ := m
  cases base with
  | symbol s =>
    cases index with
    | some pair => simp [fields] at h
    | none =>
      simp only [fields, Option.isSome_none, Bool.false_eq_true, ↓reduceIte, pure_ok] at h
      subst h
      refine ⟨0, 5, fieldsOf_operandByte 0 reg 5, by decide, ?_⟩
      have read : takeInt 4 (littleEndianInt 4 fill.disp.toInt ++ rest) =
          some (fill.disp.toInt, rest) := takeInt_of_bmod_eq fill.disp.toInt_bmod rest
      simp [takeAddress, Displacement.filled, read, seen]
  | reg r =>
    rcases hmode : modeFor r disp with ⟨mode, field⟩
    obtain ⟨near, lt, five⟩ := takeDisp_modeFor hmode fill rest
    have mod : mode % 4 = mode := by omega
    simp only [fields, hmode] at h
    cases index with
    | none =>
      by_cases hfour : r.lowBits = 4
      · simp only [hfour, ↓reduceIte, pure_ok] at h
        subst h
        refine ⟨mode, 4, by rw [fieldsOf_operandByte, mod], by omega, ?_⟩
        have read := takeIndexed_indexByte same near five 0 4
        rw [hfour, if_pos ⟨rfl, hx⟩] at read
        rw [takeAddress, if_pos rfl]
        exact read
      · simp only [hfour, ↓reduceIte, pure_ok] at h
        subst h
        refine ⟨mode, r.lowBits, by rw [fieldsOf_operandByte, mod, lowBits_mod], by omega, ?_⟩
        rw [takeAddress, if_neg hfour, if_neg five]
        simp [near, same, seen]
    | some pair =>
      obtain ⟨index, scale⟩ := pair
      by_cases hrsp : index = .rsp
      · simp [hrsp] at h
      · simp only [hrsp, ↓reduceIte, pure_ok] at h
        subst h
        refine ⟨mode, 4, by rw [fieldsOf_operandByte, mod], by omega, ?_⟩
        -- the number four without a fourth bit belongs to rsp alone
        have indexed : ¬(index.lowBits % 8 = 4 ∧ rex.x = false) := by
          rintro ⟨low, ext⟩
          exact hrsp (eq_rsp_of_lowBits ((lowBits_mod index).symm.trans low) (hx.symm.trans ext))
        have read := takeIndexed_indexByte same near five scale.bits index.lowBits
        rw [if_neg indexed] at read
        rw [takeAddress, if_pos rfl]
        simpa [hx, seen] using read

lemma fields_rex_r {reg : Nat} {p : Place} {f : PlaceFields} (h : p.fields reg = .ok f) :
    f.rex.r = decide (8 ≤ reg) := by
  cases p with
  | reg r =>
    rw [Place.fields, pure_ok] at h
    rw [← h]
  | mem m =>
    obtain ⟨base, index, disp⟩ := m
    simp only [Place.fields, fields] at h
    split at h
    · split at h
      · simp at h
      · rw [pure_ok] at h
        rw [← h]
    · split at h
      · split at h <;> rw [pure_ok] at h <;> rw [← h]
      · split at h
        · simp at h
        · rw [pure_ok] at h
          rw [← h]

end

section

def writtenRex (rex : Rex) (forced : Bool) : Option Rex := if rex.isNeeded || forced then some
    rex else none

@[simp] lemma getD_writtenRex (rex : Rex) (forced : Bool) : (writtenRex rex forced).getD
    {} = rex := by
  obtain ⟨w, r, x, b⟩ := rex
  cases w <;> cases r <;> cases x <;> cases b <;> cases forced <;> rfl

lemma writtenRex_eq_none {forced : Bool} (h : writtenRex rex forced = none) :
    rex.r = false ∧ rex.b = false ∧ forced = false := by
  obtain ⟨w, r, x, b⟩ := rex
  revert h
  cases w <;> cases r <;> cases x <;> cases b <;> cases forced <;> decide

lemma ofByte_byte (rex : Rex) : Rex.ofByte rex.byte = rex := by
  obtain ⟨w, r, x, b⟩ := rex
  cases w <;> cases r <;> cases x <;> cases b <;> rfl

lemma byte_div (rex : Rex) : rex.byte.toNat / 16 = 4 := by
  obtain ⟨w, r, x, b⟩ := rex
  cases w <;> cases r <;> cases x <;> cases b <;> rfl

lemma takeRex_rexByte {b : UInt8} (differs : b.toNat / 16 ≠ 4) (rex : Rex) (forced : Bool)
    (rest : Bytes) :
    takeRex ((Encoding.rexByte rex forced).toList ++ b :: rest) = (writtenRex rex forced,
        b :: rest) := by
  rw [Encoding.rexByte, writtenRex]
  split
  · simp [takeRex, byte_div, ofByte_byte]
  · simp [takeRex, differs]

lemma decode_rexByte {b : UInt8} (differs : b.toNat / 16 ≠ 4) (rep : b ≠ 0xF3) (rex : Rex)
    (forced : Bool) (rest : Bytes) : decode ((Encoding.rexByte rex forced).toList ++ b :: rest) =
      afterRex (writtenRex rex forced) (b :: rest) := by
  have read := takeRex_rexByte differs rex forced rest
  generalize interned : (Encoding.rexByte rex forced).toList ++ b :: rest = text at read ⊢
  cases text with
  | nil => simp at interned
  | cons first tail =>
    have begins : first ≠ 0xF3 := by
      rw [Encoding.rexByte] at interned
      split at interned
      · have byte : rex.byte = first := by simpa using congrArg List.head? interned
        intro again
        have div := byte_div rex
        rw [byte, again] at div
        revert div
        decide
      · have byte : b = first := by simpa using congrArg List.head? interned
        rwa [← byte]
    rw [decode, if_neg begins, read]

end

section

variable {wide : Bool} {action : Action}

def placeBytes (f : PlaceFields) (fill : Filling) (rest : Bytes) : Bytes :=
  f.modrm :: (f.sib.toList ++ (f.disp.filled fill ++ rest))

variable {p : Place} {s : Register} {reg opcode : Nat} {f : PlaceFields} {forced : Bool}
  {width : Width}

lemma number_lt_four (ext : r.isExtended = false) (low : r.lowByteNeedsRex = false) :
    r.number < 4 := by
  revert ext low
  cases r <;> decide

lemma takePlace_fields (wide : Bool) (h : p.fields reg = .ok f)
    (same : width = .byte → p.lowByteNeedsRex = true → forced = true) (fill : Filling)
    (rest : Bytes) :
    takePlace (writtenRex { f.rex with w := wide } forced) width (placeBytes f fill rest) =
      some (reg % 8, p.seen fill, rest) := by
  rw [placeBytes]
  cases p with
  | reg r =>
    rw [Place.fields, pure_ok] at h
    subst h
    have name : width = .byte → writtenRex { w := wide, r := decide (8 ≤ reg), b := r.isExtended }
          forced = none → r.number < 4 := by
      intro hwidth absent
      obtain ⟨-, ext, hforced⟩ := writtenRex_eq_none absent
      apply number_lt_four ext
      have low := same hwidth
      rw [hforced] at low
      simpa [Place.lowByteNeedsRex] using low
    have place := registerPlace_lowBits name
    simp [takePlace, fieldsOf_operandByte, Displacement.filled, Displacement.bytes, place,
      Place.seen]
  | mem m =>
    rw [Place.fields] at h
    have hx : ({ f.rex with w := wide } : Rex).x = f.rex.x := rfl
    obtain ⟨mode, base, fields, hmode, read⟩ := takeAddress_fields h hx rfl fill rest
    simp [takePlace, fields, hmode, read, Place.seen]

lemma registerPlace_fields (wide : Bool) (h : p.fields s.number = .ok f)
    (hs : width = .byte → s.lowByteNeedsRex = true → forced = true) :
    registerPlace (writtenRex { f.rex with w := wide } forced) width f.rex.r (s.number % 8) =
        .reg s := by
  have hr := fields_rex_r h
  rw [hr]
  apply registerPlace_lowBits
  intro hwidth absent
  obtain ⟨ext, -, hforced⟩ := writtenRex_eq_none absent
  apply number_lt_four (hr.symm.trans ext)
  have low := hs hwidth
  rw [hforced] at low
  simpa using low

lemma takePair_fields (h : p.fields s.number = .ok f)
    (hwidth : widthOf { f.rex with w := wide } opcode = width)
    (same : width = .byte → p.lowByteNeedsRex = true → forced = true)
    (hs : width = .byte → s.lowByteNeedsRex = true → forced = true)
    (make : Width → MachineCode.Operand → MachineCode.Operand → Action) (fill : Filling)
    (rest : Bytes) :
    takePair (writtenRex { f.rex with w := wide } forced) opcode make (placeBytes f fill rest) =
      some (if opcode / 2 % 2 = 0 then make width (.place (p.seen fill)) (.place (.reg s))
        else make width (.place (.reg s)) (.place (p.seen fill)), rest) := by
  have place := takePlace_fields wide h same fill rest
  have own := registerPlace_fields wide h hs
  simp only [takePair, getD_writtenRex, hwidth, place, own, bind, Option.bind]
  split <;> rfl

lemma takeWide_fields (width : Width) (make : Register → MachineCode.Place → Option Action)
    (h : p.fields s.number = .ok f) (same : width = .byte → p.lowByteNeedsRex = true →
    forced = true) {fill : Filling} (hmake : make s (p.seen fill) = some action) (rest : Bytes) :
    takeWide (writtenRex { f.rex with w := true } forced) width make (placeBytes f fill rest) =
      some (action, rest) := by
  have place := takePlace_fields true h same fill rest
  have own : Register.ofBits f.rex.r (s.number % 8) = s := by
    rw [fields_rex_r h, ofBits_number]
  simp [takeWide, place, own, hmake]

lemma takeShift_fields {op : ShiftOp} (h : p.fields op.selector = .ok f) {bytes rest : Bytes}
    {count : ShiftCount} (read : takeCount opcode bytes = some (count, rest)) (fill : Filling) :
    takeShift (writtenRex { f.rex with w := true } forced) opcode (placeBytes f fill bytes) =
      some (.shift op (p.seen fill) count, rest) := by
  have byte : Width.qword = .byte → p.lowByteNeedsRex = true → forced = true := nofun
  have place := takePlace_fields true h byte fill bytes
  have applied : ShiftOp.ofSelector? (op.selector % 8) = some op := by cases op <;> rfl
  simp [takeShift, place, applied, read]

end

end AgentCompiler
