import AgentCompiler.Proofs.PlainCode
import AgentCompiler.Proofs.RoundTrip

/-!
Which instructions have no encoding, and what becomes of constants in those that have one. A
constant may stand in a field that is narrower than the operation; the processor extends it by its
sign, and that has to give back the constant that was asked for.
-/

namespace AgentCompiler

open Address Width Place

open MachineCode (decode)

/-- The constants that an operation of a width can have: signed and unsigned ones where the field is
as wide as the operation, and signed ones of four bytes in whole words. -/
def Width.constants : Width → Set Int
  | byte => Set.Icc (-0x80) 0xFF
  | dword => Set.Icc (-0x80000000) 0xFFFFFFFF
  | qword => Set.Icc (-0x80000000) 0x7FFFFFFF

namespace Instruction

/-- Width, destination and source of a move or of arithmetic. -/
def operands? : Instruction → Option (Width × Operand × Operand)
  | mov width dst src | alu _ width dst src => some (width, dst, src)
  | _ => none

/-- The operands that no form of an instruction has. A move of a whole word to a register takes
every constant. -/
inductive IsRefused (i : Instruction) : Prop
  | constantTarget {width : Width} {v : Int64} {src : Operand} : i.operands? = some
      (width, .imm v, src) → IsRefused i
  | twoPlaces {width : Width} {m m' : Address} : i.operands? = some (width, .mem m, .mem m') →
      IsRefused i
  | symbolIndexed {m : Address} {s : SymbolId} {index : Register × Scale} :
      m ∈ i.memory → m.base = .symbol s → m.index = some index → IsRefused i
  | stackPointerIndex {m : Address} {scale : Scale} : m ∈ i.memory → m.index = some (.rsp, scale) →
      IsRefused i
  | constant {width : Width} {dst : Operand} {v : Int64} : i.operands? = some (width, dst, .imm v) →
      (∀ d, i ≠ mov .qword (.reg d) (.imm v)) → v.toInt ∉ width.constants → IsRefused i
  | shiftCount {op : ShiftOp} {p : Place} {count : UInt8} : i = shift op p (.imm count) →
      63 < count.toNat → IsRefused i

end Instruction

variable {m : Address} {p : Place} {reg : Nat} {width : Width} {v : Int64} {i : Instruction}
  {e : Encoding}

lemma Width.takes_iff : width.takes v = true ↔ v.toInt ∈ width.constants := by
  cases width <;> simp [takes, constants, fitsInt32]

lemma Width.takes_eq_false_iff : width.takes v = false ↔ v.toInt ∉ width.constants := by
  rw [← takes_iff, Bool.not_eq_true]

section

lemma Address.isEncodable_eq_false (h : m.isEncodable = false) (mem : m ∈ i.memory) :
    i.IsRefused := by
  obtain ⟨base, index, disp⟩ := m
  cases index with
  | none => simp [isEncodable] at h
  | some pair =>
    cases base with
    | symbol s => exact .symbolIndexed mem rfl rfl
    | reg r =>
      obtain ⟨index, scale⟩ := pair
      obtain rfl : index = .rsp := by simpa [isEncodable] using h
      exact .stackPointerIndex mem rfl

lemma Place.isRefused (h : p.isEncodable = false) (same : i.memory = p.memory) : i.IsRefused := by
  cases p with
  | reg r => simp [isEncodable] at h
  | mem m => exact isEncodable_eq_false h (same ▸ List.mem_singleton_self m)

lemma Place.sees (h : p.isEncodable = true) (member : m ∈ p.memory) : m.isEncodable = true := by
  cases p with
  | reg r => simp [memory] at member
  | mem m' =>
    obtain rfl := List.mem_singleton.1 member
    exact h

namespace Instruction

lemma isRefused_of_operands {dst src : Operand} (is : i.operands? = some (width, dst, src))
    (memory : i.memory = dst.memory ++ src.memory)
    (narrow : ∀ d v, i ≠ mov .qword (.reg d) (.imm v))
    (h : operandsAreEncodable width dst src = false) : i.IsRefused := by
  cases dst with
  | imm value => exact .constantTarget is
  | reg d =>
    cases src with
    | reg s => simp [operandsAreEncodable] at h
    | mem m => exact isEncodable_eq_false h (memory ▸ List.mem_singleton_self m)
    | imm v => exact .constant is (narrow · v) (takes_eq_false_iff.1 h)
  | mem m =>
    cases src with
    | mem m' => exact .twoPlaces is
    | reg s => exact isEncodable_eq_false h (memory ▸ List.mem_singleton_self m)
    | imm v =>
      obtain h | h := Bool.and_eq_false_iff.1 h
      · exact isEncodable_eq_false h (memory ▸ List.mem_singleton_self m)
      · exact .constant is (narrow · v) (takes_eq_false_iff.1 h)

lemma isRefused_of_isEncodable_eq_false (h : i.isEncodable = false) : i.IsRefused := by
  cases i with
  | mov width dst src =>
    by_cases word : ∃ d v, mov width dst src = mov .qword (.reg d) (.imm v)
    · obtain ⟨d, v, same⟩ := word
      simp [same, isEncodable] at h
    · simp only [not_exists] at word
      refine isRefused_of_operands rfl rfl word ?_
      cases width <;> cases dst <;> cases src <;> first | exact h | exact absurd rfl (word _ _)
  | alu op width dst src => exact isRefused_of_operands rfl rfl (by simp) h
  | lea dst m => exact isEncodable_eq_false h (List.mem_singleton_self m)
  | movZeroByte dst src | movSignDword dst src | imul dst src | test dst src | unary op dst =>
    exact isRefused h rfl
  | shift op dst count =>
    cases count with
    | cl => exact isRefused h rfl
    | imm count =>
      obtain h | h := Bool.and_eq_false_iff.1 h
      · exact isRefused h rfl
      · exact .shiftCount rfl (by simpa using h)
  | _ => simp [isEncodable] at h

lemma isEncodable_of_mem_memory (h : i.isEncodable = true) (mem : m ∈ i.memory) :
    m.isEncodable = true := by
  cases i with
  | mov width dst src =>
    cases dst <;> cases src <;> cases width <;>
      simp_all [memory, Operand.memory, isEncodable, operandsAreEncodable]
  | alu op width dst src =>
    cases dst <;> cases src <;> simp_all [memory, Operand.memory, isEncodable, operandsAreEncodable]
  | lea dst src =>
    obtain rfl := List.mem_singleton.1 mem
    exact h
  | movZeroByte dst src | movSignDword dst src | imul dst src | test dst src | unary op dst =>
    exact sees h mem
  | shift op dst count =>
    cases count with
    | cl => exact sees h mem
    | imm count => exact sees (Bool.and_eq_true_iff.1 h).1 mem
  | _ => simp [memory] at mem

lemma operands?_eq_some {dst src : Operand} (h : i.operands? = some (width, dst, src)) :
    i = mov width dst src ∨ ∃ op, i = alu op width dst src := by
  cases i <;> simp_all [operands?]

lemma IsRefused.isEncodable_eq_false (h : i.IsRefused) : i.isEncodable = false := by
  by_contra encodable
  rw [Bool.not_eq_false] at encodable
  cases h with
  | constantTarget is | twoPlaces is =>
    obtain rfl | ⟨op, rfl⟩ := operands?_eq_some is
    · cases ‹Width› <;> simp [isEncodable, operandsAreEncodable] at encodable
    · simp [isEncodable, operandsAreEncodable] at encodable
  | symbolIndexed member base index =>
    have known := isEncodable_of_mem_memory encodable member
    simp [Address.isEncodable, base, index] at known
  | @stackPointerIndex m _ member index =>
    have known := isEncodable_of_mem_memory encodable member
    cases base : m.base <;> simp [Address.isEncodable, base, index] at known
  | @constant width dst v is narrow outside =>
    have untaken := takes_eq_false_iff.2 outside
    obtain rfl | ⟨op, rfl⟩ := operands?_eq_some is
    · cases dst with
      | imm w => cases width <;> simp [isEncodable, operandsAreEncodable] at encodable
      | mem m => cases width <;> simp [isEncodable, operandsAreEncodable, untaken] at encodable
      | reg d =>
        cases width with
        | byte | dword => simp [isEncodable, operandsAreEncodable, untaken] at encodable
        -- Only here is any constant taken, and `narrow` excludes it.
        | qword => exact narrow d rfl
    · cases dst <;> simp [isEncodable, operandsAreEncodable, untaken] at encodable
  | shiftCount is large =>
    subst is
    simp [isEncodable] at encodable
    omega

lemma encode_eq_error_iff : (∃ fault, i.encode = .error fault) ↔ i.IsRefused := by
  have encodes := exists_encode_iff (i := i)
  constructor
  · rintro ⟨fault, refused⟩
    exact isRefused_of_isEncodable_eq_false (by simpa [refused] using encodes)
  · intro refused
    rw [refused.isEncodable_eq_false] at encodes
    cases made : i.encode with
    | error fault => exact ⟨fault, rfl⟩
    | ok e => simp [made] at encodes

end Instruction

end

section

open MachineCode

def Instruction.constant? : Instruction → Option (Width × Int)
  | mov width _ (.imm v) | alu _ width _ (.imm v) => some (width, v.toInt)
  | shift _ _ (.imm count) => some (.byte, count.toNat)
  | _ => none

/-- The constant that the processor works with, extended from the field that it stands in. -/
def MachineCode.Action.constant? : Action → Option Int
  | mov _ _ (.imm v) | alu _ _ _ (.imm v) => some v
  | shift _ _ (.imm count) => some count.toNat
  | _ => none

lemma Width.wrap_modEq (width : Width) (v : Int) : width.wrap v ≡ v
    [ZMOD 2 ^ (8 * width.bytes)] := by
  cases width with
  | byte => exact Int.bmod_emod ..
  | dword => exact Int.bmod_emod ..
  | qword => rfl

namespace Instruction

lemma constant?_seen (fill : Filling) {v : Int} (asks : i.constant? = some (width, v)) :
    ∃ action n, i.seen fill = some action ∧ action.constant? = some n ∧
        n ≡ v [ZMOD 2 ^ (8 * width.bytes)] := by
  cases i with
  | mov _ dst src | alu _ _ dst src =>
    cases src with
    | reg s | mem m => simp [constant?] at asks
    | imm c =>
      obtain ⟨rfl, rfl⟩ := Prod.mk.inj (Option.some.inj asks)
      exact ⟨_, _, rfl, rfl, wrap_modEq _ _⟩
  | shift op dst count =>
    cases count with
    | cl => simp [constant?] at asks
    | imm count =>
      obtain ⟨rfl, rfl⟩ := Prod.mk.inj (Option.some.inj asks)
      exact ⟨_, _, rfl, rfl, rfl⟩
  | _ => simp [constant?] at asks

/-- An instruction is refused for its operands alone. Of one that is encoded, whatever follows its
bytes, the processor reads the constant that was asked for, up to what the width can tell apart. -/
theorem encode_refuses_iff (i : Instruction) : ((∃ fault, i.encode = .error fault) ↔ i.IsRefused) ∧
    ∀ e width v, i.encode = .ok e → i.constant? = some (width, v) → ∀ distance rest, ∃ action n,
      decode (e.bytes distance ++ rest) = some (action, rest) ∧ action.constant? = some n ∧
      n ≡ v [ZMOD 2 ^ (8 * width.bytes)] := by
  refine ⟨encode_eq_error_iff, fun e width v made asks distance rest => ?_⟩
  obtain ⟨action, n, seen, constant, same⟩ := constant?_seen (.unlinked distance) asks
  refine ⟨action, n, ?_, constant, same⟩
  rw [← e.filled_unlinked]
  exact reads_encode made seen rest

/-- The largest unsigned constant of four bytes, which is read as minus one. -/
theorem encode_refuses_iff_unsigned : ∃ e action n,
    (alu .add .dword (.reg .rax) (.imm 0xFFFFFFFF)).encode = .ok e ∧
    decode (e.bytes 0 ++ []) = some (action, []) ∧ action.constant? = some n ∧ n ≡ 0xFFFFFFFF
    [ZMOD 2 ^ 32] := by
  obtain ⟨action, n, facts⟩ :=
    (encode_refuses_iff (alu .add .dword (.reg .rax) (.imm 0xFFFFFFFF))).2 _ .dword 0xFFFFFFFF
      rfl rfl 0 []
  exact ⟨_, action, n, rfl, facts⟩

end Instruction

end

end AgentCompiler
