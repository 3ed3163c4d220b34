import AgentCompiler.Machine.Encoding
import AgentCompiler.Proofs.Success

/-!
The labels and symbols that an encoding names are those of its instruction: a symbol in the
displacement comes from a memory operand, a distance from a branch, and an address from the load of
an address. No instruction takes more than twelve bytes.
-/

namespace AgentCompiler

open Encoding

variable {i : Instruction} {p : Place} {f : PlaceFields} {v : Int64} {reg : Nat}

def Place.memory : Place → List Address
  | .reg _ => []
  | .mem m => [m]

def Operand.memory : Operand → List Address
  | .mem m => [m]
  | _ => []

namespace Instruction

def memory : Instruction → List Address
  | mov _ dst src | alu _ _ dst src => dst.memory ++ src.memory
  | movZeroByte _ p | movSignDword _ p | test p _ | imul _ p | unary _ p | shift _ p _ => p.memory
  | lea _ m => [m]
  | _ => []

def distanceWidth : Instruction → Nat
  | jmpShort _ | jccShort _ _ => 1
  | call _ | jmp _ | jcc _ _ => 4
  | _ => 0

lemma distanceWidth_of_target_none (h : i.target? = none) : i.distanceWidth = 0 := by
  cases i <;> first | rfl | simp [target?] at h

end Instruction

def Immediate.isConst : Immediate → Bool
  | none | byte _ | dword _ | qword _ => true
  | _ => false

structure Encoding.NamesAs (e : Encoding) (i : Instruction) : Prop where
  symbol : ∀ s d, e.disp = .symbol s d ↔ ⟨.symbol s, none, d⟩ ∈ i.memory
  target : e.imm.target? = i.target?.map fun l => (l, 8 * i.distanceWidth)
  address : ∀ s a, e.imm = .address s a ↔ ∃ dst, i = .movAddress dst s a
  size_le : e.size ≤ 12

lemma modeFor_ne_symbol (base : Register) (disp : Int32) (s : SymbolId) (d : Int32) :
    (Address.modeFor base disp).2 ≠ .symbol s d := by
  unfold Address.modeFor
  split_ifs <;> simp

lemma fields_symbol (h : p.fields reg = .ok f) (s : SymbolId) (d : Int32) :
    f.disp = .symbol s d ↔ ⟨.symbol s, none, d⟩ ∈ p.memory := by
  cases p with
  | reg r =>
    obtain rfl := pure_ok.1 h
    simp [Place.memory]
  | mem m =>
    obtain ⟨base, index, disp⟩ := m
    cases base with
    | symbol t =>
      cases index with
      | some pair => simp [Place.fields, Address.fields] at h
      | none =>
        obtain rfl := pure_ok.1 h
        simp [Place.memory, eq_comm]
    | reg r =>
      have mode := modeFor_ne_symbol r disp s d
      have near : f.disp = (Address.modeFor r disp).2 := by
        simp only [Place.fields, Address.fields] at h
        split at h
        · split at h <;> obtain rfl := pure_ok.1 h <;> rfl
        · split at h
          · simp at h
          · obtain rfl := pure_ok.1 h
            rfl
      simp [near, mode, Place.memory]

section

variable {e : Encoding} {i : Instruction} {imm : Immediate}

def Instruction.IsOrdinary (i : Instruction) : Prop := i.target? = none ∧ ∀ dst s a,
    i ≠ .movAddress dst s a

lemma namesAs_of_isConst (fits : e.imm.isConst = true) (size : e.size ≤ 12) (hi : i.IsOrdinary)
    (resolved : ∀ s d, e.disp = .symbol s d ↔ ⟨.symbol s, none, d⟩ ∈ i.memory) : e.NamesAs i where
  symbol := resolved
  target := by
    rw [hi.1]
    cases h : e.imm <;> simp [h, Immediate.isConst] at fits <;> rfl
  address s a := by
    refine ⟨fun h => by simp [h, Immediate.isConst] at fits, ?_⟩
    rintro ⟨dst, h⟩
    exact absurd h (hi.2 dst s a)
  size_le := size

lemma length_toList_le {α : Type} (o : Option α) : o.toList.length ≤ 1 := by cases o <;> simp

lemma namesAs_ofPlace {opcode : List Nat} {wide forced : Bool}
    (same : p.fields reg = .ok f) (fits : imm.isConst = true ∧ (opcode.length + imm.size).ble
    5 = true) (hi : i.IsOrdinary) (hmemory : i.memory = p.memory) :
    (ofPlace opcode wide forced f imm).NamesAs i := by
  refine namesAs_of_isConst fits.1 ?_ hi (hmemory ▸ fields_symbol same)
  have disp : f.disp.size ≤ 4 := by cases f.disp <;> simp [Displacement.size]
  have sib := length_toList_le f.sib
  have rex := length_toList_le (rexByte ⟨wide, f.rex.r, f.rex.x, f.rex.b⟩ forced)
  have sum := Nat.le_of_ble_eq_true fits.2
  simp only [size, immOffset, dispOffset, head, ofPlace, List.length_append, List.length_map,
    Option.toList_none, Option.toList_some, List.length_nil, List.length_cons]
  omega

lemma size_ofRegister_le (opcode : Nat) (wide forced : Bool) (r : Register) (imm : Immediate) :
    (ofRegister opcode wide forced r imm).size ≤ 12 := by
  have rex := length_toList_le (rexByte { w := wide, b := r.isExtended } forced)
  have fits : imm.size ≤ 8 := by cases imm <;> simp [Immediate.size]
  simp only [size, immOffset, dispOffset, head, ofRegister, List.length_append, Option.toList_none,
    List.length_nil, List.length_cons, Displacement.size]
  omega

lemma namesAs_ofRegister {opcode : Nat} {wide forced : Bool} {r : Register}
    (fits : imm.isConst = true) (hi : i.IsOrdinary) (hmemory : i.memory = []) :
    (ofRegister opcode wide forced r imm).NamesAs i :=
  namesAs_of_isConst fits (size_ofRegister_le ..) hi (by simp [hmemory, ofRegister])

lemma ofByte_isShort : Provides (fun imm => imm.isConst = true ∧ (1 + imm.size).ble 5 = true)
    (Immediate.ofByte v) := by
  unfold Immediate.ofByte
  split
  · exact .pure ⟨rfl, rfl⟩
  · exact .throw

lemma ofDword_isShort : Provides (fun imm => imm.isConst = true ∧ (1 + imm.size).ble 5 = true)
    (Immediate.ofDword v) := by
  unfold Immediate.ofDword
  split
  · exact .pure ⟨rfl, rfl⟩
  · exact .throw

end

namespace Instruction

variable {e : Encoding} {width : Width} {op : AluOp}

lemma namesAs_encodeMove {dst src : Operand} :
    Provides (NamesAs · (.mov width dst src)) (encodeMove width dst src) := by
  have hi : (mov width dst src).IsOrdinary := ⟨rfl, by simp⟩
  unfold encodeMove
  split
  next d s =>
    refine .bind fun f same => ?_
    split <;> exact .pure (namesAs_ofPlace same ⟨rfl, rfl⟩ hi rfl)
  next d m =>
    refine .bind fun f same => ?_
    split <;> exact .pure (namesAs_ofPlace (p := .mem m) same ⟨rfl, rfl⟩ hi rfl)
  next m s =>
    refine .bind fun f same => ?_
    split <;> exact .pure (namesAs_ofPlace (p := .mem m) same ⟨rfl, rfl⟩ hi rfl)
  next d v =>
    split
    next =>
      split
      next => exact .bind fun f same => .pure (namesAs_ofPlace same ⟨rfl, rfl⟩ hi rfl)
      next => exact .pure (namesAs_ofRegister rfl hi rfl)
    next =>
      exact .bind fun imm fits => .pure (namesAs_ofRegister (ofDword_isShort imm fits).1 hi rfl)
    next =>
      exact .bind fun imm fits => .pure (namesAs_ofRegister (ofByte_isShort imm fits).1 hi rfl)
  next m v =>
    have place {f imm opcode wide} (same : (Place.mem m).fields 0 = .ok f)
        (fits : imm.isConst = true ∧ (1 + imm.size).ble 5 = true) :
        (ofPlace [opcode] wide false f imm).NamesAs (mov _ (.mem m) (.imm v)) :=
          namesAs_ofPlace same fits hi rfl
    split
    next =>
      split
      next => exact .bind fun f same => .pure (place same ⟨rfl, rfl⟩)
      next => exact .throw
    next =>
      exact .bind fun f same => .bind fun imm fits => .pure (place same (ofDword_isShort imm fits))
    next =>
      exact .bind fun f same => .bind fun imm fits => .pure (place same (ofByte_isShort imm fits))
  next => exact .throw

section

variable (hi : i.IsOrdinary) (hmemory : i.memory = p.memory)
include hi hmemory

lemma namesAs_encodeAluStore {s : Register} : Provides (NamesAs · i)
    (encodeAluStore op width p s) := by
  refine .bind fun f hf => ?_
  split <;> exact .pure (namesAs_ofPlace hf ⟨rfl, rfl⟩ hi hmemory)

lemma namesAs_encodeAluConst : Provides (NamesAs · i) (encodeAluConst op width p v) := by
  unfold encodeAluConst
  split
  next =>
    exact .bind fun f hf => .bind fun imm fits =>
      .pure (namesAs_ofPlace hf (ofByte_isShort imm fits) hi hmemory)
  next =>
    dsimp only
    split
    next => exact .bind fun f hf => .pure (namesAs_ofPlace hf ⟨rfl, rfl⟩ hi hmemory)
    next =>
      split
      next =>
        exact .bind fun f hf => .bind fun imm fits =>
          .pure (namesAs_ofPlace hf (ofDword_isShort imm fits) hi hmemory)
      next => exact .throw

end

lemma namesAs_encodeAlu {dst src : Operand} :
    Provides (NamesAs · (.alu op width dst src)) (encodeAlu op width dst src) := by
  have hi : (alu op width dst src).IsOrdinary := ⟨rfl, by simp⟩
  unfold encodeAlu
  split
  next d s => exact namesAs_encodeAluStore hi rfl
  next m s => exact namesAs_encodeAluStore hi rfl
  next d m =>
    refine .bind fun f hf => ?_
    split <;> exact .pure (namesAs_ofPlace (p := .mem m) hf ⟨rfl, rfl⟩ hi rfl)
  next d v => exact namesAs_encodeAluConst hi rfl
  next m v => exact namesAs_encodeAluConst hi rfl
  next => exact .throw

lemma namesAs_encodeShift {op : ShiftOp} {count : ShiftCount} :
    Provides (NamesAs · (.shift op p count)) (encodeShift op p count) := by
  have hi : (shift op p count).IsOrdinary := ⟨rfl, by simp⟩
  unfold encodeShift
  split
  next => exact .bind fun f hf => .pure (namesAs_ofPlace hf ⟨rfl, rfl⟩ hi rfl)
  next n =>
    split
    next => exact .throw
    next => exact .bind fun f hf => .pure (namesAs_ofPlace hf ⟨rfl, rfl⟩ hi rfl)

lemma namesAs_encode (h : i.encode = .ok e) : e.NamesAs i := by
  cases i with
  | mov width dst src => exact namesAs_encodeMove e h
  | alu op width dst src => exact namesAs_encodeAlu e h
  | shift op dst count => exact namesAs_encodeShift e h
  | movZeroByte dst src | movSignDword dst src | test dst src | imul dst src | unary op dst
  | setcc cond dst =>
    obtain ⟨f, hf, rfl⟩ := bind_pure_ok.1 h
    exact namesAs_ofPlace hf ⟨rfl, rfl⟩ ⟨rfl, by simp⟩ rfl
  | lea dst src =>
    obtain ⟨f, hf, rfl⟩ := bind_pure_ok.1 h
    exact namesAs_ofPlace (p := .mem src) hf ⟨rfl, rfl⟩ ⟨rfl, by simp⟩ rfl
  | movAddress dst symbol addend =>
    obtain rfl := pure_ok.1 h
    exact ⟨by simp [ofRegister, memory], rfl, fun s a => by simp [ofRegister],
      size_ofRegister_le ..⟩
  | call l | jmp l | jmpShort l | jcc cond l | jccShort cond l =>
    obtain rfl := pure_ok.1 h
    exact ⟨by simp [plain, memory], rfl, by simp [plain], Nat.le_of_ble_eq_true rfl⟩
  | push r | pop r =>
    obtain rfl := pure_ok.1 h
    exact namesAs_ofRegister rfl ⟨rfl, by simp⟩ rfl
  | label l | align n | cqo | ret | syscall | repMovsb | repStosb | ud2 =>
    obtain rfl := pure_ok.1 h
    exact namesAs_of_isConst rfl (by decide) ⟨rfl, by simp⟩ (by simp [plain, memory])

end Instruction

end AgentCompiler
