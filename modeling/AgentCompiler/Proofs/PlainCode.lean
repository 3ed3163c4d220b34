import AgentCompiler.Proofs.EncodedNames

/-!
Instructions that have an encoding, said without the encoder, and plain instructions: those that
only compute, so that control goes on to the next one and the stack stays as it is.
-/

namespace AgentCompiler

variable {value : Int64} {i : Instruction}

/-- An index needs a register as base, and the stack pointer is no index. -/
def Address.isEncodable (m : Address) : Bool :=
  match m.base, m.index with
  | _, none => true
  | .symbol _, some _ => false
  | .reg _, some (index, _) => index != .rsp

def Place.isEncodable : Place → Bool
  | .reg _ => true
  | .mem m => m.isEncodable

def Width.takes (width : Width) (value : Int64) : Bool :=
  match width with
  | .byte => -128 ≤ value.toInt && value.toInt ≤ 255
  | .dword => -2147483648 ≤ value.toInt && value.toInt ≤ 4294967295
  | .qword => fitsInt32 value.toInt

def operandsAreEncodable (width : Width) : Operand → Operand → Bool
  | .reg _, .reg _ => true
  | .reg _, .mem m | .mem m, .reg _ => m.isEncodable
  | .reg _, .imm value => width.takes value
  | .mem m, .imm value => m.isEncodable && width.takes value
  | _, _ => false

namespace Instruction

def isEncodable : Instruction → Bool
  | mov .qword (.reg _) (.imm _) => true
  | mov width dst src | alu _ width dst src => operandsAreEncodable width dst src
  | movZeroByte _ src | movSignDword _ src | imul _ src => src.isEncodable
  | lea _ m => m.isEncodable
  | test dst _ | unary _ dst | shift _ dst .cl => dst.isEncodable
  | shift _ dst (.imm count) => dst.isEncodable && count.toNat ≤ 63
  | _ => true

end Instruction

section

variable {reg : Nat} {width : Width} {p : Place}

lemma Address.exists_fields_iff {m : Address} : (∃ f, m.fields reg = .ok f) ↔
    m.isEncodable = true := by
  obtain ⟨base, index, disp⟩ := m
  cases base with
  | symbol s => cases index <;> simp [fields, isEncodable]
  | reg r =>
    cases index with
    | none =>
      simp only [Address.fields]
      split <;> simp [isEncodable]
    | some pair =>
      obtain ⟨index, scale⟩ := pair
      by_cases stack : index = .rsp <;> simp [fields, isEncodable, stack]

lemma Place.exists_fields_iff : (∃ f, p.fields reg = .ok f) ↔ p.isEncodable = true := by
  cases p with
  | reg r => simp [Place.fields, isEncodable]
  | mem m => exact Address.exists_fields_iff

lemma exists_ofPlace_iff (g : PlaceFields → Encoding) :
    (∃ e, (do let f ← p.fields reg; pure (g f) : Except EncodingFault Encoding) = .ok e) ↔
        p.isEncodable = true :=
  exists_bind_pure_iff.trans Place.exists_fields_iff

lemma Immediate.exists_ofByte_iff : (∃ imm, ofByte value = .ok imm) ↔
    Width.takes .byte value = true := by
  unfold ofByte
  split <;> simp_all [Width.takes]

lemma Immediate.exists_ofDword_iff : (∃ imm, ofDword value = .ok imm) ↔
    Width.takes .dword value = true := by
  unfold ofDword
  split <;> simp_all [Width.takes]

lemma takes_dword_of_takes_qword (h : Width.takes .qword value = true) :
    Width.takes .dword value = true := by
  simp only [Width.takes, fitsInt32, Bool.and_eq_true, decide_eq_true_eq] at h ⊢
  omega

lemma Width.takes_of_fitsInt8 (h : fitsInt8 value.toInt = true) (width : Width) :
    width.takes value = true := by
  simp only [fitsInt8, Bool.and_eq_true, decide_eq_true_eq] at h
  cases width <;> simp only [takes, fitsInt32, Bool.and_eq_true, decide_eq_true_eq] <;> omega

lemma exists_ofPlace_imm_iff {x : Except EncodingFault Immediate} {taken : Bool}
    (same : (∃ imm, x = .ok imm) ↔ taken = true) (g : PlaceFields → Immediate → Encoding) :
    (∃ e, (do let f ← p.fields reg; let imm ← x; pure (g f imm) : Except EncodingFault Encoding) =
      .ok e) ↔ (p.isEncodable && taken) = true := by
  have place : (∃ f, p.fields reg = .ok f) ↔ p.isEncodable = true := Place.exists_fields_iff
  rw [Bool.and_eq_true, ← same, ← place]
  simp only [bind_ok, pure_ok]
  constructor
  · rintro ⟨_, f, hf, imm, fits, -⟩
    exact ⟨⟨f, hf⟩, imm, fits⟩
  · rintro ⟨⟨f, hf⟩, imm, fits⟩
    exact ⟨_, f, hf, imm, fits, rfl⟩

namespace Instruction

lemma exists_encodeMove_iff {dst src : Operand} :
    (∃ e, encodeMove width dst src = .ok e) ↔ (mov width dst src).isEncodable = true := by
  cases dst with
  | imm value => cases src <;> cases width <;> simp [encodeMove, isEncodable, operandsAreEncodable]
  | reg d =>
    cases src with
    | reg s => cases width <;> exact exists_ofPlace_iff (p := .reg d) _
    | mem m => cases width <;> exact exists_ofPlace_iff (p := .mem m) _
    | imm value =>
      cases width with
      | byte => exact exists_bind_pure_iff.trans Immediate.exists_ofByte_iff
      | dword => exact exists_bind_pure_iff.trans Immediate.exists_ofDword_iff
      | qword =>
        simp only [encodeMove]
        split <;> simp [isEncodable, Place.fields]
  | mem m =>
    cases src with
    | mem m' => cases width <;> simp [encodeMove, isEncodable, operandsAreEncodable]
    | reg s => cases width <;> exact exists_ofPlace_iff (p := .mem m) _
    | imm value =>
      cases width with
      | byte => exact exists_ofPlace_imm_iff (p := .mem m) Immediate.exists_ofByte_iff _
      | dword => exact exists_ofPlace_imm_iff (p := .mem m) Immediate.exists_ofDword_iff _
      | qword =>
        simp only [encodeMove, isEncodable, operandsAreEncodable, Width.takes]
        split
        next fits =>
          rw [fits, Bool.and_true]
          exact exists_ofPlace_iff (p := .mem m) _
        next long => simp [long]

lemma exists_encodeAluConst_iff {op : AluOp} (dst : Place) :
    (∃ e, encodeAluConst op width dst value = .ok e) ↔
        (dst.isEncodable && width.takes value) = true := by
  cases width with
  | byte => exact exists_ofPlace_imm_iff Immediate.exists_ofByte_iff _
  | dword =>
    simp only [encodeAluConst]
    split
    next short =>
      rw [Width.takes_of_fitsInt8 short, Bool.and_true]
      exact exists_ofPlace_iff _
    split
    next => exact exists_ofPlace_imm_iff Immediate.exists_ofDword_iff _
    next long =>
      have untaken : Width.takes .dword value = false := by
        by_contra taken
        obtain ⟨imm, made⟩ := Immediate.exists_ofDword_iff.2 (Bool.not_eq_false _ ▸ taken)
        simp [made, Except.isOk, Except.toBool, Width.isQword] at long
      simp [untaken]
  | qword =>
    simp only [encodeAluConst]
    split
    next short =>
      rw [Width.takes_of_fitsInt8 short, Bool.and_true]
      exact exists_ofPlace_iff _
    split
    next fits =>
      have taken : Width.takes .qword value = true := by
        simpa [Width.isQword, Width.takes] using fits
      rw [taken]
      exact exists_ofPlace_imm_iff (by simp [Immediate.exists_ofDword_iff,
        takes_dword_of_takes_qword taken]) _
    next long =>
      have untaken : Width.takes .qword value = false := by
        simpa [Width.isQword, Width.takes] using long
      simp [untaken]

lemma exists_encodeAlu_iff {op : AluOp} {dst src : Operand} :
    (∃ e, encodeAlu op width dst src = .ok e) ↔ operandsAreEncodable width dst src = true := by
  cases dst with
  | imm value => cases src <;> simp [encodeAlu, operandsAreEncodable]
  | reg d =>
    cases src with
    | reg s => cases width <;> exact exists_ofPlace_iff (p := .reg d) _
    | mem m => cases width <;> exact exists_ofPlace_iff (p := .mem m) _
    | imm value => exact exists_encodeAluConst_iff (.reg d)
  | mem m =>
    cases src with
    | mem m' => simp [encodeAlu, operandsAreEncodable]
    | reg s => cases width <;> exact exists_ofPlace_iff (p := .mem m) _
    | imm value => exact exists_encodeAluConst_iff (.mem m)

lemma exists_encode_iff : (∃ e, i.encode = .ok e) ↔ i.isEncodable = true := by
  cases i with
  | mov width dst src => exact exists_encodeMove_iff
  | alu op width dst src => exact exists_encodeAlu_iff
  | movZeroByte dst src | movSignDword dst src | imul dst src => exact exists_ofPlace_iff _
  | lea dst m => exact exists_ofPlace_iff (p := .mem m) _
  | test dst src | unary op dst => exact exists_ofPlace_iff _
  | setcc cond dst => exact exists_ofPlace_iff (p := .reg dst) _
  | shift op dst count =>
    cases count with
    | cl => exact exists_ofPlace_iff _
    | imm count =>
      simp only [encode, encodeShift, isEncodable, Bool.and_eq_true, decide_eq_true_eq]
      split
      next large => simp [not_le.2 large]
      next small =>
        rw [and_iff_left (not_lt.1 small)]
        exact exists_ofPlace_iff _
  | _ => simp [encode, isEncodable]

end Instruction

end

def Address.symbol? (m : Address) : Option SymbolId :=
  match m.base with
  | .symbol s => some s
  | .reg _ => none

def Register.isStackRegister (r : Register) : Bool := r == .rsp || r == .rbp

namespace Instruction

def destination? : Instruction → Option Register
  | mov _ (.reg d) _ | movAddress d _ _ | movZeroByte d _ | movSignDword d _ | lea d _ | imul d _
  | shift _ (.reg d) _ | setcc _ d | pop d => some d
  | alu op _ (.reg d) _ => if op = .cmp then none else some d
  | unary op (.reg d) => if op = .div ∨ op = .idiv then none else some d
  | _ => none

def loadedSymbols : Instruction → List SymbolId
  | movAddress _ s _ => [s]
  | _ => []

def symbols (i : Instruction) : List SymbolId := i.memory.filterMap Address.symbol? ++
    i.loadedSymbols

/-- Instructions that go on to the next one and move neither end of the stack frame. -/
def isStraight : Instruction → Bool
  | label _ | align _ | push _ | pop _ | call _ | jmp _ | jmpShort _ | jcc _ _ | jccShort _ _ | ret
  | syscall | ud2 => false
  | i => !(i.destination?.any Register.isStackRegister)

/-- An instruction that computes, over the first `known` symbols. It has an encoding where the
numbers of schemas are `small`, and refers to symbols by distance. -/
structure IsPlain (small : Prop) (known : Nat) (i : Instruction) : Prop where
  encodable : small → i.isEncodable = true
  straight : i.isStraight = true
  symbols_lt : ∀ s ∈ i.symbols, s.index < known
  relative : i.loadedSymbols = []

end Instruction

def Address.IsKnown (known : Nat) (m : Address) : Prop := ∀ s ∈ m.symbol?, s.index < known

namespace Address

variable {n : Nat}

lemma isKnown_near (r : Register) (disp : Int32) : (near r disp).IsKnown n := by
  simp [IsKnown, symbol?, near]

lemma isKnown_symbol {s : SymbolId} (h : s.index < n) (addend : Int32) :
    (symbol s addend).IsKnown n := by
  simpa [IsKnown, symbol?, symbol] using h

end Address

lemma isStackRegister_of_mem_scratch {r : Register} (h : r ∈ Register.scratch) :
    r.isStackRegister = false := by
  have all : ∀ r ∈ Register.scratch, r.isStackRegister = false := by decide
  exact all r h

namespace Instruction

section

variable {small : Prop} {n : Nat} {d s : Register} {m : Address} {width : Width} {op : AluOp}

attribute [local simp] isStraight destination?

section

variable (encodable : i.isEncodable = true) (straight : i.isStraight = true)
  (loaded : i.loadedSymbols = [])
include encodable straight loaded

lemma IsPlain.of_memory (known : ∀ m ∈ i.memory, m.IsKnown n) : i.IsPlain small n where
  encodable _ := encodable
  straight := straight
  symbols_lt := by
    intro s inside
    rw [symbols, loaded, List.append_nil, List.mem_filterMap] at inside
    obtain ⟨m, mem, symbol⟩ := inside
    exact known m mem s symbol
  relative := loaded

lemma IsPlain.of_regs (memory : i.memory = []) : i.IsPlain small n :=
  .of_memory encodable straight loaded (memory ▸ List.forall_mem_nil _)

end

section

variable (hd : d.isStackRegister = false)
include hd

lemma isPlain_move_reg : (move d s).IsPlain small n :=
  .of_regs rfl (by simp [move, hd]) rfl rfl

lemma isPlain_move_imm (value : Int64) : (move d value).IsPlain small n :=
  .of_regs rfl (by simp [move, hd]) rfl rfl

lemma isPlain_load (hm : m.isEncodable = true) (hknown : m.IsKnown n) :
    (move d m).IsPlain small n :=
  .of_memory hm (by simp [move, hd]) rfl (by simpa [move, memory, Operand.memory] using hknown)

end

lemma isPlain_store (hm : m.isEncodable = true) (hknown : m.IsKnown n) :
    (mov width m s).IsPlain small n :=
  .of_memory (by cases width <;> exact hm) rfl rfl (by simpa [memory, Operand.memory] using hknown)

lemma isPlain_lea (hd : d.isStackRegister = false) (hm : m.isEncodable = true)
    (hknown : m.IsKnown n) : (lea d m).IsPlain small n :=
  .of_memory hm (by simp [hd]) rfl (by simpa [memory] using hknown)

section

variable {src : Place} (hd : d.isStackRegister = false) (hsrc : src.isEncodable = true)
  (hknown : ∀ m ∈ src.memory, m.IsKnown n)
include hd hsrc hknown

lemma isPlain_movZeroByte : (movZeroByte d src).IsPlain small n :=
  .of_memory hsrc (by simp [hd]) rfl hknown

lemma isPlain_movSignDword : (movSignDword d src).IsPlain small n :=
  .of_memory hsrc (by simp [hd]) rfl hknown

end

lemma isPlain_arith_reg (hd : d.isStackRegister = false ∨ op = .cmp) :
    (arith op d s).IsPlain small n :=
  .of_regs rfl (by by_cases applied : op = .cmp <;> simp_all [arith]) rfl rfl

lemma isPlain_arith_imm (hd : d.isStackRegister = false ∨ op = .cmp)
    (hvalue : fitsInt32 value.toInt = true) : (arith op d value).IsPlain small n :=
  .of_regs hvalue (by by_cases applied : op = .cmp <;> simp_all [arith]) rfl rfl

section

variable (hm : m.isEncodable = true) (hknown : m.IsKnown n) (hvalue : fitsInt32 value.toInt = true)
include hm hknown hvalue

lemma isPlain_arith_mem_imm : (arith op m value).IsPlain small n :=
  .of_memory (Bool.and_eq_true_iff.2 ⟨hm, hvalue⟩) rfl rfl
    (by simpa [arith, memory, Operand.memory] using hknown)

lemma isPlain_store_imm : (move m value).IsPlain small n :=
  .of_memory (Bool.and_eq_true_iff.2 ⟨hm, hvalue⟩) rfl rfl
    (by simpa [move, memory, Operand.memory] using hknown)

end

lemma isPlain_zero (hd : d.isStackRegister = false) : (zero d).IsPlain small n := isPlain_arith_reg
    (.inl hd)

lemma isPlain_check (d : Register) : (check d).IsPlain small n := .of_regs rfl rfl rfl rfl

section

variable (hd : d.isStackRegister = false)
include hd

lemma isPlain_imul : (imul d (.reg s)).IsPlain small n := .of_regs rfl (by simp [hd]) rfl rfl

lemma isPlain_unary {op : UnaryOp} : (unary op (.reg d)).IsPlain small n :=
  .of_regs rfl (by cases op <;> simp [hd]) rfl rfl

lemma isPlain_shift_cl {op : ShiftOp} : (shift op (.reg d) .cl).IsPlain small n :=
  .of_regs rfl (by simp [hd]) rfl rfl

lemma isPlain_setcc {cond : Condition} : (setcc cond d).IsPlain small n :=
  .of_regs rfl (by simp [hd]) rfl rfl

end

lemma isPlain_cqo : cqo.IsPlain small n := .of_regs rfl rfl rfl rfl

end

end Instruction

end AgentCompiler
