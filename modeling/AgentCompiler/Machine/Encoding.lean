import AgentCompiler.Bytes
import AgentCompiler.Machine.Instruction

/-!
Machine code of single instructions.

An encoded instruction is a sequence of optional fields: a legacy byte, a REX byte, one to three
opcode bytes, the operand byte, the index byte, a displacement and an immediate. Which fields are
present depends on the operands alone, so the size of an instruction is fixed before any label or
symbol has an address. Distances to labels are filled in by the assembler; addresses of symbols
are left zero and patched when the image is laid out.
-/

namespace AgentCompiler

inductive EncodingFault
  | symbolIndexed
  | stackPointerIndex
  | byteRange
  | dwordRange
  | storeRange
  | aluRange
  | moveOperands
  | aluOperands
  | shiftRange
  deriving DecidableEq

def EncodingFault.message : EncodingFault → String
  | symbolIndexed => "RIP-relative operands cannot be indexed"
  | stackPointerIndex => "RSP cannot be used as an index register"
  | byteRange => "immediate does not fit in 8 bits"
  | dwordRange => "immediate does not fit in 32 bits"
  | storeRange => "64-bit store immediate must fit in a sign-extended imm32"
  | aluRange => "ALU immediate must fit in a sign-extended imm32"
  | moveOperands => "unsupported operand combination for mov"
  | aluOperands => "unsupported operand combination for ALU instruction"
  | shiftRange => "shift count must be below 64"

inductive Displacement
  | none
  | byte (value : Int8)
  | dword (value : Int32)
  | symbol (s : SymbolId) (addend : Int32)
  deriving DecidableEq

namespace Displacement

def size : Displacement → Nat
  | none => 0
  | byte _ => 1
  | dword _ | symbol _ _ => 4

def bytes : Displacement → Bytes
  | none => []
  | byte value => littleEndianInt 1 value.toInt
  | dword value => littleEndianInt 4 value.toInt
  | symbol _ _ => littleEndian 4 0

@[simp] theorem length_bytes (d : Displacement) : d.bytes.length = d.size := by
  cases d <;> simp [bytes, size]

end Displacement

inductive Immediate
  | none
  | byte (value : Int8)
  | dword (value : Int32)
  | qword (value : Int64)
  | short (l : Label)
  | near (l : Label)
  | address (s : SymbolId) (addend : Int64)
  deriving DecidableEq

namespace Immediate

def size : Immediate → Nat
  | none => 0
  | byte _ | short _ => 1
  | dword _ | near _ => 4
  | qword _ | address _ _ => 8

def bytes (distance : Int) : Immediate → Bytes
  | none => []
  | byte value => littleEndianInt 1 value.toInt
  | dword value => littleEndianInt 4 value.toInt
  | qword value => littleEndianInt 8 value.toInt
  | short _ => littleEndianInt 1 distance
  | near _ => littleEndianInt 4 distance
  | address _ _ => littleEndian 8 0

@[simp] theorem length_bytes (i : Immediate) (distance : Int) :
    (i.bytes distance).length = i.size := by cases i <;> simp [bytes, size]

/-- The label whose distance the field holds, with the width of the field in bits. -/
def target? : Immediate → Option (Label × Nat)
  | short l => some (l, 8)
  | near l => some (l, 32)
  | _ => Option.none

end Immediate

/-- The four flags of a REX byte: wide operation, and the fourth bits of the operand register, of
the index and of the base. -/
structure Rex where
  w : Bool := false
  r : Bool := false
  x : Bool := false
  b : Bool := false
  deriving DecidableEq

namespace Rex

def byte (rex : Rex) : UInt8 :=
  UInt8.ofNat (0x40 + 8 * rex.w.toNat + 4 * rex.r.toNat + 2 * rex.x.toNat + rex.b.toNat)

def isNeeded (rex : Rex) : Bool := rex.w || rex.r || rex.x || rex.b

end Rex

def operandByte (mode reg base : Nat) : UInt8 :=
  UInt8.ofNat (64 * (mode % 4) + 8 * (reg % 8) + base % 8)

def indexByte (scale index base : Nat) : UInt8 :=
  UInt8.ofNat (64 * (scale % 4) + 8 * (index % 8) + base % 8)

structure Encoding where
  legacy : Option UInt8 := none
  rex : Option UInt8 := none
  opcode : Bytes := []
  modrm : Option UInt8 := none
  sib : Option UInt8 := none
  disp : Displacement := .none
  imm : Immediate := .none
  deriving DecidableEq

namespace Encoding

def head (e : Encoding) : Bytes :=
  e.legacy.toList ++ e.rex.toList ++ e.opcode ++ e.modrm.toList ++ e.sib.toList

def dispOffset (e : Encoding) : Nat := e.head.length

def immOffset (e : Encoding) : Nat := e.dispOffset + e.disp.size

def size (e : Encoding) : Nat := e.immOffset + e.imm.size

/-- The whole instruction, given the distance to its label if it names one. -/
def bytes (e : Encoding) (distance : Int) : Bytes :=
  e.head ++ e.disp.bytes ++ e.imm.bytes distance

@[simp] theorem length_bytes (e : Encoding) (distance : Int) :
    (e.bytes distance).length = e.size := by
  simp [bytes, size, immOffset, dispOffset]; omega

end Encoding

/-- The fields by which an instruction names a place: REX flags, operand byte, index byte and
displacement. -/
structure PlaceFields where
  rex : Rex
  modrm : UInt8
  sib : Option UInt8
  disp : Displacement

namespace Address

/-- Mode and displacement of a register base. A base numbered five modulo eight always carries a
displacement, since without one its number means something else. -/
def modeFor (base : Register) (disp : Int32) : Nat × Displacement :=
  if disp = 0 ∧ base.lowBits ≠ 5 then (0, .none)
  else if fitsInt8 disp.toInt then (1, .byte disp.toInt8)
  else (2, .dword disp)

/-- Fields of a memory operand. A base numbered four modulo eight can be named only through an
index byte, whose index four stands for none. -/
def fields (reg : Nat) (m : Address) : Except EncodingFault PlaceFields :=
  match m.base with
  | .symbol s =>
      if m.index.isSome then throw .symbolIndexed
      else pure {
        rex := { r := 8 ≤ reg }
        modrm := operandByte 0 reg 5
        sib := none
        disp := .symbol s m.disp }
  | .reg base =>
      let (mode, disp) := modeFor base m.disp
      match m.index with
      | none =>
          let rex : Rex := { r := 8 ≤ reg, b := base.isExtended }
          if base.lowBits = 4 then
            pure ⟨rex, operandByte mode reg 4, some (indexByte 0 4 base.lowBits), disp⟩
          else pure ⟨rex, operandByte mode reg base.lowBits, none, disp⟩
      | some (index, scale) =>
          if index = .rsp then throw .stackPointerIndex
          else
            pure {
              rex := { r := 8 ≤ reg, x := index.isExtended, b := base.isExtended }
              modrm := operandByte mode reg 4
              sib := some (indexByte scale.bits index.lowBits base.lowBits)
              disp }

end Address

def Place.fields (reg : Nat) : Place → Except EncodingFault PlaceFields
  | .reg r => pure {
      rex := { r := 8 ≤ reg, b := r.isExtended }
      modrm := operandByte 3 reg r.lowBits
      sib := none
      disp := .none }
  | .mem m => m.fields reg

def Place.lowByteNeedsRex : Place → Bool
  | .reg r => r.lowByteNeedsRex
  | .mem _ => false

namespace Encoding

def rexByte (rex : Rex) (forced : Bool) : Option UInt8 :=
  if rex.isNeeded || forced then some rex.byte else none

def ofPlace (opcode : List Nat) (wide forced : Bool) (f : PlaceFields)
    (imm : Immediate) : Encoding where
  rex := rexByte { f.rex with w := wide } forced
  opcode := opcode.map UInt8.ofNat
  modrm := some f.modrm
  sib := f.sib
  disp := f.disp
  imm := imm

def ofRegister (opcode : Nat) (wide forced : Bool) (r : Register)
    (imm : Immediate) : Encoding where
  rex := rexByte { w := wide, b := r.isExtended } forced
  opcode := [UInt8.ofNat (opcode + r.lowBits)]
  imm := imm

def plain (opcode : List Nat) (imm : Immediate) : Encoding where
  opcode := opcode.map UInt8.ofNat
  imm := imm

end Encoding

namespace Immediate

/-- A byte operand takes signed and unsigned bytes alike. -/
def ofByte (value : Int64) : Except EncodingFault Immediate :=
  if -128 ≤ value.toInt ∧ value.toInt ≤ 255 then pure (byte value.toInt8) else throw .byteRange

/-- A four-byte operand takes signed and unsigned values alike. -/
def ofDword (value : Int64) : Except EncodingFault Immediate :=
  if -2147483648 ≤ value.toInt ∧ value.toInt ≤ 4294967295 then pure (dword value.toInt32)
  else throw .dwordRange

end Immediate

namespace Instruction

/-- A move. A word constant goes into a register in its short form where that fits. -/
def encodeMove (width : Width) : Operand → Operand → Except EncodingFault Encoding
  | .reg d, .reg s => do
      let f ← (Place.reg d).fields s.number
      match width with
      | .byte => pure (.ofPlace [0x88] false (d.lowByteNeedsRex || s.lowByteNeedsRex) f .none)
      | _ => pure (.ofPlace [0x89] width.isQword false f .none)
  | .reg d, .mem m => do
      let f ← m.fields d.number
      match width with
      | .byte => pure (.ofPlace [0x8A] false d.lowByteNeedsRex f .none)
      | _ => pure (.ofPlace [0x8B] width.isQword false f .none)
  | .mem m, .reg s => do
      let f ← m.fields s.number
      match width with
      | .byte => pure (.ofPlace [0x88] false s.lowByteNeedsRex f .none)
      | _ => pure (.ofPlace [0x89] width.isQword false f .none)
  | .reg d, .imm v =>
      match width with
      | .qword =>
          if fitsInt32 v.toInt then do
            let f ← (Place.reg d).fields 0
            pure (.ofPlace [0xC7] true false f (.dword v.toInt32))
          else pure (.ofRegister 0xB8 true false d (.qword v))
      | .dword => do
          let imm ← Immediate.ofDword v
          pure (.ofRegister 0xB8 false false d imm)
      | .byte => do
          let imm ← Immediate.ofByte v
          pure (.ofRegister 0xB0 false d.lowByteNeedsRex d imm)
  | .mem m, .imm v =>
      match width with
      | .qword =>
          if fitsInt32 v.toInt then do
            let f ← m.fields 0
            pure (.ofPlace [0xC7] true false f (.dword v.toInt32))
          else throw .storeRange
      | .dword => do
          let f ← m.fields 0
          let imm ← Immediate.ofDword v
          pure (.ofPlace [0xC7] false false f imm)
      | .byte => do
          let f ← m.fields 0
          let imm ← Immediate.ofByte v
          pure (.ofPlace [0xC6] false false f imm)
  | _, _ => throw .moveOperands

/-- Arithmetic with a constant. Constants that fit a signed byte take the short form. -/
def encodeAluConst (op : AluOp) (width : Width) (dst : Place) (v : Int64) :
    Except EncodingFault Encoding :=
  match width with
  | .byte => do
      let f ← dst.fields op.selector
      let imm ← Immediate.ofByte v
      pure (.ofPlace [0x80] false dst.lowByteNeedsRex f imm)
  | _ =>
      let wide := width.isQword
      if fitsInt8 v.toInt then do
        let f ← dst.fields op.selector
        pure (.ofPlace [0x83] wide false f (.byte v.toInt8))
      else if fitsInt32 v.toInt || (!wide && (Immediate.ofDword v).isOk) then do
        let f ← dst.fields op.selector
        let imm ← Immediate.ofDword v
        pure (.ofPlace [0x81] wide false f imm)
      else throw .aluRange

def encodeAluStore (op : AluOp) (width : Width) (dst : Place) (src : Register) :
    Except EncodingFault Encoding := do
  let f ← dst.fields src.number
  match width with
  | .byte =>
      pure (.ofPlace [op.opcode] false (src.lowByteNeedsRex || dst.lowByteNeedsRex) f .none)
  | _ => pure (.ofPlace [op.opcode + 1] width.isQword false f .none)

def encodeAluLoad (op : AluOp) (width : Width) (dst : Register) (src : Address) :
    Except EncodingFault Encoding := do
  let f ← src.fields dst.number
  match width with
  | .byte => pure (.ofPlace [op.opcode + 2] false dst.lowByteNeedsRex f .none)
  | _ => pure (.ofPlace [op.opcode + 3] width.isQword false f .none)

def encodeAlu (op : AluOp) (width : Width) : Operand → Operand → Except EncodingFault Encoding
  | .reg d, .reg s => encodeAluStore op width (.reg d) s
  | .mem m, .reg s => encodeAluStore op width (.mem m) s
  | .reg d, .mem m => encodeAluLoad op width d m
  | .reg d, .imm v => encodeAluConst op width (.reg d) v
  | .mem m, .imm v => encodeAluConst op width (.mem m) v
  | _, _ => throw .aluOperands

def encodeShift (op : ShiftOp) (dst : Place) : ShiftCount → Except EncodingFault Encoding
  | .cl => do
      let f ← dst.fields op.selector
      pure (.ofPlace [0xD3] true false f .none)
  | .imm count =>
      if 63 < count.toNat then throw .shiftRange
      else do
        let f ← dst.fields op.selector
        pure (.ofPlace [0xC1] true false f (.byte count.toInt8))

def encode : Instruction → Except EncodingFault Encoding
  | label _ | align _ => pure {}
  | mov width dst src => encodeMove width dst src
  | movAddress dst symbol addend => pure (.ofRegister 0xB8 true false dst (.address symbol addend))
  | movZeroByte dst src => do
      let f ← src.fields dst.number
      pure (.ofPlace [0x0F, 0xB6] true src.lowByteNeedsRex f .none)
  | movSignDword dst src => do
      let f ← src.fields dst.number
      pure (.ofPlace [0x63] true false f .none)
  | lea dst src => do
      let f ← src.fields dst.number
      pure (.ofPlace [0x8D] true false f .none)
  | alu op width dst src => encodeAlu op width dst src
  | test dst src => do
      let f ← dst.fields src.number
      pure (.ofPlace [0x85] true false f .none)
  | imul dst src => do
      let f ← src.fields dst.number
      pure (.ofPlace [0x0F, 0xAF] true false f .none)
  | unary op dst => do
      let f ← dst.fields op.opcode.2
      pure (.ofPlace [op.opcode.1] true false f .none)
  | shift op dst count => encodeShift op dst count
  | cqo => pure { rex := Encoding.rexByte { w := true } false, opcode := [0x99] }
  | setcc cond dst => do
      let f ← (Place.reg dst).fields 0
      pure (.ofPlace [0x0F, 0x90 + cond.code] false dst.lowByteNeedsRex f .none)
  | push r => pure (.ofRegister 0x50 false false r .none)
  | pop r => pure (.ofRegister 0x58 false false r .none)
  | call target => pure (.plain [0xE8] (.near target))
  | jmp target => pure (.plain [0xE9] (.near target))
  | jmpShort target => pure (.plain [0xEB] (.short target))
  | jcc cond target => pure (.plain [0x0F, 0x80 + cond.code] (.near target))
  | jccShort cond target => pure (.plain [0x70 + cond.code] (.short target))
  | ret => pure (.plain [0xC3] .none)
  | syscall => pure (.plain [0x0F, 0x05] .none)
  | repMovsb => pure { legacy := some 0xF3, opcode := [0xA4] }
  | repStosb => pure { legacy := some 0xF3, opcode := [0xAA] }
  | ud2 => pure (.plain [0x0F, 0x0B] .none)

end Instruction

end AgentCompiler
