import AgentCompiler.Machine.Encoding
import AgentCompiler.Proofs.ByteStrings

/-!
Machine code as the processor reads it.

The reader follows the layout of x86-64 instructions for the operations of the library: an optional
repetition byte F3, an optional REX byte 40 to 4F directly before the opcode, one or two opcode
bytes, and after them what the opcode asks for. It knows every form of the operand byte, also those
that the library never writes: an index byte without base, or the second bytes of the first four
registers, which the numbers four to seven mean in byte operations without a REX byte.

Labels and symbols have no names here. A branch carries its distance, and an address relative to
code is counted from the following instruction. All numbers have the sign that their field gives.
-/

namespace AgentCompiler

open Register

namespace MachineCode

inductive Origin
  | register (r : Register)
  | next
  | zero
  deriving DecidableEq

structure Address where
  origin : Origin
  index : Option (Register × Scale)
  disp : Int
  deriving DecidableEq

inductive Place
  | reg (r : Register)
  | high (r : Register)
  | mem (m : Address)
  deriving DecidableEq

inductive Operand
  | place (p : Place)
  | imm (value : Int)
  deriving DecidableEq

inductive Action
  | mov (width : Width) (dst src : Operand)
  | movZeroByte (dst : Register) (src : Place)
  | movSignDword (dst : Register) (src : Place)
  | lea (dst : Register) (src : Address)
  | alu (op : AluOp) (width : Width) (dst src : Operand)
  | test (dst : Place) (src : Register)
  | imul (dst : Register) (src : Place)
  | unary (op : UnaryOp) (dst : Place)
  | shift (op : ShiftOp) (dst : Place) (count : ShiftCount)
  | cqo
  | setcc (cond : Condition) (dst : Place)
  | push (r : Register)
  | pop (r : Register)
  | call (distance : Int)
  | jmp (distance : Int)
  | jmpShort (distance : Int)
  | jcc (cond : Condition) (distance : Int)
  | jccShort (cond : Condition) (distance : Int)
  | ret
  | syscall
  | repMovsb
  | repStosb
  | ud2
  deriving DecidableEq

end MachineCode

def Register.ofBits (extended : Bool) (low : Nat) : Register :=
  match extended, low % 8 with
  | false, 0 => .rax
  | false, 1 => .rcx
  | false, 2 => .rdx
  | false, 3 => .rbx
  | false, 4 => .rsp
  | false, 5 => .rbp
  | false, 6 => .rsi
  | false, _ => .rdi
  | true, 0 => .r8
  | true, 1 => .r9
  | true, 2 => .r10
  | true, 3 => .r11
  | true, 4 => .r12
  | true, 5 => .r13
  | true, 6 => .r14
  | true, _ => .r15

/-- The condition of a code; the two parity conditions are not among those of the library. -/
def Condition.ofCode? : Nat → Option Condition
  | 0x0 => some .o
  | 0x1 => some .no
  | 0x2 => some .b
  | 0x3 => some .ae
  | 0x4 => some .e
  | 0x5 => some .ne
  | 0x6 => some .be
  | 0x7 => some .a
  | 0x8 => some .s
  | 0x9 => some .ns
  | 0xC => some .l
  | 0xD => some .ge
  | 0xE => some .le
  | 0xF => some .g
  | _ => none

/-- The operation of a middle field; two and three take the carry flag and are left out. -/
def AluOp.ofSelector? : Nat → Option AluOp
  | 0 => some .add
  | 1 => some .or
  | 4 => some .and
  | 5 => some .sub
  | 6 => some .xor
  | 7 => some .cmp
  | _ => none

def UnaryOp.ofOpcode? : Nat → Nat → Option UnaryOp
  | 0xF7, 2 => some .not
  | 0xF7, 3 => some .neg
  | 0xF7, 6 => some .div
  | 0xF7, 7 => some .idiv
  | 0xFF, 0 => some .inc
  | 0xFF, 1 => some .dec
  | _, _ => none

def ShiftOp.ofSelector? : Nat → Option ShiftOp
  | 4 => some .shl
  | 5 => some .shr
  | 7 => some .sar
  | _ => none

def Scale.ofBits (n : Nat) : Scale :=
  match n % 4 with
  | 0 => .one
  | 1 => .two
  | 2 => .four
  | _ => .eight

def Rex.ofByte (b : UInt8) : Rex where
  w := b.toNat.testBit 3
  r := b.toNat.testBit 2
  x := b.toNat.testBit 1
  b := b.toNat.testBit 0

namespace MachineCode

def takeRex : Bytes → Option Rex × Bytes
  | [] => (none, [])
  | b :: rest => if b.toNat / 16 = 4 then (some (Rex.ofByte b), rest) else (none, b :: rest)

/-- The two-bit field and the two three-bit fields of an operand byte or an index byte. -/
def fieldsOf (b : UInt8) : Nat × Nat × Nat := (b.toNat / 64, b.toNat / 8 % 8, b.toNat % 8)

def takeDisp (mode : Nat) (bytes : Bytes) : Option (Int × Bytes) :=
  match mode with
  | 0 => some (0, bytes)
  | 1 => takeInt 1 bytes
  | _ => takeInt 4 bytes

/-- The memory operand that an index byte starts. Index four without its fourth bit means none, and
base five in mode zero means a displacement alone. -/
def takeIndexed (rex : Rex) (mode : Nat) : Bytes → Option (Address × Bytes)
  | [] => none
  | b :: rest => do
      let (scale, index, base) := fieldsOf b
      let indexed := if index = 4 ∧ rex.x = false then none
        else some (Register.ofBits rex.x index, Scale.ofBits scale)
      if base = 5 ∧ mode = 0 then do
        let (disp, rest) ← takeInt 4 rest
        pure (⟨.zero, indexed, disp⟩, rest)
      else do
        let (disp, rest) ← takeDisp mode rest
        pure (⟨.register (Register.ofBits rex.b base), indexed, disp⟩, rest)

/-- The memory operand after an operand byte. Base four means that an index byte follows, and base
five in mode zero that the address is relative to the code. -/
def takeAddress (rex : Rex) (mode base : Nat) (bytes : Bytes) : Option (Address × Bytes) :=
  if base = 4 then takeIndexed rex mode bytes
  else if base = 5 ∧ mode = 0 then do
    let (disp, rest) ← takeInt 4 bytes
    pure (⟨.next, none, disp⟩, rest)
  else do
    let (disp, rest) ← takeDisp mode bytes
    pure (⟨.register (ofBits rex.b base), none, disp⟩, rest)

/-- The register of a field, or the part of it that a byte operation means. -/
def registerPlace (rex? : Option Rex) (width : Width) (extended : Bool) (low : Nat) : Place :=
  if width = .byte ∧ rex? = none ∧ 4 ≤ low then .high (ofBits false (low - 4))
  else .reg (ofBits extended low)

/-- The middle field of the operand byte, and the place that its other fields and the bytes after
it name. -/
def takePlace (rex? : Option Rex) (width : Width) : Bytes → Option (Nat × Place × Bytes)
  | [] => none
  | b :: rest =>
    let rex := rex?.getD {}
    let (mode, field, base) := fieldsOf b
    if mode = 3 then some (field, registerPlace rex? width rex.b base, rest)
    else do
      let (m, rest) ← takeAddress rex mode base rest
      pure (field, .mem m, rest)

def takeConst (width : Width) (bytes : Bytes) : Option (Int × Bytes) :=
  match width with
  | .byte => takeInt 1 bytes
  | _ => takeInt 4 bytes

/-- In most opcodes the lowest bit tells bytes from words, and the REX byte tells the words apart.
-/
def widthOf (rex : Rex) (opcode : Nat) : Width := if opcode % 2 =
    0 then .byte else if rex.w then .qword else .dword

def takePair (rex? : Option Rex) (opcode : Nat) (make : Width → Operand → Operand → Action)
    (bytes : Bytes) : Option (Action × Bytes) := do
  let rex := rex?.getD {}
  let width := widthOf rex opcode
  let (field, p, rest) ← takePlace rex? width bytes
  let r := registerPlace rex? width rex.r field
  if opcode / 2 % 2 = 0 then pure (make width (.place p) (.place r), rest)
  else pure (make width (.place r) (.place p), rest)

def takeWide (rex? : Option Rex) (width : Width) (make : Register → Place → Option Action)
    (bytes : Bytes) : Option (Action × Bytes) := do
  let rex := rex?.getD {}
  let (field, p, rest) ← takePlace rex? width bytes
  let action ← if rex.w then make (ofBits rex.r field) p else none
  pure (action, rest)

/-- Only a place in memory has an address to load. -/
def leaOf (dst : Register) : Place → Option Action
  | .mem m => some (.lea dst m)
  | .reg _ | .high _ => none

/-- A whole-word operation on a place, chosen by the middle field. -/
def takeSelected (rex? : Option Rex) (make : Nat → Place → Option Action) (bytes : Bytes) :
    Option (Action × Bytes) := do
  let (field, p, rest) ← takePlace rex? .qword bytes
  let action ← if (rex?.getD {}).w then make field p else none
  pure (action, rest)

def takeBranch (count : Nat) (make : Int → Action) (bytes : Bytes) : Option (Action × Bytes) := do
  let (distance, rest) ← takeInt count bytes
  pure (make distance, rest)

/-- The constant of an arithmetic operation; opcode 83 carries one byte at every width. -/
def takeAluValue (opcode : Nat) (width : Width) (bytes : Bytes) : Option (Int × Bytes) :=
  if opcode = 0x83 then takeInt 1 bytes else takeConst width bytes

def takeAluConst (rex? : Option Rex) (opcode : Nat) (bytes : Bytes) : Option (Action × Bytes) := do
  let width := widthOf (rex?.getD {}) opcode
  let (field, p, rest) ← takePlace rex? width bytes
  let op ← AluOp.ofSelector? field
  let (value, rest) ← takeAluValue opcode width rest
  pure (.alu op width (.place p) (.imm value), rest)

def takeMovConst (rex? : Option Rex) (opcode : Nat) (bytes : Bytes) : Option (Action × Bytes) := do
  let width := widthOf (rex?.getD {}) opcode
  let (field, p, rest) ← takePlace rex? width bytes
  let (value, rest) ← takeConst width rest
  if field = 0 then pure (.mov width (.place p) (.imm value), rest) else none

/-- A constant move to the register in the opcode; a whole word takes eight bytes. -/
def takeMovShort (rex? : Option Rex) (opcode : Nat) (bytes : Bytes) : Option (Action × Bytes) := do
  let rex := rex?.getD {}
  let width : Width := if opcode < 0xB8 then .byte else if rex.w then .qword else .dword
  let (value, rest) ← takeInt width.bytes bytes
  pure (.mov width (.place (registerPlace rex? width rex.b (opcode % 8))) (.imm value), rest)

def takeCount (opcode : Nat) : Bytes → Option (ShiftCount × Bytes)
  | [] => if opcode = 0xC1 then none else some (.cl, [])
  | b :: rest => if opcode = 0xC1 then some (.imm b, rest) else some (.cl, b :: rest)

def takeShift (rex? : Option Rex) (opcode : Nat) (bytes : Bytes) : Option (Action × Bytes) := do
  let (field, p, rest) ← takePlace rex? .qword bytes
  let op ← ShiftOp.ofSelector? field
  let (count, rest) ← takeCount opcode rest
  if (rex?.getD {}).w then pure (.shift op p count, rest) else none

def afterOpcode (rex? : Option Rex) (opcode : Nat) (bytes : Bytes) : Option (Action × Bytes) :=
  let rex := rex?.getD {}
  let low := ofBits rex.b opcode
  if opcode < 0x40 then
    -- the upper three bits select the operation as a middle field does
    if opcode % 8 < 4 then do
      let op ← AluOp.ofSelector? (opcode / 8)
      takePair rex? opcode (.alu op) bytes
    else none
  else if opcode < 0x50 then none
  else if opcode < 0x58 then some (.push low, bytes)
  else if opcode < 0x60 then some (.pop low, bytes)
  else if opcode / 16 = 7 then do
    let cond ← Condition.ofCode? (opcode % 16)
    takeBranch 1 (.jccShort cond) bytes
  else if opcode / 16 = 0xB then takeMovShort rex? opcode bytes
  else
    match opcode with
    | 0x63 => takeWide rex? .dword (fun r p => some (.movSignDword r p)) bytes
    | 0x80 | 0x81 | 0x83 => takeAluConst rex? opcode bytes
    | 0x85 => takeWide rex? .qword (fun r p => some (.test p r)) bytes
    | 0x88 | 0x89 | 0x8A | 0x8B => takePair rex? opcode .mov bytes
    | 0x8D => takeWide rex? .qword leaOf bytes
    | 0x99 => if rex.w then some (.cqo, bytes) else none
    | 0xC1 | 0xD3 => takeShift rex? opcode bytes
    | 0xC3 => some (.ret, bytes)
    | 0xC6 | 0xC7 => takeMovConst rex? opcode bytes
    | 0xE8 => takeBranch 4 .call bytes
    | 0xE9 => takeBranch 4 .jmp bytes
    | 0xEB => takeBranch 1 .jmpShort bytes
    | 0xF7 | 0xFF =>
      takeSelected rex? (fun n p => (UnaryOp.ofOpcode? opcode n).map (.unary · p)) bytes
    | _ => none

def afterSecond (rex? : Option Rex) (opcode : Nat) (bytes : Bytes) : Option (Action × Bytes) :=
  if opcode / 16 = 8 then do
    let cond ← Condition.ofCode? (opcode % 16)
    takeBranch 4 (.jcc cond) bytes
  else if opcode / 16 = 9 then do
    let cond ← Condition.ofCode? (opcode % 16)
    let (_, p, rest) ← takePlace rex? .byte bytes
    pure (.setcc cond p, rest)
  else
    match opcode with
    | 0x05 => some (.syscall, bytes)
    | 0x0B => some (.ud2, bytes)
    | 0xAF => takeWide rex? .qword (fun r p => some (.imul r p)) bytes
    | 0xB6 => takeWide rex? .byte (fun r p => some (.movZeroByte r p)) bytes
    | _ => none

def afterEscape (rex? : Option Rex) : Bytes → Option (Action × Bytes)
  | [] => none
  | b :: rest => afterSecond rex? b.toNat rest

def afterRex (rex? : Option Rex) : Bytes → Option (Action × Bytes)
  | [] => none
  | b :: rest => if b = 0x0F then afterEscape rex? rest else afterOpcode rex? b.toNat rest

def afterRepeat : Bytes → Option (Action × Bytes)
  | [] => none
  | b :: rest =>
    if b = 0xA4 then some (.repMovsb, rest)
    else if b = 0xAA then some (.repStosb, rest)
    else none

def decode : Bytes → Option (Action × Bytes)
  | [] => none
  | b :: rest =>
    if b = 0xF3 then afterRepeat (takeRex rest).2
    else afterRex (takeRex (b :: rest)).1 (takeRex (b :: rest)).2

end MachineCode

end AgentCompiler
