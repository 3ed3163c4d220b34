import AgentCompiler.Machine.Register

/-!
The instruction set of generated programs. Branches name labels and operands name symbols, so an
instruction stream is complete before any of them has an address. Two directives, a label binding
and an alignment, stand in the stream beside the instructions.
-/

namespace AgentCompiler

/-- A position in an instruction stream, known by its number. -/
structure Label where
  id : Nat
  deriving DecidableEq

/-- A datum in some section, known by its number in the symbol table. -/
structure SymbolId where
  index : Nat
  deriving DecidableEq

inductive Condition
  | o | no | b | ae | e | ne | be | a | s | ns | l | ge | le | g
  deriving DecidableEq

namespace Condition

def all : List Condition := [o, no, b, ae, e, ne, be, a, s, ns, l, ge, le, g]

def code : Condition → Nat
  | o => 0
  | no => 1
  | b => 2
  | ae => 3
  | e => 4
  | ne => 5
  | be => 6
  | a => 7
  | s => 8
  | ns => 9
  | l => 12
  | ge => 13
  | le => 14
  | g => 15

def suffix : Condition → String
  | o => "o"
  | no => "no"
  | b => "b"
  | ae => "ae"
  | e => "e"
  | ne => "ne"
  | be => "be"
  | a => "a"
  | s => "s"
  | ns => "ns"
  | l => "l"
  | ge => "ge"
  | le => "le"
  | g => "g"

end Condition

/-- Width of a data movement or arithmetic operation. -/
inductive Width
  | byte | dword | qword
  deriving DecidableEq

namespace Width

def bytes : Width → Nat
  | byte => 1
  | dword => 4
  | qword => 8

def isQword : Width → Bool
  | qword => true
  | _ => false

/-- The size word before a memory operand in a listing. -/
def keyword : Width → String
  | byte => "byte"
  | dword => "dword"
  | qword => "qword"

end Width

inductive Scale
  | one | two | four | eight
  deriving DecidableEq

namespace Scale

def bits : Scale → Nat
  | one => 0
  | two => 1
  | four => 2
  | eight => 3

def factor : Scale → Nat
  | one => 1
  | two => 2
  | four => 4
  | eight => 8

end Scale

/-- What a memory address is counted from. A symbol is addressed relative to the instruction that
names it, and the displacement of the operand is then added to the symbol's own address. -/
inductive Base
  | reg (r : Register)
  | symbol (s : SymbolId)
  deriving DecidableEq

structure Address where
  base : Base
  index : Option (Register × Scale)
  disp : Int32
  deriving DecidableEq

namespace Address

def near (r : Register) (disp : Int32) : Address := ⟨.reg r, none, disp⟩

def deref (r : Register) : Address := near r 0

def indexed (r i : Register) (disp : Int32) : Address := ⟨.reg r, some (i, .one), disp⟩

def symbol (s : SymbolId) (addend : Int32) : Address := ⟨.symbol s, none, addend⟩

end Address

inductive Place
  | reg (r : Register)
  | mem (m : Address)
  deriving DecidableEq

inductive Operand
  | reg (r : Register)
  | imm (value : Int64)
  | mem (m : Address)
  deriving DecidableEq

namespace Operand

instance : Coe Register Operand := ⟨reg⟩

instance : Coe Int64 Operand := ⟨imm⟩

instance : Coe Address Operand := ⟨mem⟩

end Operand

/-- Two-operand arithmetic. A comparison sets flags and stores nothing. -/
inductive AluOp
  | add | or | and | sub | xor | cmp
  deriving DecidableEq

namespace AluOp

def all : List AluOp := [add, or, and, sub, xor, cmp]

/-- Opcode of the byte form with a register source; the other forms are counted from it. -/
def opcode : AluOp → Nat
  | add => 0x00
  | or => 0x08
  | and => 0x20
  | sub => 0x28
  | xor => 0x30
  | cmp => 0x38

def selector : AluOp → Nat
  | add => 0
  | or => 1
  | and => 4
  | sub => 5
  | xor => 6
  | cmp => 7

def mnemonic : AluOp → String
  | add => "add"
  | or => "or"
  | and => "and"
  | sub => "sub"
  | xor => "xor"
  | cmp => "cmp"

end AluOp

/-- One-operand arithmetic. Both divisions take the double word in rdx and rax. -/
inductive UnaryOp
  | not | neg | div | idiv | inc | dec
  deriving DecidableEq

namespace UnaryOp

def all : List UnaryOp := [not, neg, div, idiv, inc, dec]

def opcode : UnaryOp → Nat × Nat
  | not => (0xF7, 2)
  | neg => (0xF7, 3)
  | div => (0xF7, 6)
  | idiv => (0xF7, 7)
  | inc => (0xFF, 0)
  | dec => (0xFF, 1)

def mnemonic : UnaryOp → String
  | not => "not"
  | neg => "neg"
  | div => "div"
  | idiv => "idiv"
  | inc => "inc"
  | dec => "dec"

end UnaryOp

inductive ShiftOp
  | shl | shr | sar
  deriving DecidableEq

namespace ShiftOp

def all : List ShiftOp := [shl, shr, sar]

def selector : ShiftOp → Nat
  | shl => 4
  | shr => 5
  | sar => 7

def mnemonic : ShiftOp → String
  | shl => "shl"
  | shr => "shr"
  | sar => "sar"

end ShiftOp

inductive ShiftCount
  | cl
  | imm (count : UInt8)
  deriving DecidableEq

inductive Instruction
  | label (l : Label)
  | align (boundary : Nat)
  | mov (width : Width) (dst src : Operand)
  /-- Loads the absolute address of a symbol plus a constant. -/
  | movAddress (dst : Register) (symbol : SymbolId) (addend : Int64)
  | movZeroByte (dst : Register) (src : Place)
  | movSignDword (dst : Register) (src : Place)
  | lea (dst : Register) (src : Address)
  | alu (op : AluOp) (width : Width) (dst src : Operand)
  | test (dst : Place) (src : Register)
  | imul (dst : Register) (src : Place)
  | unary (op : UnaryOp) (dst : Place)
  | shift (op : ShiftOp) (dst : Place) (count : ShiftCount)
  /-- Sign-extends rax into rdx. -/
  | cqo
  | setcc (cond : Condition) (dst : Register)
  | push (r : Register)
  | pop (r : Register)
  | call (target : Label)
  | jmp (target : Label)
  | jmpShort (target : Label)
  | jcc (cond : Condition) (target : Label)
  | jccShort (cond : Condition) (target : Label)
  | ret
  | syscall
  | repMovsb
  | repStosb
  | ud2
  deriving DecidableEq

namespace Instruction

def move (dst src : Operand) : Instruction := mov .qword dst src

def arith (op : AluOp) (dst src : Operand) : Instruction := alu op .qword dst src

def zero (r : Register) : Instruction := arith .xor r r

def check (r : Register) : Instruction := test (.reg r) r

def target? : Instruction → Option Label
  | call l | jmp l | jmpShort l | jcc _ l | jccShort _ l => some l
  | _ => none

end Instruction

end AgentCompiler
