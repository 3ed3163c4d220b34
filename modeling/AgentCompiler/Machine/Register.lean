/-!
The sixteen general-purpose registers and the part each of them plays in generated code.

Calls follow the System V convention: six argument registers, one result register, six registers
that a routine keeps for its caller. Inside a handler two kept registers are fixed (state record
and message), and expressions are evaluated in a small stack of scratch registers.
-/

namespace AgentCompiler

inductive Register
  | rax | rcx | rdx | rbx | rsp | rbp | rsi | rdi
  | r8 | r9 | r10 | r11 | r12 | r13 | r14 | r15
  deriving DecidableEq

namespace Register

def all : List Register :=
  [rax, rcx, rdx, rbx, rsp, rbp, rsi, rdi, r8, r9, r10, r11, r12, r13, r14, r15]

def number : Register → Nat
  | rax => 0
  | rcx => 1
  | rdx => 2
  | rbx => 3
  | rsp => 4
  | rbp => 5
  | rsi => 6
  | rdi => 7
  | r8 => 8
  | r9 => 9
  | r10 => 10
  | r11 => 11
  | r12 => 12
  | r13 => 13
  | r14 => 14
  | r15 => 15

/-- The part of the number that fits a three-bit instruction field. -/
def lowBits (r : Register) : Nat := r.number % 8

def isExtended (r : Register) : Bool := 8 ≤ r.number

/-- The low bytes of these four are named only under a REX byte; without one the same numbers
select the second byte of the first four registers. -/
def lowByteNeedsRex : Register → Bool
  | rsp | rbp | rsi | rdi => true
  | _ => false

def isCalleeSaved : Register → Bool
  | rbx | rbp | r12 | r13 | r14 | r15 => true
  | _ => false

/-- Registers whose value a call may destroy. The stack pointer is in neither class. -/
def isCallerSaved (r : Register) : Bool := !r.isCalleeSaved && r != rsp

def name : Register → String
  | rax => "rax"
  | rcx => "rcx"
  | rdx => "rdx"
  | rbx => "rbx"
  | rsp => "rsp"
  | rbp => "rbp"
  | rsi => "rsi"
  | rdi => "rdi"
  | r8 => "r8"
  | r9 => "r9"
  | r10 => "r10"
  | r11 => "r11"
  | r12 => "r12"
  | r13 => "r13"
  | r14 => "r14"
  | r15 => "r15"

def name32 : Register → String
  | rax => "eax"
  | rcx => "ecx"
  | rdx => "edx"
  | rbx => "ebx"
  | rsp => "esp"
  | rbp => "ebp"
  | rsi => "esi"
  | rdi => "edi"
  | r8 => "r8d"
  | r9 => "r9d"
  | r10 => "r10d"
  | r11 => "r11d"
  | r12 => "r12d"
  | r13 => "r13d"
  | r14 => "r14d"
  | r15 => "r15d"

def name8 : Register → String
  | rax => "al"
  | rcx => "cl"
  | rdx => "dl"
  | rbx => "bl"
  | rsp => "spl"
  | rbp => "bpl"
  | rsi => "sil"
  | rdi => "dil"
  | r8 => "r8b"
  | r9 => "r9b"
  | r10 => "r10b"
  | r11 => "r11b"
  | r12 => "r12b"
  | r13 => "r13b"
  | r14 => "r14b"
  | r15 => "r15b"

def ofName? (text : String) : Option Register := all.find? (·.name == text)

def arguments : List Register := [rdi, rsi, rdx, rcx, r8, r9]

def result : Register := rax

/-- Base of the running agent's state record, fixed for a whole routine. -/
def stateBase : Register := r12

def message : Register := r13

/-- Registers in which expressions are evaluated, handed out in this order and given back in
reverse. None of them is an argument, a result or a fixed operand of division and shifts. -/
def scratch : List Register := [rbx, r14, r15, r10, r11]

end Register

end AgentCompiler
