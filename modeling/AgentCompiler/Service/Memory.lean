import AgentCompiler.Service.Basic

/-!
Memory services. Blocks are taken from the heap one after the other, in multiples of sixteen bytes,
and are never given back.
-/

namespace AgentCompiler

namespace Service

open Register (rax rcx rdx rsp rsi rdi r8)

/-- The code of a service behind its entry point, which is a multiple of sixteen. -/
def enter (s : Service) (body : List Instruction) : List Instruction :=
  .align 16 :: .label s.label :: body

def keeping (rs : List Register) (body : List Instruction) : List Instruction :=
  rs.map Instruction.push ++ body ++ rs.reverse.map Instruction.pop ++ [Instruction.ret]

/-- Stops the program with a message. The stack is off by the return address. -/
def abortWith (failed : Label) (message : SymbolId) : List Instruction :=
  [.label failed, .arith .sub rsp (.imm 8), .lea rdi (.symbol message 0), .call abort.label]

def copyBytesCode : List Instruction :=
  enter copyBytes [.move rax rdi, .move rcx rdx, .repMovsb, .ret]

def fillBytesCode : List Instruction :=
  enter fillBytes [.move r8 rdi, .move rax rsi, .move rcx rdx, .repStosb, .move rax r8, .ret]

def takeBlock (heap cursor : SymbolId) (heapSize : Nat) (full : Label) : List Instruction :=
  [.arith .cmp rdi (Int64.ofNat heapSize), .jcc .a full,
    .arith .add rdi (.imm 15), .arith .and rdi (.imm (-16)),
    .move rax (Address.symbol cursor 0), .lea rcx (.indexed rax rdi 0),
    .lea rdx (.symbol heap (Int32.ofNat heapSize)), .arith .cmp rcx rdx, .jcc .a full,
    .move (Address.symbol cursor 0) rcx,
    .move rdx rdi, .move rdi rax, .zero rsi, .jmp fillBytes.label]

/-- Sizes above the size of the heap are refused at once, so that rounding up cannot wrap
around. -/
def allocateCode (heap cursor message : SymbolId) (heapSize : Nat) (full : Label) :
    List Instruction :=
  enter allocate (takeBlock heap cursor heapSize full ++ abortWith full message)

end Service

end AgentCompiler
