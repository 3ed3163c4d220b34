import AgentCompiler.Service.Memory

/-!
Message queues. A queue is a ring of entries behind a header of two words: the index of the oldest
entry and the number of entries. An entry is the number of a schema and the address of a payload.
A dispatch slot has a word more in front, which says that it is active.
-/

namespace AgentCompiler

namespace Service

open Register (rax rcx rdx rsi rdi r8)

def putEntry (capacity : Nat) (inRange overflow : Label) : List Instruction :=
  [.move rax (Address.near rdi 8), .arith .cmp rax (Int64.ofNat capacity), .jcc .ae overflow,
    .move rcx (Address.deref rdi), .arith .add rcx rax, .arith .cmp rcx (Int64.ofNat capacity),
    .jccShort .b inRange, .arith .sub rcx (Int64.ofNat capacity),
    .label inRange, .shift .shl (.reg rcx) (.imm 4),
    .move (Address.indexed rdi rcx 16) rsi, .move (Address.indexed rdi rcx 24) rdx,
    .arith .add rax (.imm 1), .move (Address.near rdi 8) rax, .ret]

def enqueueCode (capacity : Nat) (message : SymbolId) (inRange overflow : Label) :
    List Instruction :=
  enter enqueue (putEntry capacity inRange overflow ++ abortWith overflow message)

/-- Moves the oldest entry into a slot and makes the slot active; an empty queue changes nothing. -/
def dequeueCode (capacity : Nat) (empty inRange : Label) : List Instruction :=
  enter dequeue
    [.move rax (Address.near rdi 8), .check rax, .jcc .e empty,
      .move rcx (Address.deref rdi), .move rdx rcx, .shift .shl (.reg rdx) (.imm 4),
      .move r8 (Address.indexed rdi rdx 16), .move (Address.near rsi 8) r8,
      .move r8 (Address.indexed rdi rdx 24), .move (Address.near rsi 16) r8,
      .move (Address.deref rsi) (.imm 1),
      .arith .add rcx (.imm 1), .arith .cmp rcx (Int64.ofNat capacity), .jccShort .b inRange,
      .zero rcx,
      .label inRange, .move (Address.deref rdi) rcx, .arith .sub rax (.imm 1),
      .move (Address.near rdi 8) rax,
      .label empty, .ret]

end Service

end AgentCompiler
