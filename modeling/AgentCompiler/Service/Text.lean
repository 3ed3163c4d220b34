import AgentCompiler.Service.Memory

/-! Services on strings, which are given by the address of their first byte. -/

namespace AgentCompiler

namespace Service

open Register (rax rcx rdx rsp rsi rdi r8 r12 r13 r14 r15)

def checkByte (m : Address) : Instruction := .alu .cmp .byte m (.imm 0)

def textLengthCode (scan done : Label) : List Instruction :=
  enter textLength
    [.zero rax,
      .label scan, checkByte (.indexed rdi rax 0), .jccShort .e done, .arith .add rax (.imm 1),
      .jmpShort scan,
      .label done, .ret]

def textEqualCode (scan equal differ : Label) : List Instruction :=
  enter textEqual
    [.zero rcx,
      .label scan, .movZeroByte rax (.mem (.indexed rdi rcx 0)),
      .movZeroByte rdx (.mem (.indexed rsi rcx 0)), .arith .cmp rax rdx, .jccShort .ne differ,
      .check rax, .jccShort .e equal, .arith .add rcx (.imm 1), .jmpShort scan,
      .label equal, .move rax (.imm 1), .ret,
      .label differ, .zero rax, .ret]

def concatCode : List Instruction :=
  enter concat <| keeping [r12, r13, r14, r15]
    [.arith .sub rsp (.imm 8), .move r12 rdi, .move r13 rsi,
      .call textLength.label, .move r14 rax,
      .move rdi r13, .call textLength.label, .move r15 rax,
      .lea rdi (.indexed r14 r15 1), .call allocate.label,
      .move rdi rax, .move rsi r12, .move rdx r14, .call copyBytes.label,
      .lea rdi (.indexed rax r14 0), .move rsi r13, .lea rdx (.near r15 1), .call copyBytes.label,
      .arith .sub rax r14, .arith .add rsp (.imm 8)]

/-- Digits are written from the end of a block of 32 bytes. The magnitude is divided as an unsigned
word, which is right for the least integer too. -/
def formatIntCode (positive digit done : Label) : List Instruction :=
  enter formatInt <| keeping [r12, r13]
    [.arith .sub rsp (.imm 8), .move r12 rdi,
      .move rdi (.imm 32), .call allocate.label, .move r13 rax,
      .lea rcx (.near r13 31), .move rax r12, .check rax, .jccShort .ns positive,
      .unary .neg (.reg rax),
      .label positive, .move r8 (.imm 10),
      .label digit, .zero rdx, .unary .div (.reg r8), .arith .add rdx (.imm 48),
      .arith .sub rcx (.imm 1), .mov .byte (Address.deref rcx) rdx, .check rax,
      .jccShort .ne digit,
      .check r12, .jccShort .ns done, .arith .sub rcx (.imm 1),
      .mov .byte (Address.deref rcx) (.imm 45),
      .label done, .move rax rcx, .arith .add rsp (.imm 8)]

/-- A negative count is no repetition at all. A size that overflows becomes the largest word, which
no heap can satisfy. Where to write next is kept on the stack. -/
def repeatTextCode (counted fits sized copy done : Label) : List Instruction :=
  enter repeatText <| keeping [r12, r13, r14, r15]
    [.arith .sub rsp (.imm 8), .move r12 rdi, .move r13 rsi, .check r13, .jccShort .ns counted,
      .zero r13,
      .label counted, .call textLength.label, .move r14 rax, .move rdi r14,
      .imul rdi (.reg r13), .jccShort .no fits, .move rdi (.imm (-1)), .jmpShort sized,
      .label fits, .arith .add rdi (.imm 1),
      .label sized, .call allocate.label, .move r15 rax, .move (Address.deref rsp) rax,
      .label copy, .check r13, .jccShort .e done, .move rdi (Address.deref rsp), .move rsi r12,
      .move rdx r14, .call copyBytes.label, .arith .add rax r14, .move (Address.deref rsp) rax,
      .arith .sub r13 (.imm 1), .jmpShort copy,
      .label done, .move rax r15, .arith .add rsp (.imm 8)]

end Service

end AgentCompiler
