import AgentCompiler.Service.Text

/-! Services that call the system: reading, writing and ending the program. -/

namespace AgentCompiler

namespace Service

open Register (rax rdx rsp rsi rdi r12 r13)

def sysRead : Int64 := 0

def sysWrite : Int64 := 1

def sysExit : Int64 := 60

def standardInput : Int64 := 0

def standardError : Int64 := 2

def abortStatus : Int64 := 70

def exitCode : List Instruction := enter exit [.move rax sysExit, .syscall, .ud2]

def abortCode (newline : SymbolId) : List Instruction :=
  enter abort
    [.arith .sub rsp (.imm 8), .move rsi rdi, .move rdi standardError, .call putText.label,
      .move rdi standardError, .lea rsi (.symbol newline 0), .call putText.label,
      .move rdi abortStatus, .call exit.label]

def writeBytesCode (again done : Label) : List Instruction :=
  enter writeBytes
    [.label again, .check rdx, .jccShort .e done, .move rax sysWrite, .syscall, .check rax,
      .jccShort .le done, .arith .add rsi rax, .arith .sub rdx rax, .jmpShort again,
      .label done, .ret]

def putTextCode (scan found : Label) : List Instruction :=
  enter putText
    [.zero rdx,
      .label scan, checkByte (.indexed rsi rdx 0), .jccShort .e found, .arith .add rdx (.imm 1),
      .jmpShort scan,
      .label found, .jmp writeBytes.label]

def readBytesCode : List Instruction := enter readBytes [.move rax sysRead, .syscall, .ret]

def readTextCode : List Instruction :=
  enter readText <| keeping [r12, r13]
    [.arith .sub rsp (.imm 8), .move r12 rdi,
      .lea rdi (.near r12 1), .call allocate.label, .move r13 rax,
      .move rdi standardInput, .move rsi r13, .move rdx r12, .call readBytes.label,
      .move rax r13, .arith .add rsp (.imm 8)]

def printIntCode : List Instruction :=
  enter printInt
    [.push r12, .move r12 rdi, .move rdi rsi, .call formatInt.label, .move rdi r12,
      .move rsi rax, .pop r12, .jmp putText.label]

def printBoolCode (yes no : SymbolId) (isFalse : Label) : List Instruction :=
  enter printBool
    [.check rsi, .jccShort .e isFalse, .lea rsi (.symbol yes 0), .jmp putText.label,
      .label isFalse, .lea rsi (.symbol no 0), .jmp putText.label]

end Service

end AgentCompiler
