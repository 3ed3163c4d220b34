import AgentCompiler.Lowering.Frame

/-!
Call sequences. Live scratch registers that the callee may destroy are pushed before the call and
popped behind it. When their number is odd, eight bytes more are taken, so that the stack pointer
stays a multiple of sixteen.
-/

namespace AgentCompiler

inductive Argument
  | reg (r : Register)
  | imm (value : Int64)
  | address (s : SymbolId) (addend : Int32)
  deriving DecidableEq

namespace Argument

def pass (dst : Register) : Argument → Code
  | reg src => if src = dst then [] else [.move dst src]
  | imm value => [.move dst value]
  | address s addend => [.lea dst (.symbol s addend)]

end Argument

def passArguments (args : List Argument) : Code :=
  (args.zip Register.arguments).flatMap fun (arg, dst) => arg.pass dst

def callSequence (live : List Register) (target : Label) (args : List Argument) : Code :=
  let saved := live.filter Register.isCallerSaved
  let isOdd := saved.length % 2 == 1
  let adjust (op : AluOp) : Code := if isOdd then [.arith op Register.rsp (.imm 8)] else []
  saved.map Instruction.push ++ adjust .sub ++ passArguments args ++ [Instruction.call target] ++
    adjust .add ++ saved.reverse.map Instruction.pop

namespace Lower

def call (r : Routine) (target : Label) (args : List Argument) : Lower Code := do
  let limit := Register.arguments.length
  if limit < args.length then
    throw (.exhausted .codegen s!"call arguments in {r.name}" args.length limit)
  let frame ← get
  pure (callSequence frame.live target args)

def callValue (r : Routine) (target : Label) (args : List Argument) (kind : ValueKind) :
    Lower (Value × Code) := do
  let sequence ← call r target args
  let reg ← alloc r
  pure (⟨reg, kind⟩, sequence ++ [Instruction.move reg Register.result])

end Lower

end AgentCompiler
