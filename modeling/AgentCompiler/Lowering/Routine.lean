import AgentCompiler.Lowering.Statement

/-!
Whole routines. The body is written first; then its frame is known, and entry and exit are put
around it. A routine keeps the frame pointer, the two fixed registers and the scratch registers it
has used; the slots of its variables lie between the frame pointer and what it keeps. Arguments are
the state record, the message and then the parameters.
-/

namespace AgentCompiler

open Register (rax rbp rsp rdi rsi)

def parameterRegisters : List Register := Register.arguments.drop 2

namespace Frame

/-- Registers that a routine keeps for its caller, in the order of being pushed. -/
def saved (f : Frame) : List Register := [.stateBase, .message] ++ f.clobbered

/-- Bytes for variables, with eight more where the stack would be off a multiple of sixteen. -/
def size (f : Frame) : Nat :=
  8 * f.slots + if (f.slots + f.saved.length) % 2 = 1 then 8 else 0

end Frame

def prologue (entry : Label) (f : Frame) (params : Nat) : Code :=
  let reserve : Code := if f.size = 0 then [] else [.arith .sub rsp (Int64.ofNat f.size)]
  [Instruction.align 16, .label entry, .push rbp, .move rbp rsp] ++ reserve ++
    f.saved.map Instruction.push ++
    [Instruction.move Register.stateBase rdi, .move Register.message rsi] ++
    ((parameterRegisters.take params).zipIdx.map fun (reg, slot) =>
      Instruction.move (Variable.address slot) reg)

/-- From the end of the body to the return; whoever gets to the end of the body returns zero. -/
def epilogue (leave : Label) (f : Frame) : Code :=
  [Instruction.zero rax, .label leave] ++ f.saved.reverse.map Instruction.pop ++
    [Instruction.move rsp rbp, .pop rbp, .ret]

namespace Emit

def routine (r : Routine) (entry : Label) (params : Nat) (body : Lower Code) : Emit Code := do
  let (code, frame) ← body.run {}
  pure (prologue entry frame params ++ code ++ epilogue r.epilogue frame)

def handler (plan : Plan) (agent : AgentLayout) (template : Template) (h : Handler) :
    Emit Code := do
  let entity := s!"handler {agent.name}.{h.schema}"
  match plan.layout.schema? h.schema with
  | none => throw (.reference entity "unknown schema")
  | some schema =>
      match plan.handler? agent.name h.schema with
      | none => throw (.reference entity "no handler unit for this pair")
      | some entry => do
          let leave ← fresh "epilogue"
          let name := (← get).labels.name entry
          let r : Routine := ⟨name, agent, template, some schema, .status, leave⟩
          routine r entry 0 (Lower.block plan r h.body)

def helper (plan : Plan) (agent : AgentLayout) (template : Template) (h : Helper) :
    Emit Code := do
  let entity := s!"helper {agent.name}.{h.name}"
  match plan.helper? agent.name h.name with
  | none => throw (.reference entity "no routine label")
  | some entry => do
      let count := h.params.length
      let limit := parameterRegisters.length
      if limit < count then
        throw (.exhausted .codegen s!"parameters of {entity}" count limit)
      let leave ← fresh "epilogue"
      let name := (← get).labels.name entry
      let r : Routine := ⟨name, agent, template, none, .value h.returns, leave⟩
      routine r entry count do
        h.params.forM fun param => do
          let _ ← Lower.declare r param.name param.type.kind
        Lower.block plan r h.body

def agentRoutines (plan : Plan) (agent : AgentLayout) : Emit Code := do
  match plan.program.template? agent.template with
  | none =>
      throw (.reference s!"agent `{agent.name}`" s!"unknown template `{agent.template}`")
  | some template => do
      let handlers ← template.handlers.mapM (handler plan agent template)
      let helpers ← template.helpers.mapM (helper plan agent template)
      pure (handlers.flatten ++ helpers.flatten)

end Emit

end AgentCompiler
