import AgentCompiler.Lowering.Statement

/-!
The main routine. It sends the seed and then runs cycles, each of three phases.

*Rest*: the program ends when the bound on cycles is reached or all queues are empty.
*Sense*: every agent takes the oldest message of its queue into its slot.
*Act*: every agent with an active slot handles its message; a status other than zero ends the
program with that status.

Agents are visited in declaration order in every phase, so what a program does depends on nothing
but the program.
-/

namespace AgentCompiler

open Register (rax rbx rsp rdi rsi rdx r14)

def wordOf (s : SymbolId) (offset : Int32) : Operand := .mem (.symbol s offset)

namespace Emit

def storeConstant (dst : Address) (type : ValueType) (value : Int64) : Code :=
  [.move rax value, .mov type.width dst rax]

def storeText (dst : Address) (text : String) : Emit Code := do
  let s ← internText text
  pure [.lea rax (.symbol s 0), .move dst rax]

def seedField (fields : List (String × Literal)) (slot : Slot) : Emit Code :=
  let dst := Address.near r14 (Int32.ofNat slot.offset)
  match fields.lookup slot.name with
  | some (.str text) => storeText dst text
  | some (.int value) => pure (storeConstant dst slot.type value)
  | some (.bool value) => pure (storeConstant dst slot.type (if value then 1 else 0))
  | none =>
      match slot.type with
      | .str => storeText dst ""
      | _ => pure []

def seedDelivery (plan : Plan) (schema : SchemaLayout) (goal : String) : Emit Code := do
  let storage ← Lower.storageOf plan goal
  pure [.lea rdi (.symbol storage.queue 0), .move rsi (Int64.ofNat schema.id), .move rdx r14,
    .call Service.enqueue.label]

def seed (plan : Plan) : Emit Code := do
  let given := plan.program.seed
  match plan.layout.schema? given.schema with
  | none => throw (.reference "seed message" s!"unknown schema `{given.schema}`")
  | some schema => do
      let fields ← schema.payload.slots.mapM (seedField given.fields)
      let goals := plan.layout.destinations .external schema.name
      let deliveries ← goals.mapM (seedDelivery plan schema)
      pure ([Instruction.move rdi (Int64.ofNat schema.payload.size), .call Service.allocate.label,
        .move r14 rax] ++ fields.flatten ++ deliveries.flatten)

def cycleBound (settings : Settings) (halt : Label) : Outcome Code :=
  let bound := settings.maxCycles.toNat
  if bound = 0 then pure []
  else if bound ≤ maxInt64 then
    pure [.move rax (Int64.ofNat bound), .arith .cmp rbx rax, .jcc .ae halt]
  else throw (.exhausted .codegen "cycle bound" bound maxInt64)

def checkQueue (sense : Label) (storage : Storage) : Code :=
  [.arith .cmp (wordOf storage.queue 8) (.imm 0), .jcc .ne sense]

def takeMessage (storage : Storage) : Code :=
  [.lea rdi (.symbol storage.queue 0), .lea rsi (.symbol storage.slot 0),
    .call Service.dequeue.label]

def dispatchArm (base : Int32) (storage : Storage) (fail next other handler : Label)
    (schema : Nat) : Code :=
  [.arith .cmp rax (Int64.ofNat schema), .jcc .ne other,
    .lea rdi (.symbol Pool.stateArena base), .move rsi (wordOf storage.slot 16), .call handler,
    .check rax, .jcc .ne fail, .jmp next, .label other]

def dispatchArms (plan : Plan) (agent : AgentLayout) (base : Int32) (storage : Storage)
    (fail next : Label) : List SchemaLayout → Emit Code
  | [] => pure []
  | schema :: rest => do
      match plan.handler? agent.name schema.name with
      | none => dispatchArms plan agent base storage fail next rest
      | some handler => do
          let other ← fresh "act.other"
          let tail ← dispatchArms plan agent base storage fail next rest
          pure (dispatchArm base storage fail next other handler schema.id ++ tail)

def act (plan : Plan) (fail : Label) (agent : AgentLayout) (storage : Storage) : Emit Code := do
  let next ← fresh "act.next"
  if maxInt32 < agent.base then
    throw (.exhausted .codegen "agent state arena" agent.base maxInt32)
  let schemas := (plan.layout.agentUnits agent.name).map (·.1)
  let arms ← dispatchArms plan agent (Int32.ofNat agent.base) storage fail next schemas
  pure ([Instruction.arith .cmp (wordOf storage.slot 0) (.imm 0), .jcc .e next,
    .move (wordOf storage.slot 0) (.imm 0), .move rax (wordOf storage.slot 8)] ++ arms ++
    [Instruction.label next])

def mainRoutine (plan : Plan) : Emit (Label × Code) := do
  let start ← entry "_start"
  let rest ← fresh "rest"
  let sense ← fresh "sense"
  let fail ← fresh "fail"
  let halt ← fresh "halt"
  let first ← seed plan
  let queued := plan.queuedAgents
  let bound ← cycleBound plan.settings halt
  let actions ← queued.mapM fun (agent, storage) => act plan fail agent storage
  pure (start,
    [Instruction.align 16, .label start, .arith .and rsp (.imm (-16)), .zero rbx] ++ first ++
    [Instruction.label rest] ++ bound ++
    queued.flatMap (fun (_, storage) => checkQueue sense storage) ++
    [Instruction.jmp halt, .label sense] ++
    queued.flatMap (fun (_, storage) => takeMessage storage) ++ actions.flatten ++
    [Instruction.arith .add rbx (.imm 1), .jmp rest,
      .label fail, .move rdi rax, .call Service.exit.label,
      .label halt, .zero rdi, .call Service.exit.label])

end Emit

end AgentCompiler
