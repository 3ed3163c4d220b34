import AgentCompiler.Lowering.Expression

/-!
Code of statements. Between statements no scratch register is in use, except for the payload of a
message whose fields are being computed.
-/

namespace AgentCompiler

namespace Lower

def outputDescriptor : Int64 := 1

/-- File descriptor of reports and of the last words of a stopped program. -/
def reportDescriptor : Int64 := 2

def print (r : Routine) (descriptor : Int64) (v : Value) : Lower Code :=
  let service : Service :=
    match v.kind with
    | .str => .putText
    | .int => .printInt
    | .bool => .printBool
  call r service.label [.imm descriptor, .reg v.reg]

def condition (plan : Plan) (r : Routine) (cond : Expr) (otherwise : Label) (what : String) :
    Lower Code := do
  let (v, code) ← expression plan r cond
  expect r .bool what v
  release [v.reg]
  pure (code ++ [Instruction.check v.reg, .jcc .e otherwise])

def assignment (r : Routine) (target : Target) (v : Value) : Lower Code :=
  match target with
  | .state field => do
      let slot ← stateSlot r field
      expect r slot.type.kind s!"assignment to `{field}`" v
      pure [storeValue slot.type (.near .stateBase (Int32.ofNat slot.offset)) v.reg]
  | .var name => do
      let goal ← variableSlot r name
      expect r goal.kind s!"assignment to `{name}`" v
      pure [.move (Variable.address goal.slot) v.reg]

def messageSchema (plan : Plan) (entity schema : String) (fields : List (String × Expr)) :
    Outcome SchemaLayout :=
  match plan.layout.schema? schema with
  | none => throw (.reference entity "unknown schema")
  | some s => do
      match fields.find? (fun (name, _) => (s.payload.slot? name).isNone) with
      | some (name, _) => throw (.reference entity s!"`{name}` is not a field of `{s.name}`")
      | none => pure ()
      match s.payload.slots.find? (fun slot => (fields.lookup slot.name).isNone) with
      | some slot => throw (.reference entity s!"field `{slot.name}` is not set")
      | none => pure ()
      pure s

def messageFields (plan : Plan) (r : Routine) (schema : SchemaLayout) (payload : Register)
    (fields : List (String × Expr)) : List Slot → Lower Code
  | [] => pure []
  | slot :: rest => do
      match fields.lookup slot.name with
      | none => messageFields plan r schema payload fields rest
      | some e => do
          let (v, code) ← expression plan r e
          expect r slot.type.kind s!"field `{slot.name}` of `{schema.name}`" v
          release [v.reg]
          let store := storeValue slot.type (.near payload (Int32.ofNat slot.offset)) v.reg
          let tail ← messageFields plan r schema payload fields rest
          pure (code ++ [store] ++ tail)

def storageOf (plan : Plan) (agent : String) : Outcome Storage :=
  match plan.storage? agent with
  | some storage => pure storage
  | none => throw (.reference s!"agent `{agent}`" "destination has no queue")

def deliver (plan : Plan) (r : Routine) (schema : SchemaLayout) (payload : Register) :
    List String → Lower Code
  | [] => pure []
  | goal :: rest => do
      let storage ← storageOf plan goal
      let code ← call r Service.enqueue.label
        [.address storage.queue 0, .imm (Int64.ofNat schema.id), .reg payload]
      let tail ← deliver plan r schema payload rest
      pure (code ++ tail)

def message (plan : Plan) (r : Routine) (schema : String) (fields : List (String × Expr)) :
    Lower Code := do
  let s ← messageSchema plan s!"emit `{schema}` in {r.name}" schema fields
  match plan.layout.destinations (.agent r.agent.name) s.name with
  | [] => pure []
  | destinations => do
      let (payload, first) ← callValue r Service.allocate.label
        [.imm (Int64.ofNat s.payload.size)] .str
      let second ← messageFields plan r s payload.reg fields s.payload.slots
      let last ← deliver plan r s payload.reg destinations
      release [payload.reg]
      pure (first ++ second ++ last)

def returnKind : Returns → Option ValueKind
  | .status => some .int
  | .value type => type.map (·.kind)

def returnCode (plan : Plan) (r : Routine) (value : Option Expr) : Lower Code := do
  let entity := s!"return in {r.name}"
  let code : Code ←
    match value, returnKind r.returns with
    | some e, some want => do
        let (v, code) ← expression plan r e
        expect r want "return value" v
        release [v.reg]
        pure (code ++ [Instruction.move Register.result v.reg])
    | none, some _ =>
        if r.returns = .status then pure [.zero .rax]
        else throw (.typing entity "missing return value")
    | some _, none => throw (.typing entity "helper declares no return type")
    | none, none => pure [.zero .rax]
  pure (code ++ [Instruction.jmp r.epilogue])

mutual

def statement (plan : Plan) (r : Routine) : Stmt → Lower Code
  | .declare name value => do
      let (v, code) ← expression plan r value
      let added ← declare r name v.kind
      release [v.reg]
      pure (code ++ [Instruction.move (Variable.address added.slot) v.reg])
  | .assign target value => do
      let (v, code) ← expression plan r value
      let store ← assignment r target v
      release [v.reg]
      pure (code ++ store)
  | .emit schema fields => message plan r schema fields
  | .branch cond onTrue onFalse => do
      let other ← Emit.fresh "if.else"
      let join ← Emit.fresh "if.join"
      let test ← condition plan r cond other "if condition"
      let first ← inScope (statements plan r onTrue)
      let second ← inScope (statements plan r onFalse)
      pure (test ++ first ++ [Instruction.jmp join, .label other] ++ second ++
        [Instruction.label join])
  | .loop cond body => do
      let head ← Emit.fresh "while.head"
      let leave ← Emit.fresh "while.exit"
      let test ← condition plan r cond leave "while condition"
      let inner ← inScope (statements plan r body)
      pure ([Instruction.label head] ++ test ++ inner ++ [Instruction.jmp head, .label leave])
  | .block body => inScope (statements plan r body)
  | .write value => do
      let (v, code) ← expression plan r value
      release [v.reg]
      let last ← print r outputDescriptor v
      pure (code ++ last)
  | .report value =>
      if plan.settings.debugReports then do
        let newline ← Emit.internText "\n"
        let (v, code) ← expression plan r value
        release [v.reg]
        let shown ← print r reportDescriptor v
        let last ← call r Service.putText.label [.imm reportDescriptor, .address newline 0]
        pure (code ++ shown ++ last)
      else pure []
  | .ret value => returnCode plan r value

def statements (plan : Plan) (r : Routine) : List Stmt → Lower Code
  | [] => pure []
  | s :: rest => do
      let code ← statement plan r s
      let tail ← statements plan r rest
      pure (code ++ tail)

end

def block (plan : Plan) (r : Routine) (body : List Stmt) : Lower Code :=
  inScope (statements plan r body)

end Lower

end AgentCompiler
