import AgentCompiler.Lowering.Call

/-!
Code of expressions. The value of an expression goes into the next scratch register, which stays in
use; operands are evaluated from left to right, and an operator leaves its result in the register
of its left operand.
-/

namespace AgentCompiler

namespace Lower

open Register (rax rcx rdx)

def defaultReadSize : Int64 := 4096

def expect (r : Routine) (want : ValueKind) (what : String) (v : Value) : Lower Unit :=
  liftM (expectKind r want what v)

def integer (r : Routine) (value : Int64) : Lower (Value × Code) := do
  let reg ← alloc r
  if fitsInt32 value.toInt then pure (⟨reg, .int⟩, [.move reg value])
  else do
    let s ← Emit.internWord value
    pure (⟨reg, .int⟩, [.move reg (Address.symbol s 0)])

def stateSlot (r : Routine) (field : String) : Outcome Slot :=
  match r.agent.state.slot? field with
  | some slot => pure slot
  | none =>
      throw (.reference s!"state field `{field}` in {r.name}"
        s!"`{r.agent.name}` has no such field")

def messageSlot (r : Routine) (field : String) : Outcome Slot :=
  let entity := s!"message field `{field}` in {r.name}"
  match r.message with
  | none => throw (.reference entity "helpers have no inbound message")
  | some schema =>
      match schema.payload.slot? field with
      | some slot => pure slot
      | none => throw (.reference entity s!"not a field of `{schema.name}`")

def variableSlot (r : Routine) (name : String) : Lower Variable := do
  match (← get).lookup? name with
  | some v => pure v
  | none => throw (.reference s!"local `{name}` in {r.name}" "not declared")

def readField (r : Routine) (base : Register) (slot : Slot) : Lower (Value × Code) := do
  let reg ← alloc r
  pure (⟨reg, slot.type.kind⟩,
    [loadValue slot.type reg (.near base (Int32.ofNat slot.offset))])

def applyUnary (r : Routine) (op : UnaryOperator) (v : Value) : Lower Code := do
  let what := s!"operand of `{op.name}`"
  match op with
  | .neg => do
      expect r .int what v
      pure [.unary .neg (.reg v.reg)]
  | .bitNot => do
      expect r .int what v
      pure [.unary .not (.reg v.reg)]
  | .not => do
      expect r .bool what v
      pure [.arith .xor v.reg (.imm 1)]

def comparison? : BinaryOperator → Option Condition
  | .eq => some .e
  | .ne => some .ne
  | .lt => some .l
  | .le => some .le
  | .gt => some .g
  | .ge => some .ge
  | _ => none

def compareCode (cond : Condition) (a b : Register) : Code :=
  [.arith .cmp a b, .setcc cond a, .movZeroByte a (.reg a)]

/-- Division of `a` by `b`. A divisor of zero stops the program. A divisor of minus one is treated
apart, since the machine's division faults when the quotient of the least integer overflows. -/
def divisionCode (isQuotient : Bool) (a b : Register) (stop : Code)
    (nonzero general done : Label) : Code :=
  [Instruction.check b, .jcc .ne nonzero] ++ stop ++
    [Instruction.label nonzero, .arith .cmp b (.imm (-1)), .jcc .ne general,
      if isQuotient then .unary .neg (.reg a) else .zero a, .jmp done,
      .label general, .move rax a, .cqo, .unary .idiv (.reg b),
      .move a (if isQuotient then rax else rdx), .label done]

def division (r : Routine) (isQuotient : Bool) (a b : Register) : Lower Code := do
  let message ← Emit.internText "tidal: division by zero"
  let nonzero ← Emit.fresh "div.nonzero"
  let general ← Emit.fresh "div.general"
  let done ← Emit.fresh "div.done"
  let stop ← call r Service.abort.label [.address message 0]
  pure (divisionCode isQuotient a b stop nonzero general done)

def arithmetic (r : Routine) (what : String) (op : BinaryOperator) (a b : Register) :
    Lower Code :=
  match op with
  | .add => pure [.arith .add a b]
  | .sub => pure [.arith .sub a b]
  | .mul => pure [.imul a (.reg b)]
  | .and | .land => pure [.arith .and a b]
  | .or | .lor => pure [.arith .or a b]
  | .xor => pure [.arith .xor a b]
  | .shl => pure [.move rcx b, .shift .shl (.reg a) .cl]
  | .shr => pure [.move rcx b, .shift .sar (.reg a) .cl]
  | .div => division r true a b
  | .mod => division r false a b
  | _ => throw (.typing s!"{what} in {r.name}" "operator has no integer lowering")

def operandKind (op : BinaryOperator) (given : ValueKind) : ValueKind :=
  match op with
  | .land | .lor => .bool
  | .and | .or | .xor => given
  | _ => .int

def applyToTexts (r : Routine) (what : String) (op : BinaryOperator) (a b : Register) :
    Lower (Value × Code) :=
  match op with
  | .add => callValue r Service.concat.label [.reg a, .reg b] .str
  | .eq => callValue r Service.textEqual.label [.reg a, .reg b] .bool
  | .ne => do
      let (v, code) ← callValue r Service.textEqual.label [.reg a, .reg b] .bool
      pure (v, code ++ [Instruction.arith .xor v.reg (.imm 1)])
  | _ => throw (.typing s!"{what} in {r.name}" "not defined for str")

def applyComparison (r : Routine) (what : String) (op : BinaryOperator) (cond : Condition)
    (a b : Value) : Lower (Value × Code) := do
  if a.kind = .bool ∧ op ≠ .eq ∧ op ≠ .ne then
    throw (.typing s!"{what} in {r.name}" "ordering is not defined for bool")
  release [b.reg]
  pure (⟨a.reg, .bool⟩, compareCode cond a.reg b.reg)

def applyBinary (r : Routine) (op : BinaryOperator) (a b : Value) : Lower (Value × Code) := do
  let what := s!"operands of `{op.name}`"
  if a.kind ≠ b.kind then
    throw (.typing s!"{what} in {r.name}" s!"{a.kind.name} and {b.kind.name} do not match")
  if a.kind = .str then do
    release [b.reg, a.reg]
    applyToTexts r what op a.reg b.reg
  else
    match comparison? op with
    | some cond => applyComparison r what op cond a b
    | none => do
        expect r (operandKind op a.kind) what a
        let code ← arithmetic r what op a.reg b.reg
        release [b.reg]
        pure (a, code)

def builtinSignature : Builtin → List ValueKind × ValueKind × Service
  | .len => ([.str], .int, .textLength)
  | .concat => ([.str, .str], .str, .concat)
  | .format => ([.int], .str, .formatInt)
  | .repeat => ([.str, .int], .str, .repeatText)
  | .readInput => ([.int], .str, .readText)

def helperNamed (r : Routine) (name : String) : Outcome Helper :=
  match r.template.helpers.find? (·.name == name) with
  | some helper => pure helper
  | none =>
      throw (.reference s!"call to `{name}` in {r.name}"
        s!"template `{r.template.name}` has no such helper")

def checkArity (entity : String) (expected found : Nat) : Outcome Unit :=
  if found = expected then pure ()
  else throw (.typing entity s!"expected {expected} argument(s), found {found}")

def helperLabel (plan : Plan) (r : Routine) (name : String) : Outcome Label :=
  match plan.helper? r.agent.name name with
  | some l => pure l
  | none => throw (.reference s!"helper `{name}`" "no routine label")

mutual

def expression (plan : Plan) (r : Routine) : Expr → Lower (Value × Code)
  | .int value => integer r value
  | .bool value => do
      let reg ← alloc r
      pure (⟨reg, .bool⟩, [.move reg (.imm (if value then 1 else 0))])
  | .str value => do
      let s ← Emit.internText value
      let reg ← alloc r
      pure (⟨reg, .str⟩, [.lea reg (.symbol s 0)])
  | .state field => do
      let slot ← stateSlot r field
      readField r .stateBase slot
  | .field field => do
      let slot ← messageSlot r field
      readField r .message slot
  | .var name => do
      let v ← variableSlot r name
      let reg ← alloc r
      pure (⟨reg, v.kind⟩, [.move reg (Variable.address v.slot)])
  | .unary op operand => do
      let (v, code) ← expression plan r operand
      let last ← applyUnary r op v
      pure (v, code ++ last)
  | .binary op lhs rhs => do
      let (a, first) ← expression plan r lhs
      let (b, second) ← expression plan r rhs
      let (v, last) ← applyBinary r op a b
      pure (v, first ++ second ++ last)
  | .builtin .readInput [] =>
      callValue r Service.readText.label [.imm defaultReadSize] .str
  | .builtin name args => do
      let (params, result, service) := builtinSignature name
      checkArity s!"`{name.name}` in {r.name}" params.length args.length
      let (regs, code) ← operands plan r name.name 1 args params
      release regs.reverse
      let (v, last) ← callValue r service.label (regs.map .reg) result
      pure (v, code ++ last)
  | .call name args => do
      let helper ← helperNamed r name
      let params := helper.params.map (·.type.kind)
      checkArity s!"call to `{name}` in {r.name}" params.length args.length
      let target ← helperLabel plan r name
      let result := (helper.returns.map (·.kind)).getD .int
      let (regs, code) ← operands plan r name 1 args params
      release regs.reverse
      let context := [Argument.reg .stateBase, .reg .message]
      let (v, last) ← callValue r target (context ++ regs.map .reg) result
      pure (v, code ++ last)

def operands (plan : Plan) (r : Routine) (callee : String) (index : Nat) :
    List Expr → List ValueKind → Lower (List Register × Code)
  | e :: rest, want :: wants => do
      let (v, code) ← expression plan r e
      expect r want s!"argument {index} of `{callee}`" v
      let (regs, tail) ← operands plan r callee (index + 1) rest wants
      pure (v.reg :: regs, code ++ tail)
  | _, _ => pure ([], [])

end

end Lower

end AgentCompiler
