import AgentCompiler.Diagnostic
import AgentCompiler.Machine.Instruction

/-!
Instructions as text. A listing has one line for each instruction: label bindings at the margin,
everything else indented. Names of labels and symbols come from the caller, and a symbol without a
name cannot be shown.
-/

namespace AgentCompiler

structure Names where
  label : Label → String
  symbol : SymbolId → Outcome String

namespace Register

def render (width : Width) (r : Register) : String :=
  match width with
  | .byte => r.name8
  | .dword => r.name32
  | .qword => r.name

end Register

namespace Address

def renderBase (names : Names) : Base → Outcome String
  | .reg r => pure r.name
  | .symbol s => return "rip + " ++ (← names.symbol s)

def renderIndex : Option (Register × Scale) → String
  | none => ""
  | some (r, scale) => s!" + {r.name}*{scale.factor}"

/-- A displacement is written with its sign as an operator, and left out when zero. -/
def renderDisp (disp : Int) : String :=
  if 0 < disp then s!" + {disp}"
  else if disp < 0 then s!" - {disp.natAbs}"
  else ""

def render (names : Names) (m : Address) : Outcome String := do
  let base ← renderBase names m.base
  return "[" ++ base ++ renderIndex m.index ++ renderDisp m.disp.toInt ++ "]"

def renderSized (names : Names) (width : Width) (m : Address) : Outcome String := do
  return width.keyword ++ " " ++ (← m.render names)

end Address

def Place.render (names : Names) (width : Width) : Place → Outcome String
  | .reg r => pure (r.render width)
  | .mem m => m.renderSized names width

def Operand.render (names : Names) (width : Width) : Operand → Outcome String
  | .reg r => pure (r.render width)
  | .imm value => pure (toString value.toInt)
  | .mem m => m.renderSized names width

def ShiftCount.render : ShiftCount → String
  | .cl => "cl"
  | .imm count => toString count.toNat

namespace Instruction

def render (names : Names) : Instruction → Outcome String
  | label l => pure (names.label l ++ ":")
  | align boundary => pure s!".align {boundary}"
  | mov width dst src => return "mov " ++ (← dst.render names width) ++ ", " ++
      (← src.render names width)
  | movAddress dst symbol addend => do
      let tail := if addend.toInt = 0 then "" else s!" + {addend.toInt}"
      return "movabs " ++ dst.name ++ ", " ++ (← names.symbol symbol) ++ tail
  | movZeroByte dst src => return "movzx " ++ dst.name ++ ", " ++ (← src.render names .byte)
  | movSignDword dst src => return "movsxd " ++ dst.name ++ ", " ++ (← src.render names .dword)
  | lea dst src => return "lea " ++ dst.name ++ ", " ++ (← src.render names)
  | alu op width dst src =>
      return op.mnemonic ++ " " ++ (← dst.render names width) ++ ", " ++ (← src.render names width)
  | test dst src => return "test " ++ (← dst.render names .qword) ++ ", " ++ src.name
  | imul dst src => return "imul " ++ dst.name ++ ", " ++ (← src.render names .qword)
  | unary op dst => return op.mnemonic ++ " " ++ (← dst.render names .qword)
  | shift op dst count =>
      return op.mnemonic ++ " " ++ (← dst.render names .qword) ++ ", " ++ count.render
  | cqo => pure "cqo"
  | setcc cond dst => pure ("set" ++ cond.suffix ++ " " ++ dst.name8)
  | push r => pure ("push " ++ r.name)
  | pop r => pure ("pop " ++ r.name)
  | call target => pure ("call " ++ names.label target)
  | jmp target => pure ("jmp " ++ names.label target)
  | jmpShort target => pure ("jmp short " ++ names.label target)
  | jcc cond target => pure ("j" ++ cond.suffix ++ " " ++ names.label target)
  | jccShort cond target => pure ("j" ++ cond.suffix ++ " short " ++ names.label target)
  | ret => pure "ret"
  | syscall => pure "syscall"
  | repMovsb => pure "rep movsb"
  | repStosb => pure "rep stosb"
  | ud2 => pure "ud2"

def line (names : Names) : Instruction → Outcome String
  | label l => (label l).render names
  | other => return "    " ++ (← other.render names)

end Instruction

def listingLines (names : Names) (code : List Instruction) : Outcome (List String) :=
  code.mapM (·.line names)

def listing (names : Names) (code : List Instruction) : Outcome String := do
  return String.join ((← listingLines names code).map (· ++ "\n"))

end AgentCompiler
