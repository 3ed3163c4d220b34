import AgentCompiler.Lowering.Plan

/-!
The frame of a routine under construction.

Expressions are evaluated in a stack of scratch registers, of which `depth` are in use. Local
variables live in slots of eight bytes below the frame pointer; a slot is never used again, so that
leaving a scope forgets names and nothing else.
-/

namespace AgentCompiler

structure Value where
  reg : Register
  kind : ValueKind
  deriving DecidableEq

structure Variable where
  slot : Nat
  kind : ValueKind
  deriving DecidableEq

inductive Returns
  /-- The status of a handler; zero goes on. -/
  | status
  | value (type : Option ValueType)
  deriving DecidableEq

structure Routine where
  name : String
  agent : AgentLayout
  template : Template
  /-- Schema of the message being handled; helpers have none. -/
  message : Option SchemaLayout
  returns : Returns
  epilogue : Label

structure Frame where
  depth : Nat := 0
  maxDepth : Nat := 0
  /-- Open scopes, the innermost first, each with its newest name first. -/
  scopes : List (List (String × Variable)) := [[]]
  slots : Nat := 0
  /-- Whether each register that was given back was the newest in use. -/
  isOrderly : Bool := true

namespace Frame

def live (f : Frame) : List Register := Register.scratch.take f.depth

def clobbered (f : Frame) : List Register :=
  (Register.scratch.take f.maxDepth).filter Register.isCalleeSaved

def lookup? (f : Frame) (name : String) : Option Variable := f.scopes.flatten.lookup name

def openScope (f : Frame) : Frame := { f with scopes := [] :: f.scopes }

def closeScope (f : Frame) : Frame := { f with scopes := f.scopes.tail }

def alloc (routine : String) (f : Frame) : Outcome (Register × Frame) :=
  match Register.scratch[f.depth]? with
  | some reg =>
      let depth := f.depth + 1
      pure (reg, { f with depth, maxDepth := max f.maxDepth depth })
  | none =>
      throw (.exhausted .codegen s!"scratch registers in {routine} (expression too deep)"
        (f.depth + 1) Register.scratch.length)

def free (f : Frame) (reg : Register) : Frame :=
  { f with
    depth := f.depth - 1
    isOrderly := f.isOrderly && decide (0 < f.depth ∧ Register.scratch[f.depth - 1]? = some reg) }

/-- Gives back scratch registers, the newest one first. -/
def release (regs : List Register) (f : Frame) : Frame := regs.foldl free f

def declare (routine name : String) (kind : ValueKind) (f : Frame) : Outcome (Variable × Frame) :=
  match f.scopes with
  | [] => throw (.reference name "no open scope")
  | scope :: outer =>
      if scope.any (·.1 == name) then
        throw (.reference s!"local `{name}` in {routine}" "declared twice in one scope")
      else
        let added : Variable := ⟨f.slots, kind⟩
        pure (added, { f with
          scopes := ((name, added) :: scope) :: outer
          slots := f.slots + 1 })

end Frame

abbrev Lower := StateT Frame Emit

namespace Lower

def alloc (r : Routine) : Lower Register := fun f => liftM (f.alloc r.name)

def release (regs : List Register) : Lower Unit := modify (Frame.release regs)

def declare (r : Routine) (name : String) (kind : ValueKind) : Lower Variable :=
  fun f => liftM (f.declare r.name name kind)

def inScope {α : Type} (body : Lower α) : Lower α := do
  modify Frame.openScope
  let result ← body
  modify Frame.closeScope
  pure result

end Lower

namespace Variable

def address (slot : Nat) : Address := .near .rbp (Int32.ofInt (-8 * (slot + 1)))

end Variable

def ValueType.width : ValueType → Width
  | .bool => .byte
  | .i32 => .dword
  | .i64 | .str => .qword

def loadValue (type : ValueType) (dst : Register) (src : Address) : Instruction :=
  match type with
  | .bool => .movZeroByte dst (.mem src)
  | .i32 => .movSignDword dst (.mem src)
  | .i64 | .str => .move dst src

def storeValue (type : ValueType) (dst : Address) (src : Register) : Instruction :=
  .mov type.width dst src

def expectKind (r : Routine) (want : ValueKind) (what : String) (v : Value) : Outcome Unit :=
  if v.kind = want then pure ()
  else throw (.typing s!"{what} in {r.name}" s!"expected {want.name}, found {v.kind.name}")

end AgentCompiler
