import AgentCompiler.Diagnostic
import AgentCompiler.Machine.Instruction

/-!
Symbols name offsets inside sections. A symbol is declared once and bound at most once; its
address is known only when the image is laid out, so every reference to it is a relocation.
-/

namespace AgentCompiler

inductive SectionKind
  | text | rodata | data | bss
  deriving DecidableEq

namespace SectionKind

def all : List SectionKind := [text, rodata, data, bss]

def name : SectionKind → String
  | text => ".text"
  | rodata => ".rodata"
  | data => ".data"
  | bss => ".bss"

end SectionKind

structure Symbol where
  name : String
  kind : SectionKind
  offset : Nat
  isBound : Bool
  deriving DecidableEq

/-- The symbols in the order of their numbers, and an index that finds each of them by its name. -/
structure SymbolTable where
  symbols : List Symbol := []
  byName : List (String × SymbolId) := []
  finds (name : String) (id : SymbolId) :
    byName.lookup name = some id ↔ ∃ s, symbols[id.index]? = some s ∧ s.name = name := by simp

namespace SymbolTable

def size (t : SymbolTable) : Nat := t.symbols.length

def get? (t : SymbolTable) (id : SymbolId) : Option Symbol := t.symbols[id.index]?

/-- The symbol of a number. A number outside the table is a crash. -/
def read (t : SymbolTable) (id : SymbolId) : Outcome Symbol :=
  match t.get? id with
  | some s => pure s
  | none => throw (.crash id.index t.size)

def name (t : SymbolTable) (id : SymbolId) : Outcome String := do
  return (← t.read id).name

def lookup? (t : SymbolTable) (name : String) : Option SymbolId := t.byName.lookup name

/-- Adds a symbol under a new name, to the list and to the index. -/
def push (t : SymbolTable) (name : String) (kind : SectionKind) (new : t.lookup? name = none) :
    SymbolTable where
  symbols := t.symbols ++ [⟨name, kind, 0, false⟩]
  byName := (name, ⟨t.size⟩) :: t.byName
  finds other id := by
    have grown : (t.symbols ++ [⟨name, kind, 0, false⟩])[id.index]? =
        if id = ⟨t.size⟩ then some ⟨name, kind, 0, false⟩ else t.symbols[id.index]? := by
      cases id
      grind [size]
    have behind : t.symbols[t.size]? = none := List.getElem?_eq_none (Nat.le_refl _)
    have old := t.finds other id
    rw [grown, List.lookup_cons]
    by_cases same : other = name
    · subst same
      rw [show t.byName.lookup other = none from new] at old
      grind
    · grind

/-- Gives a symbol its offset; its name stays. -/
def place (t : SymbolTable) (id : SymbolId) (offset : Nat) : SymbolTable where
  symbols := t.symbols.modify id.index fun s => { s with offset := offset, isBound := true }
  byName := t.byName
  finds name other := by
    rw [t.finds, List.getElem?_modify]
    cases t.symbols[other.index]? with
    | none => simp
    | some s => by_cases same : id.index = other.index <;> simp [same]

def declare (t : SymbolTable) (name : String) (kind : SectionKind) : SymbolId × SymbolTable :=
  match found : t.lookup? name with
  | some id => (id, t)
  | none => (⟨t.size⟩, t.push name kind found)

/-- Gives a symbol its offset, and leaves the table also if that fails. A second offset is refused.
-/
def tryBind (t : SymbolTable) (id : SymbolId) (offset : Nat) : Outcome Unit × SymbolTable :=
  match t.read id with
  | .error d => (throw d, t)
  | .ok s =>
      if s.isBound then (throw (.reference s!"symbol `{s.name}`" "symbol defined twice"), t)
      else (pure (), t.place id offset)

/-- Declares a name and gives it its offset; the name stays declared if the offset is refused. -/
def tryDefine (t : SymbolTable) (name : String) (kind : SectionKind) (offset : Nat) :
    Outcome SymbolId × SymbolTable :=
  let (id, declared) := t.declare name kind
  let (result, u) := declared.tryBind id offset
  (result.map fun _ => id, u)

def bind (t : SymbolTable) (id : SymbolId) (offset : Nat) : Outcome SymbolTable :=
  let (result, u) := t.tryBind id offset
  result.map fun _ => u

def define (t : SymbolTable) (name : String) (kind : SectionKind) (offset : Nat) :
    Outcome (SymbolId × SymbolTable) :=
  let (result, u) := t.tryDefine name kind offset
  result.map (·, u)

end SymbolTable

/-- What a patch stores, for symbol address `S`, addend `A` and patch address `P`. -/
inductive RelocationKind
  /-- The distance `S + A - P` in four bytes. -/
  | relative
  /-- The address `S + A` in eight bytes. -/
  | absolute
  deriving DecidableEq

def RelocationKind.width : RelocationKind → Nat
  | relative => 4
  | absolute => 8

/-- A patch to be made once addresses are known. -/
structure Relocation where
  /-- The section that holds the bytes to patch. -/
  site : SectionKind
  offset : Nat
  symbol : SymbolId
  kind : RelocationKind
  addend : Int
  deriving DecidableEq

end AgentCompiler
