import AgentCompiler.Diagnostic
import AgentCompiler.Machine.Instruction

/-!
Names of labels. A label is numbered by its place in the table. Entry points have names of their
own, which are unique among themselves; local labels are named after their number and a hint.
-/

namespace AgentCompiler

structure LabelEntry where
  name : String
  isEntry : Bool
  deriving DecidableEq

structure LabelTable where
  entries : List LabelEntry := []
  deriving DecidableEq

namespace LabelTable

def size (t : LabelTable) : Nat := t.entries.length

def lookup? (t : LabelTable) (name : String) : Option Label :=
  (t.entries.findIdx? fun e => e.isEntry && e.name == name).map Label.mk

def name (t : LabelTable) (l : Label) : String :=
  match t.entries[l.id]? with
  | some e => e.name
  | none => "<unknown>"

def fresh (t : LabelTable) (hint : String) : Label × LabelTable :=
  (⟨t.size⟩, ⟨t.entries ++ [⟨s!".L{t.size}.{hint}", false⟩]⟩)

def entry (t : LabelTable) (name : String) : Outcome (Label × LabelTable) :=
  match t.lookup? name with
  | some _ => throw (.reference s!"label `{name}`" "label name is not unique")
  | none => pure (⟨t.size⟩, ⟨t.entries ++ [⟨name, true⟩]⟩)

@[simp] theorem size_fresh (t : LabelTable) (hint : String) :
    (t.fresh hint).2.size = t.size + 1 := by simp [fresh, size]

end LabelTable

end AgentCompiler
