/-!
Why a compilation fails. Every failure has a cause and a message, and unless it is a crash a code
and the stage that the code's first digit names.
-/

namespace AgentCompiler

inductive LimitStage
  | layout | codegen
  deriving DecidableEq

inductive Diagnostic
  | reference (entity message : String)
  | typing (entity message : String)
  | range (item : String) (value : Int) (bits : Nat)
  | unencodable (item message : String)
  | unresolved (symbol : String)
  | exhausted (stage : LimitStage) (resource : String) (requested limit : Nat)
  | document
  | system
  /-- Not a diagnosis: a list is read outside its length, and the compiler stops. -/
  | crash (index length : Nat)
  deriving DecidableEq

namespace Diagnostic

def code : Diagnostic → String
  | reference _ _ => "E101"
  | exhausted .layout _ _ _ => "E102"
  | typing _ _ => "E201"
  | exhausted .codegen _ _ _ => "E202"
  | range _ _ _ => "E301"
  | unencodable _ _ => "E302"
  | unresolved _ => "E401"
  | document => "E501"
  | system => "E502"
  | crash _ _ => ""

def stage : Diagnostic → String
  | reference _ _ | exhausted .layout _ _ _ => "layout"
  | typing _ _ | exhausted .codegen _ _ _ => "codegen"
  | range _ _ _ | unencodable _ _ => "encoding"
  | unresolved _ => "link"
  | document | system => "input"
  | crash _ _ => ""

def message : Diagnostic → String
  | reference entity message => s!"reference error in {entity}: {message}"
  | typing entity message => s!"type error in {entity}: {message}"
  | range item value bits =>
      s!"`{item}`: value {value} does not fit in a signed {bits}-bit field"
  | unencodable item message => s!"`{item}` cannot be encoded: {message}"
  | unresolved symbol => s!"unresolved reference to `{symbol}`"
  | exhausted _ resource requested limit =>
      s!"{resource}: {requested} exceeds the limit of {limit}"
  | document => "invalid program model"
  | system => "I/O error"
  | crash index length => s!"index out of bounds: the len is {length} but the index is {index}"

end Diagnostic

abbrev Outcome := Except Diagnostic

end AgentCompiler
