/-!
JSON values. Members of an object are kept in the order in which they are written, repeated names
included.

Some well-formed text denotes no value: a string with half of a surrogate pair, a number beyond
the range of doubles, an object with such a string for a name. It matters only to those who look
at it, and `invalid` stands for it.
-/

namespace AgentCompiler

inductive Json
  | null
  | bool (value : Bool)
  | int (value : Int)
  /-- A number written with a fraction or an exponent, or negative zero: the mantissa times a power
  of ten. -/
  | real (mantissa exponent : Int)
  | text (value : String)
  | array (items : List Json)
  | object (members : List (String × Json))
  | invalid
  deriving Inhabited

namespace Json

mutual

/-- The value has nothing invalid in it and nests at most so many arrays and objects. -/
def isPlainWithin : Nat → Json → Bool
  | 0, array _ | 0, object _ => false
  | levels + 1, array items => areItemsPlain levels items
  | levels + 1, object members => areMembersPlain levels members
  | _, invalid => false
  | _, _ => true

def areItemsPlain (levels : Nat) : List Json → Bool
  | [] => true
  | item :: rest => isPlainWithin levels item && areItemsPlain levels rest

def areMembersPlain (levels : Nat) : List (String × Json) → Bool
  | [] => true
  | (_, value) :: rest => isPlainWithin levels value && areMembersPlain levels rest

end

/-- Documents nest at most so many arrays and objects. -/
def nestingLimit : Nat := 127

end Json

end AgentCompiler
