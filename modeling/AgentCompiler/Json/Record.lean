import AgentCompiler.Json.Reader

/-!
Records in JSON.

A record is an object that names its fields, or an array that lists them in their declared order.
An object may hold other members beside; an array may end early. Either way the result has one
place for each declared field. Which fields may be absent is up to the reader of the record.

A tagged value has one of several shapes, and its tag says which: the member `kind` of an object,
the first item of an array. The tag is the name of a kind. Inside another tagged value it may also
be the number of the kind, counted from zero.

Readers take the number of arrays and objects that may still be opened.
-/

namespace AgentCompiler

namespace Json

def named (names : List String) (members : List (String × Json)) :
    Option (List (Option Json)) :=
  names.mapM fun name =>
    match members.filter (·.1 == name) with
    | [] => some none
    | [(_, value)] => some (some value)
    | _ => none

def positional (count : Nat) (items : List Json) : Option (List (Option Json)) :=
  if items.length ≤ count then
    some (items.map some ++ List.replicate (count - items.length) none)
  else none

def fields (names : List String) : Json → Option (List (Option Json))
  | object members => named names members
  | array items => positional names.length items
  | _ => none

def closedFields (names : List String) : Json → Option (List (Option Json))
  | object members =>
      if members.all (names.contains ·.1) then named names members else none
  | other => fields names other

def readRecord {α : Type} (names : List String) (build : Nat → List (Option Json) → Option α) :
    Nat → Json → Option α
  | 0, _ => none
  | levels + 1, j => do build levels (← fields names j)

abbrev Kinds := List (String × List String)

def tagName : String := "kind"

def kindOf (kinds : Kinds) (isNested : Bool) : Json → Option (String × List String)
  | text name => kinds.find? (·.1 == name)
  | int index => if isNested && 0 ≤ index then kinds[index.toNat]? else none
  | _ => none

def tagged (kinds : Kinds) (isNested : Bool) : Json → Option (String × List (Option Json))
  | object members =>
      match members.filter (·.1 == tagName) with
      | [(_, tag)] => do
          let (kind, names) ← kindOf kinds isNested tag
          let values ← named names (members.filter (·.1 != tagName))
          some (kind, values)
      | _ => none
  | array (tag :: items) => do
      let (kind, names) ← kindOf kinds isNested tag
      let values ← positional names.length items
      some (kind, values)
  | _ => none

def text? : Json → Option String
  | text value => some value
  | _ => none

def bool? : Json → Option Bool
  | bool value => some value
  | _ => none

def int64? : Json → Option Int64
  | int value =>
      if Int64.minValue.toInt ≤ value && value ≤ Int64.maxValue.toInt then some (Int64.ofInt value)
      else none
  | _ => none

def nat? (bound : Nat) : Json → Option Nat
  | int value => if 0 ≤ value && value < bound then some value.toNat else none
  | _ => none

def orDefault {α : Type} (fallback : α) (read : Json → Option α) : Option Json → Option α
  | none => some fallback
  | some value => read value

def nullable {α : Type} (read : Json → Option α) : Option Json → Option (Option α)
  | none | some null => some none
  | some value => some <$> read value

def readList {α : Type} (read : Nat → Json → Option α) : Nat → Json → Option (List α)
  | levels + 1, array items => items.mapM (read levels)
  | _, _ => none

/-- Puts a pair in its place by name, over an earlier pair of that name. -/
def insertByName {α : Type} (name : String) (value : α) :
    List (String × α) → List (String × α)
  | [] => [(name, value)]
  | (other, kept) :: rest =>
      if name < other then (name, value) :: (other, kept) :: rest
      else if name = other then (name, value) :: rest
      else (other, kept) :: insertByName name value rest

/-- Pairs in ascending order of names; of several pairs of one name the last counts. -/
def sortByName {α : Type} (pairs : List (String × α)) : List (String × α) :=
  pairs.foldl (fun sorted (name, value) => insertByName name value sorted) []

def readMap {α : Type} (read : Nat → Json → Option α) : Nat → Json → Option (List (String × α))
  | levels + 1, object members => do
      let pairs ← members.mapM fun (name, value) => (name, ·) <$> read levels value
      some (sortByName pairs)
  | _, _ => none

/-- One of several names. The name may also stand alone in an object, with null for its value or,
inside a tagged value, an empty object. -/
def readChoice {α : Type} (all : List α) (name : α → String) (isNested : Bool) :
    Nat → Json → Option α
  | _, text value => all.find? (name · == value)
  | _ + 1, object [(value, null)] => all.find? (name · == value)
  | _ + 1, object [(value, object [])] =>
      if isNested then all.find? (name · == value) else none
  | _, _ => none

end Json

end AgentCompiler
