import AgentCompiler.Json.Basic

/-! Writing JSON text, without blanks. -/

namespace AgentCompiler

namespace Json

def hexChar (n : Nat) : Char := if n < 10 then Char.ofNat (48 + n) else Char.ofNat (87 + n)

/-- A character inside a string: quotes, backslashes and control characters are escaped. -/
def writeChar (c : Char) : List Char :=
  if c = '"' then ['\\', '"']
  else if c = '\\' then ['\\', '\\']
  else if c = '\x08' then ['\\', 'b']
  else if c = '\x0c' then ['\\', 'f']
  else if c = '\n' then ['\\', 'n']
  else if c = '\r' then ['\\', 'r']
  else if c = '\t' then ['\\', 't']
  else if c.toNat < 32 then ['\\', 'u', '0', '0', hexChar (c.toNat / 16), hexChar (c.toNat % 16)]
  else [c]

def writeText (value : String) : List Char := '"' :: value.toList.flatMap writeChar ++ ['"']

def writeInt (value : Int) : List Char :=
  (if value < 0 then ['-'] else []) ++ Nat.toDigits 10 value.natAbs

mutual

def write : Json → List Char
  | null | invalid => ['n', 'u', 'l', 'l']
  | bool true => ['t', 'r', 'u', 'e']
  | bool false => ['f', 'a', 'l', 's', 'e']
  | int value => writeInt value
  | real mantissa exponent => writeInt mantissa ++ 'e' :: writeInt exponent
  | text value => writeText value
  | array items => '[' :: writeItems items ++ [']']
  | object members => '{' :: writeMembers members ++ ['}']

def writeItems : List Json → List Char
  | [] => []
  | [item] => write item
  | item :: rest => write item ++ ',' :: writeItems rest

def writeMembers : List (String × Json) → List Char
  | [] => []
  | [(name, value)] => writeText name ++ ':' :: write value
  | (name, value) :: rest => writeText name ++ ':' :: write value ++ ',' :: writeMembers rest

end

def render (j : Json) : String := String.ofList j.write

end Json

end AgentCompiler
