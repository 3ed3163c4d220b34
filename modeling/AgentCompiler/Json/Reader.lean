import AgentCompiler.Json.Numeral

/-!
Reading JSON text: strict syntax, and only blanks around the value. Nesting is not limited here.
-/

namespace AgentCompiler

namespace Json

def isBlank (c : Char) : Bool := c == ' ' || c == '\t' || c == '\n' || c == '\r'

def skipBlanks (cs : List Char) : List Char := cs.dropWhile isBlank

/-- A part of a string: a character, or a UTF-16 unit given by its number. -/
inductive Piece
  | char (c : Char)
  | unit (code : Nat)
  deriving DecidableEq

def hexDigit? (c : Char) : Option Nat :=
  if '0' ≤ c && c ≤ '9' then some (c.toNat - '0'.toNat)
  else if 'a' ≤ c && c ≤ 'f' then some (c.toNat - 'a'.toNat + 10)
  else if 'A' ≤ c && c ≤ 'F' then some (c.toNat - 'A'.toNat + 10)
  else none

def hexUnit? (a b c d : Char) : Option Nat := do
  let a ← hexDigit? a
  let b ← hexDigit? b
  let c ← hexDigit? c
  let d ← hexDigit? d
  some (4096 * a + 256 * b + 16 * c + d)

def escaped? : Char → Option Char
  | '"' => some '"'
  | '\\' => some '\\'
  | '/' => some '/'
  | 'b' => some '\x08'
  | 'f' => some '\x0c'
  | 'n' => some '\n'
  | 'r' => some '\r'
  | 't' => some '\t'
  | _ => none

def scanPieces : List Char → Option (List Piece × List Char)
  | [] => none
  | '"' :: rest => some ([], rest)
  | '\\' :: 'u' :: a :: b :: c :: d :: rest => do
      let code ← hexUnit? a b c d
      let (pieces, rest) ← scanPieces rest
      some (.unit code :: pieces, rest)
  | '\\' :: c :: rest => do
      let plain ← escaped? c
      let (pieces, rest) ← scanPieces rest
      some (.char plain :: pieces, rest)
  | c :: rest =>
      if c.toNat < 32 then none
      else do
        let (pieces, rest) ← scanPieces rest
        some (.char c :: pieces, rest)

def isHighUnit (code : Nat) : Bool := 0xD800 ≤ code && code < 0xDC00

def isLowUnit (code : Nat) : Bool := 0xDC00 ≤ code && code < 0xE000

/-- The characters that the pieces spell. The two units of a pair stand side by side; half a pair
spells nothing. -/
def spell : List Piece → Option (List Char)
  | [] => some []
  | .char c :: rest => (c :: ·) <$> spell rest
  | .unit high :: .unit low :: rest =>
      if isHighUnit high then
        if isLowUnit low then
          (Char.ofNat (0x10000 + 1024 * (high - 0xD800) + (low - 0xDC00)) :: ·) <$> spell rest
        else none
      else if isLowUnit high then none
      else (Char.ofNat high :: ·) <$> spell (.unit low :: rest)
  | .unit code :: rest =>
      if isHighUnit code || isLowUnit code then none else (Char.ofNat code :: ·) <$> spell rest

def scanText (cs : List Char) : Option (Option String × List Char) := do
  let (pieces, rest) ← scanPieces cs
  some ((spell pieces).map String.ofList, rest)

def ofText : Option String → Json
  | some value => text value
  | none => invalid

def ofMembers (members : List (Option String × Json)) : Json :=
  match members.mapM (fun (name, value) => name.map (·, value)) with
  | some members => object members
  | none => invalid

mutual

def readValue : Nat → List Char → Option (Json × List Char)
  | 0, _ => none
  | fuel + 1, cs =>
      match skipBlanks cs with
      | 'n' :: 'u' :: 'l' :: 'l' :: rest => some (null, rest)
      | 't' :: 'r' :: 'u' :: 'e' :: rest => some (bool true, rest)
      | 'f' :: 'a' :: 'l' :: 's' :: 'e' :: rest => some (bool false, rest)
      | '"' :: rest => do
          let (value, rest) ← scanText rest
          some (ofText value, rest)
      | '[' :: rest =>
          match skipBlanks rest with
          | ']' :: rest => some (array [], rest)
          | rest => do
              let (items, rest) ← readItems fuel rest
              some (array items, rest)
      | '{' :: rest =>
          match skipBlanks rest with
          | '}' :: rest => some (object [], rest)
          | rest => do
              let (members, rest) ← readMembers fuel rest
              some (ofMembers members, rest)
      | cs => do
          let (number, rest) ← Numeral.scan cs
          some (number.value, rest)

def readItems : Nat → List Char → Option (List Json × List Char)
  | 0, _ => none
  | fuel + 1, cs => do
      let (item, rest) ← readValue fuel cs
      match skipBlanks rest with
      | ']' :: rest => some ([item], rest)
      | ',' :: rest => do
          let (items, rest) ← readItems fuel rest
          some (item :: items, rest)
      | _ => none

def readMembers : Nat → List Char → Option (List (Option String × Json) × List Char)
  | 0, _ => none
  | fuel + 1, cs =>
      match skipBlanks cs with
      | '"' :: rest => do
          let (name, rest) ← scanText rest
          match skipBlanks rest with
          | ':' :: rest => do
              let (value, rest) ← readValue fuel rest
              match skipBlanks rest with
              | '}' :: rest => some ([(name, value)], rest)
              | ',' :: rest => do
                  let (members, rest) ← readMembers fuel rest
                  some ((name, value) :: members, rest)
              | _ => none
          | _ => none
      | _ => none

end

/-- The value of a whole text. Every second step of the reader consumes a character, so twice the
length of the text is fuel enough. -/
def parse (source : String) : Option Json := do
  let cs := source.toList
  let (value, rest) ← readValue (2 * cs.length + 2) cs
  if (skipBlanks rest).isEmpty then some value else none

end Json

end AgentCompiler
