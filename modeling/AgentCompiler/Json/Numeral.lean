import AgentCompiler.Json.Basic

/-!
Number literals: an optional sign, digits without a leading zero, an optional fraction and an
optional exponent.

A literal denotes an exact number, but whether it is in range is decided in two roundings: its
leading digits, as many as fit a word, become a double, and so does the power of ten behind them.
The product of the two has to be finite.
-/

namespace AgentCompiler

structure Numeral where
  isNegative : Bool
  magnitude : Nat
  exponent : Int
  leading : Nat
  /-- The power of ten that `leading` is short of. -/
  scale : Int
  isInteger : Bool
  deriving DecidableEq

namespace Numeral

def appendDigit (value : Nat) (digit : Char) : Nat := 10 * value + (digit.toNat - '0'.toNat)

def digitsValue (digits : List Char) : Nat := digits.foldl appendDigit 0

/-- Appends digits as long as the number fits a word; returns it with the digits left over. -/
def fillWord (value : Nat) : List Char → Nat × List Char
  | [] => (value, [])
  | digit :: rest =>
      let next := appendDigit value digit
      if next < UInt64.size then fillWord next rest else (value, digit :: rest)

def scanDigits (cs : List Char) : Option (List Char × List Char) :=
  match cs.takeWhile Char.isDigit with
  | [] => none
  | digits => some (digits, cs.dropWhile Char.isDigit)

def scanWhole : List Char → Option (List Char × List Char)
  | '0' :: rest => some (['0'], rest)
  | cs => scanDigits cs

def scanFraction : List Char → Option (Option (List Char) × List Char)
  | '.' :: rest => do
      let (digits, rest) ← scanDigits rest
      some (some digits, rest)
  | cs => some (none, cs)

def scanPower : List Char → Option (Int × List Char)
  | '+' :: rest => do
      let (digits, rest) ← scanDigits rest
      some (digitsValue digits, rest)
  | '-' :: rest => do
      let (digits, rest) ← scanDigits rest
      some (-digitsValue digits, rest)
  | cs => do
      let (digits, rest) ← scanDigits cs
      some (digitsValue digits, rest)

def scanExponent : List Char → Option (Option Int × List Char)
  | 'e' :: rest | 'E' :: rest => do
      let (power, rest) ← scanPower rest
      some (some power, rest)
  | cs => some (none, cs)

def scanUnsigned (isNegative : Bool) (cs : List Char) : Option (Numeral × List Char) := do
  let (whole, rest) ← scanWhole cs
  let (fraction, rest) ← scanFraction rest
  let (power, rest) ← scanExponent rest
  let places := fraction.getD []
  let (head, omitted) := fillWord 0 whole
  let (leading, ignored) := fillWord head places
  some ({
    isNegative
    magnitude := digitsValue (whole ++ places)
    exponent := power.getD 0 - places.length
    leading
    scale := power.getD 0 + omitted.length - (places.length - ignored.length : Nat)
    isInteger := fraction.isNone && power.isNone }, rest)

def scan : List Char → Option (Numeral × List Char)
  | '-' :: rest => scanUnsigned true rest
  | cs => scanUnsigned false cs

/-- The nearest number of 53 significant bits, as doubles have them; a tie goes to the even one. -/
def roundToDouble (n : Nat) : Nat :=
  let dropped := n.log2 - 52
  let kept := n >>> dropped
  let rest := 2 * (n - kept <<< dropped)
  let unit := 1 <<< dropped
  let up := rest > unit || rest == unit && kept % 2 == 1
  (kept + up.toNat) <<< dropped

/-- Magnitudes from here on round to infinity in a double. -/
def overflowBound : Nat := Nat.pow 2 1024 - Nat.pow 2 970

def maxScale : Int := 308

/-- The number is in the range of doubles. A word that is scaled down always is. -/
def isFinite (n : Numeral) : Bool :=
  n.leading == 0 || n.scale < 0 ||
    (n.scale ≤ maxScale &&
      roundToDouble n.leading * roundToDouble (Nat.pow 10 n.scale.toNat) < overflowBound)

def signed (n : Numeral) : Int := if n.isNegative then -n.magnitude else n.magnitude

def value (n : Numeral) : Json :=
  if !n.isFinite then .invalid
  else if n.isInteger && !(n.isNegative && n.magnitude == 0) then .int n.signed
  else .real n.signed n.exponent

end Numeral

end AgentCompiler
