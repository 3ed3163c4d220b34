import AgentCompiler.Json.Reader
import AgentCompiler.Json.Writer
import Mathlib

/-!
Text that is written for a value is read as that value. This holds for the values that text can
carry without loss: everything but fractions, exponents and invalid parts, with integers of
64 bits. Each part of the text is followed by something that cannot belong to it, so the statements
are about a written part with any such rest behind it.
-/

namespace AgentCompiler

open List

variable {c : Char} {n : Nat}

namespace Json

/-- What can stand behind a value in written text. -/
def Follows (rest : List Char) : Prop := ∀ c ∈ rest.head?, c = ',' ∨ c = ']' ∨ c = '}'

lemma follows_nil : Follows [] := by simp [Follows]

lemma follows_cons {rest : List Char} : Follows (c :: rest) ↔ c = ',' ∨ c = ']' ∨
    c = '}' := by simp [Follows]

end Json

namespace Numeral

open Json (Follows)

variable {rest digits : List Char} {isNegative : Bool}

lemma scanDigits_append (some_digit : digits ≠ []) (all : ∀ c ∈ digits, c.isDigit = true)
    (follows : Follows rest) : scanDigits (digits ++ rest) = some (digits, rest) := by
  have stops : rest.takeWhile Char.isDigit = [] ∧ rest.dropWhile Char.isDigit = rest := by
    cases rest with
    | nil => simp
    | cons c cs =>
      have other : c.isDigit = false := by
        rcases Json.follows_cons.1 follows with rfl | rfl | rfl <;> decide
      simp [other]
  rw [scanDigits, takeWhile_append_of_pos all, dropWhile_append_of_pos all, stops.1, stops.2,
    append_nil]
  cases digits with
  | nil => exact absurd rfl some_digit
  | cons c cs => rfl

lemma toDigits_head (n : Nat) (positive : 0 < n) : (Nat.toDigits 10 n).head? ≠ some '0' := by
  induction n using Nat.strong_induction_on with
  | _ n ih =>
    by_cases small : n < 10
    · rw [Nat.toDigits_of_lt_base small]
      simp only [head?_cons, ne_eq, Option.some.injEq, Nat.digitChar_eq_zero]
      omega
    · rw [Nat.toDigits_of_base_le (by decide) (not_lt.1 small),
        head?_append_of_ne_nil _ Nat.toDigits_ne_nil]
      exact ih (n / 10) (Nat.div_lt_self positive (by decide)) (by omega)

lemma scanWhole_toDigits (n : Nat) (follows : Follows rest) :
    scanWhole (Nat.toDigits 10 n ++ rest) = some (Nat.toDigits 10 n, rest) := by
  rcases Nat.eq_zero_or_pos n with rfl | positive
  · rfl
  · have head := toDigits_head n positive
    rw [scanWhole]
    · exact scanDigits_append Nat.toDigits_ne_nil
        (fun c mem => Nat.isDigit_of_mem_toDigits (by decide) (by decide) mem) follows
    · intro others same
      cases digits : Nat.toDigits 10 n with
      | nil => exact Nat.toDigits_ne_nil digits
      | cons c cs => simp_all

lemma scanFraction_follows (follows : Follows rest) : scanFraction rest = some (none, rest) := by
  rw [scanFraction]
  rintro others rfl
  simp [Json.follows_cons] at follows

lemma scanExponent_follows (follows : Follows rest) : scanExponent rest = some (none, rest) := by
  rw [scanExponent] <;>
  · rintro others rfl
    simp [Json.follows_cons] at follows

lemma le_foldl_appendDigit (value : Nat) (digits : List Char) :
    value ≤ digits.foldl appendDigit value := by
  induction digits generalizing value with
  | nil => exact le_rfl
  | cons c cs ih =>
    have later := ih (appendDigit value c)
    have now : value ≤ appendDigit value c := by
      rw [appendDigit]
      omega
    exact now.trans later

lemma fillWord_of_fits {value : Nat} (fits : digits.foldl appendDigit value < UInt64.size) :
    fillWord value digits = (digits.foldl appendDigit value, []) := by
  induction digits generalizing value with
  | nil => rfl
  | cons c cs ih =>
    have next := (le_foldl_appendDigit (appendDigit value c) cs).trans_lt fits
    rw [fillWord, if_pos next, ih fits]
    rfl

lemma digitsValue_toDigits (n : Nat) : digitsValue (Nat.toDigits 10 n) = n :=
  Nat.ofDigitChars_ten_toDigits

/-- A word has 64 bits, so rounding drops at most the last eleven of them. -/
lemma roundToDouble_le (fits : n < UInt64.size) : roundToDouble n ≤ n + 4096 := by
  have few : n.log2 - 52 ≤ 11 := by
    rcases Nat.eq_zero_or_pos n with rfl | positive
    · decide
    · have bits : n.log2 < 64 := (Nat.log2_lt positive.ne').2 fits
      omega
  have unit : Nat.pow 2 (n.log2 - 52) ≤ 2048 := Nat.pow_le_pow_right (by decide) few
  have kept := Nat.div_mul_le_self n (Nat.pow 2 (n.log2 - 52))
  rw [roundToDouble, Nat.shiftLeft_eq, Nat.shiftRight_eq_div_pow, Nat.add_mul]
  refine add_le_add kept ?_
  refine (Nat.mul_le_mul_right _ (Bool.toNat_le _)).trans ?_
  rw [Nat.one_mul]
  exact unit.trans (by decide)

lemma scanUnsigned_toDigits (isNegative : Bool) (fits : n < UInt64.size) (follows : Follows rest) :
    scanUnsigned isNegative (Nat.toDigits 10 n ++ rest) = some (⟨isNegative, n, 0, n, 0, true⟩,
        rest) := by
  have filled : fillWord 0 (Nat.toDigits 10 n) = (n, []) := by
    have value := digitsValue_toDigits n
    rw [digitsValue] at value
    rw [fillWord_of_fits (value.symm ▸ fits), value]
  simp [scanUnsigned, scanWhole_toDigits n follows, scanFraction_follows follows,
    scanExponent_follows follows, filled, fillWord, digitsValue_toDigits]

lemma isFinite_of_fits (fits : n < UInt64.size) :
    isFinite ⟨isNegative, n, 0, n, 0, true⟩ = true := by
  have rounded := roundToDouble_le fits
  have one : roundToDouble 1 = 1 := by decide
  have room : UInt64.size + 4096 ≤ overflowBound := by decide +kernel
  simp only [isFinite, maxScale, Int.toNat_zero, Nat.pow_eq, Nat.pow_zero, one, mul_one,
    Bool.or_eq_true, Bool.and_eq_true, decide_eq_true_eq]
  exact .inr ⟨by simp, by omega⟩

lemma toDigits_eq_cons (n : Nat) : ∃ c cs, Nat.toDigits 10 n = c :: cs ∧ c.isDigit = true := by
  cases digits : Nat.toDigits 10 n with
  | nil => exact absurd digits Nat.toDigits_ne_nil
  | cons c cs =>
    have mem : c ∈ Nat.toDigits 10 n := by simp [digits]
    exact ⟨c, cs, rfl, Nat.isDigit_of_mem_toDigits (by decide) (by decide) mem⟩

/-- Only a minus sign in front of zero would make a literal no integer. -/
lemma value_of_fits (fits : n < UInt64.size) (signed : isNegative = true → n ≠ 0) :
    value ⟨isNegative, n, 0, n, 0, true⟩ = .int (if isNegative then -n else n) := by
  rw [value, isFinite_of_fits fits]
  cases isNegative with
  | false => rfl
  | true =>
    have nonzero : (n == 0) = false := by simpa using signed rfl
    simp [nonzero, Numeral.signed]

lemma scan_writeInt {v : Int} (low : Int64.minValue.toInt ≤ v) (high : v ≤ Int64.maxValue.toInt)
    (follows : Follows rest) :
    ∃ numeral, scan (Json.writeInt v ++ rest) = some (numeral, rest) ∧ numeral.value = .int v := by
  have fits : v.natAbs < UInt64.size := by
    simp only [Int64.toInt_minValue, Int64.toInt_maxValue] at low high
    simp only [UInt64.size]
    omega
  have scanned (isNegative : Bool) := scanUnsigned_toDigits isNegative fits follows
  by_cases negative : v < 0
  · refine ⟨⟨true, v.natAbs, 0, v.natAbs, 0, true⟩, ?_, ?_⟩
    · rw [Json.writeInt, if_pos negative]
      exact scanned true
    · rw [value_of_fits fits (by omega), if_pos rfl]
      congr 1
      omega
  · refine ⟨⟨false, v.natAbs, 0, v.natAbs, 0, true⟩, ?_, ?_⟩
    · rw [Json.writeInt, if_neg negative, nil_append, ← scanned false]
      obtain ⟨c, cs, digits, isDigit⟩ := toDigits_eq_cons v.natAbs
      rw [digits, cons_append, scan]
      rintro _ ⟨⟩
      simp at isDigit
    · rw [value_of_fits fits (by simp), if_neg (by simp)]
      congr 1
      omega

end Numeral

namespace Json

section

def pieceOf (c : Char) : Piece := if c ∈ ['\x08', '\x0c', '\n', '\r', '\t'] then .char c
  else if c.toNat < 32 then .unit c.toNat
  else .char c

def withPiece (piece : Piece) (scanned : List Piece × List Char) : List Piece × List Char :=
  (piece :: scanned.1, scanned.2)

variable {rest : List Char}

lemma scanPieces_letter {letter plain : Char} (stands : escaped? letter = some plain) :
    scanPieces ('\\' :: letter :: rest) = (scanPieces rest).map (withPiece (.char plain)) := by
  rw [scanPieces, stands]
  · cases scanPieces rest <;> rfl
  · rintro _ _ _ _ _ rfl
    simp [escaped?] at stands

lemma hexDigit?_hexChar (small : n < 16) : hexDigit? (hexChar n) = some n := by
  revert n
  decide

lemma scanPieces_unit (small : n < 32) :
    scanPieces ('\\' :: 'u' :: '0' :: '0' :: hexChar (n / 16) :: hexChar (n % 16) :: rest) =
      (scanPieces rest).map (withPiece (.unit n)) := by
  have zero : hexDigit? '0' = some 0 := by decide
  have code : hexUnit? '0' '0' (hexChar (n / 16)) (hexChar (n % 16)) = some n := by
    simp only [hexUnit?, zero, hexDigit?_hexChar (show n / 16 < 16 by omega),
      hexDigit?_hexChar (show n % 16 < 16 by omega), Option.bind_eq_bind, Option.bind_some]
    congr 1
    omega
  rw [scanPieces, code]
  cases scanPieces rest <;> rfl

lemma scanPieces_plain (quote : c ≠ '"') (escape : c ≠ '\\') (large : ¬ c.toNat < 32) :
    scanPieces (c :: rest) = (scanPieces rest).map (withPiece (.char c)) := by
  rw [scanPieces, if_neg large]
  · cases scanPieces rest <;> rfl
  · exact quote
  · exact fun _ _ _ _ _ same => absurd same escape
  · exact fun _ _ same => absurd same escape

lemma scanPieces_writeChar (c : Char) (rest : List Char) :
    scanPieces (writeChar c ++ rest) = (scanPieces rest).map (withPiece (pieceOf c)) := by
  by_cases short : c ∈ ['"', '\\', '\x08', '\x0c', '\n', '\r', '\t']
  · simp only [mem_cons, not_mem_nil, or_false] at short
    rcases short with rfl | rfl | rfl | rfl | rfl | rfl | rfl <;> exact scanPieces_letter rfl
  · simp only [mem_cons, not_mem_nil, or_false, not_or] at short
    obtain ⟨quote, escape, others⟩ := short
    simp only [writeChar, pieceOf, quote, escape, others, mem_cons, not_mem_nil, or_false, if_false]
    split
    next small => exact scanPieces_unit small
    next large => exact scanPieces_plain quote escape large

lemma spell_unit (small : n < 32) (pieces : List Piece) :
    spell (.unit n :: pieces) = (spell pieces).map (Char.ofNat n :: ·) := by
  have high : isHighUnit n = false := by simp [isHighUnit]; omega
  have low : isLowUnit n = false := by simp [isLowUnit]; omega
  cases pieces with
  | nil => simp [spell, high, low]
  | cons piece rest => cases piece <;> simp [spell, high, low]

lemma spell_pieceOf (c : Char) (pieces : List Piece) : spell (pieceOf c :: pieces) =
    (spell pieces).map (c :: ·) := by
  unfold pieceOf
  split
  · rfl
  · split
    next small => rw [spell_unit small, Char.ofNat_toNat]
    next => rfl

lemma scanPieces_chars (cs : List Char) (rest : List Char) :
    scanPieces (cs.flatMap writeChar ++ '"' :: rest) = some (cs.map pieceOf, rest) := by
  induction cs with
  | nil => rfl
  | cons c cs ih =>
    rw [flatMap_cons, append_assoc, scanPieces_writeChar, ih]
    rfl

lemma spell_pieces (cs : List Char) : spell (cs.map pieceOf) = some cs := by
  induction cs with
  | nil => rfl
  | cons c cs ih => rw [map_cons, spell_pieceOf, ih, Option.map_some]

lemma scanText_writeText (value : String) (rest : List Char) :
    scanText (value.toList.flatMap writeChar ++ '"' :: rest) = some (some value, rest) := by
  simp [scanText, scanPieces_chars, spell_pieces]

end

inductive IsExact : Json → Prop
  | null : IsExact .null
  | bool (value : Bool) : IsExact (.bool value)
  | int (value : Int64) : IsExact (.int value.toInt)
  | text (value : String) : IsExact (.text value)
  | array {items : List Json} (all : ∀ j ∈ items, IsExact j) : IsExact (.array items)
  | object {members : List (String × Json)} (all : ∀ m ∈ members, IsExact m.2) :
      IsExact (.object members)

section

variable {fuel : Nat} {rest : List Char} {j : Json} {items : List Json}
  {members : List (String × Json)}

/-- A value starts with a character that is neither a blank nor the end of an array. -/
def Opens (c : Char) : Prop := isBlank c = false ∧ c ≠ ']'

lemma writeInt_eq_cons (v : Int) : ∃ c cs, writeInt v = c :: cs ∧ (c = '-' ∨ c.isDigit = true) := by
  by_cases negative : v < 0
  · exact ⟨'-', Nat.toDigits 10 v.natAbs, by rw [writeInt, if_pos negative]; rfl, .inl rfl⟩
  · obtain ⟨c, cs, digits, isDigit⟩ := Numeral.toDigits_eq_cons v.natAbs
    exact ⟨c, cs, by rw [writeInt, if_neg negative, nil_append, digits], .inr isDigit⟩

lemma opens_of_number (number : c = '-' ∨ c.isDigit = true) : Opens c := by
  refine ⟨?_, ?_⟩
  · rw [← Bool.not_eq_true]
    intro blank
    simp only [isBlank, Bool.or_eq_true, beq_iff_eq] at blank
    rcases blank with ((rfl | rfl) | rfl) | rfl <;> simp at number
  · rintro rfl
    simp at number

lemma write_eq_cons (j : Json) : ∃ c cs, write j = c :: cs ∧ Opens c := by
  cases j with
  | bool value => cases value <;> exact ⟨_, _, rfl, rfl, by decide⟩
  | int v =>
    obtain ⟨c, cs, written, number⟩ := writeInt_eq_cons v
    exact ⟨c, cs, by rw [write, written], opens_of_number number⟩
  | real m e =>
    obtain ⟨c, cs, written, number⟩ := writeInt_eq_cons m
    exact ⟨c, cs ++ 'e' :: writeInt e, by rw [write, written, cons_append], opens_of_number number⟩
  | _ => exact ⟨_, _, rfl, rfl, by decide⟩

lemma writeItems_cons_cons (j next : Json) (items : List Json) :
    writeItems (j :: next :: items) = write j ++ ',' :: writeItems (next :: items) := rfl

lemma writeItems_cons_eq_cons (j : Json) (items : List Json) :
    ∃ c cs, writeItems (j :: items) = c :: cs ∧ Opens c := by
  obtain ⟨c, cs, written, opens⟩ := write_eq_cons j
  cases items with
  | nil => exact ⟨c, cs, by rw [writeItems, written], opens⟩
  | cons next items =>
    refine ⟨c, cs ++ ',' :: writeItems (next :: items), ?_, opens⟩
    rw [writeItems_cons_cons, written, cons_append]

lemma skipBlanks_cons (other : isBlank c = false) : skipBlanks (c :: rest) = c :: rest := by
  simp [skipBlanks, other]

lemma readValue_number (number : c = '-' ∨ c.isDigit = true) : readValue (fuel + 1) (c :: rest) =
      (Numeral.scan (c :: rest)).map fun scanned => (scanned.1.value, scanned.2) := by
  rw [readValue, skipBlanks_cons (opens_of_number number).1]
  split
  case h_7 => cases Numeral.scan (c :: rest) <;> rfl
  all_goals
    rename_i same
    obtain ⟨rfl, -⟩ := cons.inj same
    simp at number

lemma readValue_text (value : String) :
    readValue (fuel + 1) (writeText value ++ rest) = some (.text value, rest) := by
  have written : writeText value ++ rest = '"' :: (value.toList.flatMap writeChar ++ '"' ::
      rest) := by
    simp [writeText]
  rw [written, readValue, skipBlanks_cons rfl]
  simp [scanText_writeText, ofText]

/-- Text of a value is never empty, so there is fuel for a first step. -/
lemma exists_fuel (enough : 2 * (write j).length ≤ fuel) : ∃ n, fuel = n + 1 := by
  obtain ⟨c, cs, written, -⟩ := write_eq_cons j
  rw [written, length_cons] at enough
  exact ⟨fuel - 1, by omega⟩

def IsReadBack (j : Json) : Prop := ∀ fuel rest, 2 * (write j).length ≤ fuel → Follows rest →
    readValue fuel (write j ++ rest) = some (j, rest)

lemma readItems_writeItems (nonempty : items ≠ []) (all : ∀ j ∈ items, IsReadBack j)
    (enough : 2 * (writeItems items).length + 1 ≤ fuel) :
    readItems fuel (writeItems items ++ ']' :: rest) = some (items, rest) := by
  induction items generalizing fuel with
  | nil => exact absurd rfl nonempty
  | cons j items ih =>
    obtain ⟨first, others⟩ := forall_mem_cons.1 all
    obtain ⟨fuel, rfl⟩ : ∃ n, fuel = n + 1 := ⟨fuel - 1, by omega⟩
    cases items with
    | nil =>
      rw [writeItems] at enough ⊢
      rw [readItems, first fuel (']' :: rest) (by omega) (follows_cons.2 (by decide))]
      rfl
    | cons next items =>
      simp only [writeItems_cons_cons, length_append, length_cons] at enough
      have later : readItems fuel (writeItems (next :: items) ++ ']' :: rest) =
          some (next :: items, rest) := ih (cons_ne_nil _ _) others (by omega)
      rw [writeItems_cons_cons, append_assoc, cons_append, readItems,
        first fuel (',' :: _) (by omega) (follows_cons.2 (by decide))]
      simp [skipBlanks_cons, isBlank, later]

lemma mapM_map_eq_some {α β : Type} {read : β → Option α} {written : α → β} {items : List α}
    (all : ∀ a ∈ items, read (written a) = some a) : (items.map written).mapM read =
    some items := by
  induction items with
  | nil => rfl
  | cons a items ih =>
    obtain ⟨first, others⟩ := forall_mem_cons.1 all
    rw [map_cons, mapM_cons, first, ih others]
    rfl

lemma ofMembers_some (members : List (String × Json)) :
    ofMembers (members.map fun m => (some m.1, m.2)) = .object members := by
  rw [ofMembers, mapM_map_eq_some]
  exact fun m _ => rfl

lemma writeMembers_cons_cons (m next : String × Json) (members : List (String × Json)) :
    writeMembers (m :: next :: members) =
      writeText m.1 ++ ':' :: write m.2 ++ ',' :: writeMembers (next :: members) := rfl

lemma readMembers_writeMembers (nonempty : members ≠ []) (all : ∀ m ∈ members, IsReadBack m.2)
    (enough : 2 * (writeMembers members).length + 1 ≤ fuel) : readMembers fuel
      (writeMembers members ++ '}' :: rest) = some (members.map fun m => (some m.1, m.2),
      rest) := by
  induction members generalizing fuel with
  | nil => exact absurd rfl nonempty
  | cons m members ih =>
    obtain ⟨first, others⟩ := forall_mem_cons.1 all
    obtain ⟨fuel, rfl⟩ : ∃ n, fuel = n + 1 := ⟨fuel - 1, by omega⟩
    cases members with
    | nil =>
      simp only [writeMembers, length_append, length_cons] at enough
      have value := first fuel ('}' :: rest) (by omega) (follows_cons.2 (by decide))
      simp [writeMembers, writeText, readMembers, skipBlanks_cons, isBlank,
        scanText_writeText, value]
    | cons next members =>
      simp only [writeMembers_cons_cons, length_append, length_cons] at enough
      have later : readMembers fuel (writeMembers (next :: members) ++ '}' :: rest) =
          some ((next :: members).map fun m => (some m.1, m.2), rest) :=
        ih (cons_ne_nil _ _) others (by omega)
      have value := first fuel (',' :: (writeMembers (next :: members) ++ '}' :: rest)) (by omega)
        (follows_cons.2 (by decide))
      simp [writeMembers_cons_cons, writeText, readMembers, skipBlanks_cons, isBlank,
        scanText_writeText, value, later]

lemma isReadBack_array (all : ∀ j ∈ items, IsReadBack j) : IsReadBack (.array items) := by
  intro fuel rest enough follows
  obtain ⟨fuel, rfl⟩ := exists_fuel enough
  simp only [write, length_append, length_cons] at enough
  cases items with
  | nil => rfl
  | cons j items =>
    have inside : readItems fuel (writeItems (j :: items) ++ ']' :: rest) = some
        (j :: items, rest) :=
      readItems_writeItems (cons_ne_nil _ _) all (by omega)
    obtain ⟨c, cs, written, blank, bracket⟩ := writeItems_cons_eq_cons j items
    rw [written, cons_append] at inside
    have text : write (.array (j :: items)) ++ rest = '[' :: c :: (cs ++ ']' :: rest) := by
      simp [write, written]
    rw [text, readValue, skipBlanks_cons rfl]
    simp [skipBlanks_cons blank, bracket, inside]

lemma isReadBack_object (all : ∀ m ∈ members, IsReadBack m.2) : IsReadBack (.object members) := by
  intro fuel rest enough follows
  obtain ⟨fuel, rfl⟩ := exists_fuel enough
  simp only [write, length_append, length_cons] at enough
  cases members with
  | nil => rfl
  | cons m members =>
    have inside : readMembers fuel (writeMembers (m :: members) ++ '}' :: rest) =
        some ((m :: members).map fun m => (some m.1, m.2), rest) :=
      readMembers_writeMembers (cons_ne_nil _ _) all (by omega)
    obtain ⟨cs, written⟩ : ∃ cs, writeMembers (m :: members) = '"' :: cs := by
      cases members <;> exact ⟨_, rfl⟩
    rw [written, cons_append] at inside
    have text : write (.object (m :: members)) ++ rest = '{' :: '"' :: (cs ++ '}' :: rest) := by
      simp [write, written]
    rw [text, readValue, skipBlanks_cons rfl]
    simp [skipBlanks_cons, isBlank, inside, ← ofMembers_some]

lemma isReadBack_int (value : Int64) : IsReadBack (.int value.toInt) := by
  intro fuel rest enough follows
  obtain ⟨c, cs, written, number⟩ := writeInt_eq_cons value.toInt
  obtain ⟨numeral, scanned, isValue⟩ := Numeral.scan_writeInt value.minValue_le_toInt
    value.toInt_le follows
  obtain ⟨fuel, rfl⟩ := exists_fuel enough
  rw [written, cons_append] at scanned
  rw [write, written, cons_append, readValue_number number, scanned, Option.map_some, isValue]

lemma isReadBack_of_isExact (isExact : j.IsExact) : IsReadBack j := by
  induction isExact with
  | null =>
    intro fuel rest enough follows
    obtain ⟨fuel, rfl⟩ := exists_fuel enough
    rfl
  | bool value =>
    intro fuel rest enough follows
    obtain ⟨fuel, rfl⟩ := exists_fuel enough
    cases value <;> rfl
  | int value => exact isReadBack_int value
  | text value =>
    intro fuel rest enough follows
    obtain ⟨fuel, rfl⟩ := exists_fuel enough
    exact readValue_text value
  | array all ih => exact isReadBack_array ih
  | object all ih => exact isReadBack_object ih

lemma parse_render (isExact : j.IsExact) : parse j.render = some j := by
  have whole := isReadBack_of_isExact isExact (2 * j.write.length + 2) [] (by omega) follows_nil
  rw [append_nil] at whole
  rw [parse, render, String.toList_ofList]
  simp only [whole]
  rfl

end

end Json

end AgentCompiler
