/-!
Byte strings as lists: little-endian words, signed ranges, alignment, and overwriting in place.

Sizes and offsets are natural numbers throughout the library. Addresses lie on a circle: a sum that
yields one, or the size of a section that has no bytes, is taken modulo the word size by `toWord`.
Where a quantity is written, `littleEndian` keeps its low bytes.
-/

namespace AgentCompiler

abbrev Bytes := List UInt8

def littleEndian : Nat → Nat → Bytes
  | 0, _ => []
  | count + 1, value => UInt8.ofNat value :: littleEndian count (value / 256)

/-- Two's complement: a negative number is taken modulo the width. -/
def littleEndianInt (count : Nat) (value : Int) : Bytes :=
  littleEndian count (value % Nat.pow 256 count).toNat

def ofLittleEndian : Bytes → Nat
  | [] => 0
  | byte :: rest => byte.toNat + 256 * ofLittleEndian rest

@[simp] theorem length_littleEndian (count value : Nat) :
    (littleEndian count value).length = count := by
  induction count generalizing value with
  | zero => rfl
  | succ count ih => simp [littleEndian, ih]

@[simp] theorem length_littleEndianInt (count : Nat) (value : Int) :
    (littleEndianInt count value).length = count := length_littleEndian _ _

theorem ofLittleEndian_littleEndian (count value : Nat) :
    ofLittleEndian (littleEndian count value) = value % Nat.pow 256 count := by
  induction count generalizing value with
  | zero => simp [littleEndian, ofLittleEndian, Nat.pow, Nat.mod_one]
  | succ count ih =>
      have split : Nat.pow 256 (count + 1) = 256 * Nat.pow 256 count := Nat.pow_succ'
      simp only [littleEndian, ofLittleEndian, ih, UInt8.toNat_ofNat', Nat.reducePow]
      rw [split, Nat.mod_mul]

def fitsInt8 (value : Int) : Bool := -128 ≤ value && value ≤ 127

def fitsInt32 (value : Int) : Bool := -2147483648 ≤ value && value ≤ 2147483647

/-- The largest signed number of four bytes. -/
def maxInt32 : Nat := 0x7FFFFFFF

/-- The largest signed number of eight bytes. -/
def maxInt64 : Nat := 0x7FFFFFFFFFFFFFFF

def toWord (n : Nat) : Nat := n % UInt64.size

def toSignedWord (n : Int) : Int := n.bmod UInt64.size

def distanceUp (start finish : Nat) : Nat := toWord (finish + (UInt64.size - start))

theorem toWord_lt (n : Nat) : toWord n < UInt64.size := Nat.mod_lt _ (by decide)

theorem toWord_eq_self {n : Nat} (fits : n < UInt64.size) : toWord n = n := Nat.mod_eq_of_lt fits

theorem toSignedWord_eq_self {n : Int} (low : -0x8000000000000000 ≤ n)
    (high : n ≤ 0x7FFFFFFFFFFFFFFF) : toSignedWord n = n := by
  simp only [toSignedWord, Int.bmod, UInt64.size]
  split <;> omega

theorem distanceUp_of_le {start finish : Nat} (order : start ≤ finish)
    (fits : finish < UInt64.size) : distanceUp start finish = finish - start := by
  have split : finish + (UInt64.size - start) = finish - start + UInt64.size := by omega
  rw [distanceUp, toWord, split, Nat.add_mod_right]
  exact Nat.mod_eq_of_lt (by omega)

/-- Rounds up to a multiple of `align` when that is a power of two. The rule clears the bits of
`align - 1` from `value + align - 1`, and this is what it means for every other `align` too. -/
def alignUp (value align : Nat) : Nat :=
  if align ≤ 1 then value
  else
    let top := value + (align - 1)
    top - (top &&& (align - 1))

def isPowerOfTwo (n : Nat) : Bool := n != 0 && n &&& (n - 1) == 0

def resize (bytes : Bytes) (length : Nat) : Bytes :=
  bytes.take length ++ List.replicate (length - bytes.length) 0

@[simp] theorem length_resize (bytes : Bytes) (length : Nat) :
    (resize bytes length).length = length := by
  simp only [resize, List.length_append, List.length_take, List.length_replicate]
  omega

theorem resize_of_length_le {bytes : Bytes} {length : Nat} (short : bytes.length ≤ length) :
    resize bytes length = bytes ++ List.replicate (length - bytes.length) 0 := by
  rw [resize, List.take_of_length_le short]

def overwrite (bytes : Bytes) (offset : Nat) (patch : Bytes) : Bytes :=
  bytes.take offset ++ patch ++ bytes.drop (offset + patch.length)

theorem length_overwrite {bytes patch : Bytes} {offset : Nat}
    (inside : offset + patch.length ≤ bytes.length) :
    (overwrite bytes offset patch).length = bytes.length := by
  simp only [overwrite, List.length_append, List.length_take, List.length_drop]
  omega

end AgentCompiler
