import AgentCompiler.Bytes
import Mathlib

/-!
Byte strings read back: slices, numbers of a given width with and without a sign, the bytes of a
string after some of them were replaced, and alignment as the least multiple above.
-/

namespace AgentCompiler

open List

def slice (bytes : Bytes) (start stop : Nat) : Bytes := (bytes.drop start).take (stop - start)

lemma getElem?_slice (bytes : Bytes) (start stop x : Nat) :
    (slice bytes start stop)[x]? = if x < stop - start then bytes[start + x]? else none := by
  rw [slice, getElem?_take, getElem?_drop]

lemma slice_congr {left right : Bytes} {start stop : Nat}
    (h : ∀ x, start ≤ x → x < stop → left[x]? = right[x]?) :
    slice left start stop = slice right start stop := by
  apply ext_getElem?
  intro x
  rw [getElem?_slice, getElem?_slice]
  split
  · exact h _ (by omega) (by omega)
  · rfl

lemma slice_append_middle (before middle after : Bytes) :
    slice (before ++ middle ++ after) before.length (before.length + middle.length) = middle := by
  simp [slice]

lemma drop_eq_drop_drop (bytes : Bytes) {start stop : Nat} (h : start ≤ stop) :
    bytes.drop stop = (bytes.drop start).drop (stop - start) := by
  rw [drop_drop, Nat.add_sub_cancel' h]

lemma drop_eq_slice_append (bytes : Bytes) {start stop : Nat} (h : start ≤ stop) :
    bytes.drop start = slice bytes start stop ++ bytes.drop stop := by
  rw [slice, drop_eq_drop_drop bytes h, take_append_drop]

lemma slice_append_slice {bytes : Bytes} {start middle stop : Nat} (h1 : start ≤ middle)
    (h2 : middle ≤ stop) :
    slice bytes start middle ++ slice bytes middle stop = slice bytes start stop := by
  have split : stop - start = (middle - start) + (stop - middle) := by omega
  rw [slice, slice, slice, split, take_add, drop_eq_drop_drop bytes h1]

lemma slice_slice {bytes : Bytes} {start stop x y : Nat} (h : start + y ≤ stop) :
    slice (slice bytes start stop) x y = slice bytes (start + x) (start + y) := by
  apply ext_getElem?
  intro j
  rw [getElem?_slice, getElem?_slice, getElem?_slice, add_assoc]
  by_cases below : j < y - x
  · rw [if_pos below, if_pos (by omega), if_pos (by omega)]
  · rw [if_neg below, if_neg (by omega)]

lemma slice_flatMap {α : Type} (f : α → Bytes) {items : List α} {k : Nat} {item : α}
    (found : items[k]? = some item) :
    slice (items.flatMap f) ((items.take k).flatMap f).length
        ((items.take (k + 1)).flatMap f).length = f item := by
  have take : items.take (k + 1) = items.take k ++ [item] := by
    rw [take_add_one, found]
    rfl
  have split : items = items.take k ++ [item] ++ items.drop (k + 1) := by
    rw [← take, take_append_drop]
  have parts : items.flatMap f = (items.take k).flatMap f ++ f item ++
      (items.drop (k + 1)).flatMap f := by
    conv_lhs => rw [split]
    simp
  have length : ((items.take (k + 1)).flatMap f).length = ((items.take k).flatMap f).length +
      (f item).length := by
    simp [take]
  rw [parts, length, slice_append_middle]

def ofLittleEndianInt (bytes : Bytes) : Int := Int.bmod (ofLittleEndian bytes)
    (Nat.pow 256 bytes.length)

lemma littleEndian_mod (count value : Nat) :
    littleEndian count (value % Nat.pow 256 count) = littleEndian count value := by
  induction count generalizing value with
  | zero => rfl
  | succ count ih =>
    have split : Nat.pow 256 (count + 1) = 256 * Nat.pow 256 count := Nat.pow_succ'
    have low : UInt8.ofNat (value % (256 * Nat.pow 256 count)) = UInt8.ofNat value := by
      apply UInt8.toNat_inj.1
      rw [UInt8.toNat_ofNat', UInt8.toNat_ofNat']
      exact Nat.mod_mul_right_mod value 256 _
    rw [littleEndian, littleEndian, split, low, Nat.mod_mul_right_div_self, ih]

lemma ofLittleEndian_littleEndianInt (count : Nat) (value : Int) :
    (ofLittleEndian (littleEndianInt count value) : Int) = value % Nat.pow 256 count := by
  have pos : (0 : Int) < Nat.pow 256 count := Int.natCast_pos.2 (Nat.pow_pos (by decide))
  rw [littleEndianInt, ofLittleEndian_littleEndian, Nat.mod_eq_of_lt]
  · exact Int.toNat_of_nonneg (Int.emod_nonneg _ (by omega))
  · have lt := Int.emod_lt_of_pos value pos
    omega

lemma ofLittleEndianInt_littleEndianInt (count : Nat) (value : Int) :
    ofLittleEndianInt (littleEndianInt count value) = value.bmod (Nat.pow 256 count) := by
  rw [ofLittleEndianInt, ofLittleEndian_littleEndianInt, length_littleEndianInt, Int.emod_bmod]

def takeInt (count : Nat) (bytes : Bytes) : Option (Int × Bytes) :=
  if count ≤ bytes.length then some (ofLittleEndianInt (bytes.take count), bytes.drop count)
  else none

@[simp] lemma takeInt_littleEndianInt (count : Nat) (value : Int) (rest : Bytes) :
    takeInt count (littleEndianInt count value ++ rest) = some (value.bmod (Nat.pow 256 count),
        rest) := by
  simp [takeInt, ofLittleEndianInt_littleEndianInt]

lemma takeInt_of_bmod_eq {count : Nat} {value : Int} (h : value.bmod (Nat.pow 256 count) = value)
    (rest : Bytes) :
    takeInt count (littleEndianInt count value ++ rest) = some (value, rest) := by
  rw [takeInt_littleEndianInt, h]

section

variable {bytes patch : Bytes} {offset x : Nat}

lemma getElem?_overwrite_outside (h : offset + patch.length ≤ bytes.length)
    (below : x < offset ∨ offset + patch.length ≤ x) : (overwrite bytes offset patch)[x]? =
    bytes[x]? := by
  have len : (bytes.take offset ++ patch).length = offset + patch.length := by
    rw [length_append, length_take]
    omega
  rcases below with below | below
  · have left : x < (bytes.take offset).length := by
      rw [length_take]
      omega
    rw [overwrite, append_assoc, getElem?_append_left left, getElem?_take_of_lt below]
  · rw [overwrite, getElem?_append_right (by omega), len, getElem?_drop]
    congr 1
    omega

lemma slice_overwrite (h : offset + patch.length ≤ bytes.length) :
    slice (overwrite bytes offset patch) offset (offset + patch.length) = patch := by
  have len : (bytes.take offset).length = offset := by
    rw [length_take]
    omega
  have middle := slice_append_middle (bytes.take offset) patch (bytes.drop (offset + patch.length))
  rwa [len] at middle

end

section

variable {value align : Nat}

lemma isPowerOfTwo_iff {n : Nat} : isPowerOfTwo n = true ↔ n.isPowerOfTwo := by
  by_cases same : n = 0
  · subst same
    have pos := fun k => Nat.ne_of_lt (Nat.two_pow_pos k)
    simp [isPowerOfTwo, Nat.isPowerOfTwo, pos]
  · simp only [isPowerOfTwo, Bool.and_eq_true, bne_iff_ne, ne_eq, beq_iff_eq, same,
      not_false_eq_true, true_and]
    exact Nat.and_sub_one_eq_zero_iff_isPowerOfTwo same

lemma alignUp_eq_mul (h : isPowerOfTwo align = true) :
    alignUp value align = align * ((value + (align - 1)) / align) := by
  obtain ⟨k, rfl⟩ := isPowerOfTwo_iff.1 h
  have pos : 0 < 2 ^ k := Nat.pow_pos (by decide)
  rw [alignUp]
  split
  · have one : 2 ^ k = 1 := by omega
    simp [one]
  · have div := Nat.div_add_mod (value + (2 ^ k - 1)) (2 ^ k)
    simp only [Nat.and_two_pow_sub_one_eq_mod]
    omega

lemma dvd_alignUp (h : isPowerOfTwo align = true) : align ∣ alignUp value align :=
  ⟨_, alignUp_eq_mul h⟩

lemma le_alignUp (value align : Nat) : value ≤ alignUp value align := by
  rw [alignUp]
  split
  · exact le_rfl
  · have hand := @Nat.and_le_right (value + (align - 1)) (align - 1)
    dsimp only
    omega

lemma alignUp_lt (h : isPowerOfTwo align = true) : alignUp value align < value + align := by
  obtain ⟨k, rfl⟩ := isPowerOfTwo_iff.1 h
  have pos : 0 < 2 ^ k := Nat.pow_pos (by decide)
  have mul := Nat.mul_div_le (value + (2 ^ k - 1)) (2 ^ k)
  rw [alignUp_eq_mul h]
  omega

lemma isLeast_alignUp (h : isPowerOfTwo align = true) :
    IsLeast {m | align ∣ m ∧ value ≤ m} (alignUp value align) := by
  refine ⟨⟨dvd_alignUp h, le_alignUp value align⟩, ?_⟩
  rintro m ⟨dvd, le⟩
  by_contra lt
  -- two multiples of `align` are closer to each other than `align`
  have gap : align ∣ alignUp value align - m := Nat.dvd_sub (dvd_alignUp h) dvd
  have small : alignUp value align < value + align := alignUp_lt h
  have le' := Nat.le_of_dvd (by omega) gap
  omega

end

end AgentCompiler
