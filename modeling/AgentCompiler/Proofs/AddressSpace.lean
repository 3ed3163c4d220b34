import AgentCompiler.Bytes
import AgentCompiler.Machine.Instruction
import Mathlib

/-!
The memory of a running program: one byte for each 64-bit address. Addresses lie on a circle, so a
range of addresses is where it starts and how many cells it has, and a cell belongs to it when its
distance up from the start is below that number. No range is asked to end before the last address.

The laws are those of a store: a range reads back what was written to it, and a range that shares no
cell with the written one reads as before.
-/

namespace AgentCompiler

open List
open BitVec (ofNat)

abbrev Word := BitVec 64

variable {start : Word} {size offset count : Nat}

abbrev Memory := Word → UInt8

def cells (start : Word) (size : Nat) : Set Word := {a | (a - start).toNat < size}

lemma mem_cells {a : Word} : a ∈ cells start size ↔ (a - start).toNat < size := Iff.rfl

lemma add_mem_cells (start : Word) {i : Nat} (inside : i < size) : start + ofNat 64 i ∈ cells
    start size := by
  have distance : (start + ofNat 64 i - start).toNat = i % UInt64.size := by
    rw [BitVec.add_comm, BitVec.add_sub_cancel, BitVec.toNat_ofNat]
  rw [mem_cells, distance]
  exact (Nat.mod_le _ _).trans_lt inside

lemma cells_subset (inside : offset + count ≤ size) (fits : size ≤ UInt64.size) :
    cells (start + ofNat 64 offset) count ⊆ cells start size := by
  intro a near
  simp only [mem_cells, UInt64.size] at near fits ⊢
  bv_omega

lemma cells_mono (short : count ≤ size) :
    cells start count ⊆ cells start size := fun _ near => near.trans_le short

lemma disjoint_cells {first second : Nat} (order : first + count ≤ second)
    (fits : second + size ≤ UInt64.size) :
    Disjoint (cells (start + ofNat 64 first) count) (cells (start + ofNat 64 second) size) := by
  rw [Set.disjoint_left]
  intro a low high
  simp only [mem_cells, UInt64.size] at low high fits
  bv_omega

namespace Memory

variable {m n : Memory} {a b value base : Word} {width : Width}

def bytes (m : Memory) (a : Word) (count : Nat) : Bytes := (List.range count).map fun i =>
    m (a + ofNat 64 i)

def write (m : Memory) (a : Word) (content : Bytes) : Memory := fun x =>
  (content[(x - a).toNat]?).getD (m x)

def load (m : Memory) (a : Word) (width : Width) : Word :=
  ofNat 64 (ofLittleEndian (m.bytes a width.bytes))

def store (m : Memory) (a : Word) (width : Width) (value : Word) : Memory :=
  m.write a (littleEndian width.bytes value.toNat)

@[simp] lemma length_bytes (m : Memory) (a : Word) (count : Nat) :
    (m.bytes a count).length = count := by simp [bytes]

lemma bytes_congr (same : Set.EqOn m n (cells a count)) : m.bytes a count = n.bytes a count := by
  refine map_congr_left fun i inside => same (add_mem_cells a (mem_range.1 inside))

lemma load_congr (same : Set.EqOn m n (cells a width.bytes)) : m.load a width = n.load a width := by
  rw [load, load, bytes_congr same]

lemma write_eqOn (m : Memory) (a : Word) (content : Bytes) :
    Set.EqOn (m.write a content) m (cells a content.length)ᶜ := by
  intro x outside
  have beyond : content.length ≤ (x - a).toNat := not_lt.1 outside
  rw [write, getElem?_eq_none beyond, Option.getD_none]

lemma store_eqOn (m : Memory) (a : Word) (width : Width) (value : Word) :
    Set.EqOn (m.store a width value) m (cells a width.bytes)ᶜ := by
  simpa [store] using write_eqOn m a (littleEndian width.bytes value.toNat)

lemma bytes_write_self {content : Bytes} (fits : content.length ≤ UInt64.size) :
    (m.write a content).bytes a content.length = content := by
  refine ext_getElem (by simp) fun i _ inside => ?_
  have distance : (a + ofNat 64 i - a).toNat = i := by
    rw [BitVec.add_comm, BitVec.add_sub_cancel, BitVec.toNat_ofNat]
    exact Nat.mod_eq_of_lt (inside.trans_le fits)
  simp only [bytes, getElem_map, getElem_range, write]
  rw [distance, getElem?_eq_getElem inside, Option.getD_some]

lemma bytes_store_self (m : Memory) (a : Word) (width : Width) (value : Word) :
    (m.store a width value).bytes a width.bytes = littleEndian width.bytes value.toNat := by
  have fits : (littleEndian width.bytes value.toNat).length ≤ UInt64.size := by
    cases width <;> simp [Width.bytes, UInt64.size]
  simpa [store] using bytes_write_self (m := m) (a := a) fits

lemma bytes_store_of_disjoint (apart : Disjoint (cells a width.bytes) (cells b count)) :
    (m.store a width value).bytes b count = m.bytes b count :=
  bytes_congr fun _ inside => store_eqOn m a width value (Set.disjoint_right.1 apart inside)

lemma load_store_of_disjoint {other : Width}
    (apart : Disjoint (cells a width.bytes) (cells b other.bytes)) :
    (m.store a width value).load b other = m.load b other := by
  rw [load, load, bytes_store_of_disjoint apart]

lemma load_store_self (m : Memory) (a : Word) (width : Width) (value : Word) :
    (m.store a width value).load a width = ofNat 64 (value.toNat % Nat.pow 256 width.bytes) := by
  rw [load, bytes_store_self, ofLittleEndian_littleEndian]

@[simp] lemma load_store_qword (m : Memory) (a value : Word) : (m.store a .qword value).load a
    .qword = value := by
  rw [load_store_self]
  have bound : value.toNat < Nat.pow 256 Width.qword.bytes := value.isLt
  rw [Nat.mod_eq_of_lt bound, BitVec.ofNat_toNat, BitVec.setWidth_eq]

lemma load_of_zeros (zeros : ∀ x ∈ cells a width.bytes, m x = 0) : m.load a width = 0 := by
  have plain : m.load a width = Memory.load (fun _ => 0) a width := load_congr fun x inside =>
    zeros x inside
  rw [plain]
  cases width <;> simp [load, bytes, Width.bytes, range_succ, ofLittleEndian]

def word (m : Memory) (base : Word) (offset : Nat) : Word := m.load (base + ofNat 64 offset) .qword

def put (m : Memory) (base : Word) (offset : Nat) (value : Word) : Memory :=
  m.store (base + ofNat 64 offset) .qword value

@[simp] lemma word_put_self (m : Memory) (base : Word) (offset : Nat) (value : Word) :
    (m.put base offset value).word base offset = value := load_store_qword _ _ _

lemma word_put_of_apart {i j : Nat} (apart : i + 8 ≤ j ∨ j + 8 ≤ i) (low : i + 8 ≤ UInt64.size)
    (high : j + 8 ≤ UInt64.size) : (m.put base j value).word base i = m.word base i := by
  refine load_store_of_disjoint ?_
  rcases apart with before | behind
  · exact (disjoint_cells before high).symm
  · exact disjoint_cells behind low

lemma put_eqOn (inside : offset + 8 ≤ size) (fits : size ≤ UInt64.size) (m : Memory)
    (value : Word) :
    Set.EqOn (m.put base offset value) m (cells base size)ᶜ := fun _ outside =>
  store_eqOn m _ .qword value fun near => outside (cells_subset inside fits near)

lemma word_congr (same : Set.EqOn m n (cells base size)) (inside : offset + 8 ≤ size)
    (fits : size ≤ UInt64.size) : m.word base offset = n.word base offset :=
  load_congr (same.mono (cells_subset inside fits))

end Memory

end AgentCompiler
