import AgentCompiler.Proofs.FileLayout

/-!
The tables of an image, read back from its file by the offsets that the file format gives to their
fields. A number that fits its field is read as it was written, so whoever reads the file gets the
header and the segments of the image.
-/

namespace AgentCompiler

open List

section

variable {left rest : Bytes} {offset count value : Nat}

def numberAt (bytes : Bytes) (offset count : Nat) : Nat := ofLittleEndian
    (slice bytes offset (offset + count))

lemma numberAt_append (h : left.length ≤ offset) :
    numberAt (left ++ rest) offset count = numberAt rest (offset - left.length) count := by
  rw [numberAt, numberAt, slice, slice, drop_append, drop_eq_nil_of_le h,
    nil_append, Nat.add_sub_cancel_left, Nat.add_sub_cancel_left]

lemma numberAt_littleEndian (h : value < Nat.pow 256 count) :
    numberAt (littleEndian count value ++ rest) 0 count = value := by
  rw [numberAt, slice, drop_zero, zero_add, Nat.sub_zero,
    take_left' (length_littleEndian _ _), ofLittleEndian_littleEndian, Nat.mod_eq_of_lt h]

end

namespace FileHeader

structure Fits (h : FileHeader) : Prop where
  two : ∀ n ∈ [h.fileType, h.machine, h.headerSize, h.segmentEntrySize, h.segmentCount,
    h.sectionEntrySize, h.sectionCount, h.sectionNames], n < 0x10000
  four : ∀ n ∈ [h.version, h.flags], n < 0x100000000
  eight : ∀ n ∈ [h.entry, h.segmentTable, h.sectionTable], n < 0x10000000000000000

def ofBytes (file : Bytes) : FileHeader where
  fileType := numberAt file 16 2
  machine := numberAt file 18 2
  version := numberAt file 20 4
  entry := numberAt file 24 8
  segmentTable := numberAt file 32 8
  sectionTable := numberAt file 40 8
  flags := numberAt file 48 4
  headerSize := numberAt file 52 2
  segmentEntrySize := numberAt file 54 2
  segmentCount := numberAt file 56 2
  sectionEntrySize := numberAt file 58 2
  sectionCount := numberAt file 60 2
  sectionNames := numberAt file 62 2

lemma ofBytes_bytes {h : FileHeader} (fits : h.Fits) (rest : Bytes) :
    ofBytes (h.bytes ++ rest) = h := by
  obtain ⟨two, four, height⟩ := fits
  simp only [forall_mem_cons, not_mem_nil, false_implies, implies_true, and_true] at two four height
  obtain ⟨h1, h2, h3, h4, h5, h6, h7, h8⟩ := two
  obtain ⟨h9, h10⟩ := four
  obtain ⟨h11, h12, h13⟩ := height
  have length : identification.length = 16 := rfl
  simp [ofBytes, bytes, numberAt_append, numberAt_littleEndian, *]

end FileHeader

namespace Segment

structure Fits (s : Segment) : Prop where
  four : ∀ n ∈ [s.kind, s.flags], n < 0x100000000
  eight : ∀ n ∈ [s.offset, s.address, s.physical, s.fileSize, s.memSize, s.align],
    n < 0x10000000000000000

def ofBytes (table : Bytes) : Segment where
  kind := numberAt table 0 4
  flags := numberAt table 4 4
  offset := numberAt table 8 8
  address := numberAt table 16 8
  physical := numberAt table 24 8
  fileSize := numberAt table 32 8
  memSize := numberAt table 40 8
  align := numberAt table 48 8

lemma ofBytes_bytes {s : Segment} (fits : s.Fits) (rest : Bytes) :
    ofBytes (s.bytes ++ rest) = s := by
  obtain ⟨four, height⟩ := fits
  simp only [forall_mem_cons, not_mem_nil, false_implies, implies_true, and_true] at four height
  obtain ⟨h1, h2⟩ := four
  obtain ⟨h3, h4, h5, h6, h7, h8⟩ := height
  simp [ofBytes, bytes, numberAt_append, numberAt_littleEndian, *]

def readTable : Nat → Bytes → List Segment
  | 0, _ => []
  | count + 1, table => ofBytes table :: readTable count (table.drop 56)

lemma readTable_bytes {list : List Segment} (fits : ∀ s ∈ list, s.Fits) (rest : Bytes) :
    readTable list.length (list.flatMap (·.bytes) ++ rest) = list := by
  induction list with
  | nil => rfl
  | cons s tail ih =>
    have drop : ((s :: tail).flatMap (·.bytes) ++ rest).drop 56 = tail.flatMap
        (·.bytes) ++ rest := by
      rw [flatMap_cons, append_assoc, drop_left' s.length_bytes]
    rw [length_cons, readTable, drop, ih fun t ht => fits t (mem_cons_of_mem s ht),
      flatMap_cons, append_assoc, ofBytes_bytes (fits s mem_cons_self)]

end Segment

def segmentsOf (file : Bytes) : List Segment :=
  let header := FileHeader.ofBytes file
  Segment.readTable header.segmentCount (file.drop header.segmentTable)

end AgentCompiler
