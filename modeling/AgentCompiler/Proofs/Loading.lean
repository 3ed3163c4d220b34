import AgentCompiler.Proofs.FileFormat
import AgentCompiler.Proofs.MemoryLayout

/-!
An image in memory. A loader reads the segments from the file and maps each one: bytes of the file
as far as the segment has them, then zeros. For an image at a page boundary whose addresses do not
wrap around, this puts every section at its address, and segments share no page.
-/

namespace AgentCompiler

open List Segment

namespace Segment

variable {file : Bytes} {s : Segment} {list : List Segment} {x : Nat} {value : UInt8}

def byteAt? (file : Bytes) (x : Nat) (s : Segment) : Option UInt8 := if s.address ≤ x ∧
    x < s.address + s.memSize then
    if x < s.address + s.fileSize then file[s.offset + (x - s.address)]? else some 0
  else none

def Touches (s : Segment) (page : Nat) : Prop := ∃ x, s.address ≤ x ∧ x < s.address + s.memSize ∧
    x / pageSize = page

lemma byteAt?_of_outside (h : x < s.address ∨ s.address + s.memSize ≤ x) :
    s.byteAt? file x = none := by
  rw [byteAt?, if_neg (by omega)]

lemma byteAt?_of_inside (h : s.address ≤ x) (below : x < s.address + s.fileSize)
    (size : s.fileSize ≤ s.memSize) : s.byteAt? file x = file[s.offset + (x - s.address)]? := by
  rw [byteAt?, if_pos (by omega), if_pos below]

lemma findSome?_byteAt? (order : list.Pairwise fun s t => s.address + s.memSize ≤ t.address)
    (hs : s ∈ list) (valued : s.byteAt? file x = some value) : list.findSome? (byteAt? file x) =
    some value := by
  induction list with
  | nil => simp at hs
  | cons t rest ih =>
    obtain ⟨first, more⟩ := pairwise_cons.1 order
    obtain rfl | hs := mem_cons.1 hs
    · rw [findSome?_cons, valued]
    · have le : s.address ≤ x := by
        by_contra lt
        rw [byteAt?_of_outside (.inl (by omega))] at valued
        simp at valued
      have absent : t.byteAt? file x = none := byteAt?_of_outside (.inr ((first s hs).trans le))
      rw [findSome?_cons, absent]
      exact ih more hs

end Segment

def loadedByte? (file : Bytes) (x : Nat) : Option UInt8 :=
  ((segmentsOf file).filter (·.kind = 1)).findSome? (Segment.byteAt? file x)

def loadedBytes (file : Bytes) (address count : Nat) : List (Option UInt8) :=
  (List.range count).map fun j => loadedByte? file (address + j)

namespace Blueprint

variable {b : Blueprint} {c : Contents}

section

lemma header_fits (b : Blueprint) : b.header.Fits := by
  have count : b.segmentCount < 0x10000 := by
    unfold segmentCount
    cases b.hasRodata <;> cases b.hasData <;> decide
  have entry : b.addressAt (b.textOffset + b.entryOffset) < 0x10000000000000000 := toWord_lt _
  exact ⟨by simpa [header] using count, by simp [header], by simpa [header] using entry⟩

lemma segments_fit (h : b.FitsFile) : ∀ s ∈ b.segments, s.Fits := by
  have text := h.text
  simp only [UInt64.size] at text
  refine forall_mem_segments h ?_ ?_ ?_
  · refine ⟨by simp [codeSegment, load], ?_⟩
    simp only [codeSegment, load, pageSize, forall_mem_cons, not_mem_nil,
      false_implies, implies_true, and_true]
    omega
  · intro hr
    have ends := h.rodata hr
    rw [constantsEnd, if_pos hr, UInt64.size] at ends
    refine ⟨by simp [rodataSegment, load], ?_⟩
    simp only [rodataSegment, load, pageSize, forall_mem_cons, not_mem_nil,
      false_implies, implies_true, and_true]
    omega
  · intro hd
    have ends := h.le_memoryEnd hd
    rw [dataEnd, UInt64.size] at ends
    refine ⟨by simp [writableSegment, load], ?_⟩
    simp only [writableSegment, load, pageSize, forall_mem_cons, not_mem_nil,
      false_implies, implies_true, and_true]
    omega

lemma exists_fileBytes_eq (b : Blueprint) (c : Contents) :
    ∃ rest, b.fileBytes c = b.header.bytes ++ (b.segments.flatMap (·.bytes) ++ rest) := by
  refine ⟨(b.fileBytes c).drop b.tables.length, ?_⟩
  rw [← append_assoc]
  conv_lhs => rw [← take_append_drop b.tables.length (b.fileBytes c), take_fileBytes]
  rfl

lemma ofBytes_fileBytes (b : Blueprint) (c : Contents) : FileHeader.ofBytes (b.fileBytes c) =
    b.header := by
  obtain ⟨rest, more⟩ := b.exists_fileBytes_eq c
  rw [more, FileHeader.ofBytes_bytes b.header_fits]

lemma segmentsOf_of_fit (fit : ∀ s ∈ b.segments, s.Fits) (c : Contents) :
    segmentsOf (b.fileBytes c) = b.segments := by
  obtain ⟨rest, more⟩ := b.exists_fileBytes_eq c
  have table : (b.fileBytes c).drop b.header.segmentTable = b.segments.flatMap
      (·.bytes) ++ rest := by
    rw [more]
    exact drop_left' b.header.length_bytes
  have count : b.header.segmentCount = b.segments.length := b.length_segments.symm
  rw [segmentsOf, ofBytes_fileBytes, table, count, readTable_bytes fit]

lemma segmentsOf_fileBytes (h : b.FitsMemory) (c : Contents) :
    segmentsOf (b.fileBytes c) = b.segments := segmentsOf_of_fit (segments_fit h.file) c

end

section

variable {symbols : SymbolTable} {s : PlacedSection}

lemma loadedBytes_eq {file bytes : Bytes} {address : Nat}
    (h : ∀ j < bytes.length, loadedByte? file (address + j) = bytes[j]?) :
    loadedBytes file address bytes.length = bytes.map some := by
  apply ext_getElem?
  intro j
  rw [loadedBytes, getElem?_map, getElem?_map]
  by_cases below : j < bytes.length
  · rw [getElem?_range below, Option.map_some, h j below, getElem?_eq_getElem below,
      Option.map_some]
  · rw [getElem?_eq_none (by rw [length_range]; omega),
      getElem?_eq_none (by omega), Option.map_none, Option.map_none]

lemma loadedByte?_eq (h : b.FitsFile) {s : Segment} {x : Nat}
    {value : UInt8} (hs : s ∈ b.segments) (valued : s.byteAt? (b.fileBytes c) x = some value) :
    loadedByte? (b.fileBytes c) x = some value := by
  have loadable : b.segments.filter (·.kind = 1) = b.segments := by
    rw [filter_eq_self]
    exact forall_mem_segments h rfl (fun _ => rfl) (fun _ => rfl)
  rw [loadedByte?, segmentsOf_of_fit (segments_fit h), loadable]
  exact Segment.findSome?_byteAt? h.pairwise_segments hs valued

lemma loadedByte?_part (h : b.FitsFile)
    (hc : b.relocations.foldlM (b.relocate symbols) b.contents = .ok c) (hs : s ∈ b.sections)
    (kind : s.kind ≠ .bss) {j : Nat} (below : j < s.fileSize) :
    loadedByte? (b.fileBytes c) (s.address + j) = (c.part s.kind)[j]? := by
  have length : (c.part s.kind).length = s.fileSize := by
    rw [length_part_relocated hc, length_contents s hs]
  obtain ⟨-, t, ht, filed, address, start, ends⟩ := exists_segment h s hs kind
  have place : t.offset + (s.address + j - t.address) = s.fileOffset + j := by omega
  rw [getElem?_eq_getElem (by omega)]
  apply loadedByte?_eq h ht
  rw [Segment.byteAt?_of_inside (by omega) (by omega) filed, place,
    (getElem?_fileBytes hc hs kind).2 j below, getElem?_eq_getElem (by omega)]

section

variable (h : b.FitsMemory) (hc : b.relocations.foldlM (b.relocate symbols) b.contents = .ok c)
  (hs : s ∈ b.sections)
include h hc hs

end

section

variable (fits : b.loadAddress + b.dataEnd < UInt64.size)
include fits

lemma FitsFile.of_dataEnd : b.FitsFile := by
  have text := b.textEnd_le_constantsEnd
  have constants := b.constantsEnd_le_dataOffset
  have data := b.dataOffset_le_dataEnd
  exact ⟨by omega, fun _ => by omega, fun _ => fits⟩

lemma address_of_fits : ∀ s ∈ b.sections, s.kind ≠ .bss → s.address = b.loadAddress + s.fileOffset ∧
      s.memSize = s.fileSize ∧ s.fileOffset + s.fileSize ≤ b.dataEnd := by
  have file := FitsFile.of_dataEnd fits
  have text : b.textEnd = b.textOffset + b.text.length := rfl
  have constants := b.textEnd_le_constantsEnd
  have next := b.constantsEnd_le_dataOffset
  have data := b.dataOffset_le_dataEnd
  apply forall_mem_sections
  · exact fun _ => ⟨file.textAddress, rfl, by simp only [placedText]; omega⟩
  · intro hr _
    rw [constantsEnd, if_pos hr] at next
    exact ⟨file.rodataAddress hr, rfl, by simp only [placedRodata]; omega⟩
  · exact fun hd _ => ⟨file.dataAddress hd, rfl, le_rfl⟩
  · exact fun _ kind => absurd rfl kind

lemma loadedBytes_of_fits (relocated : b.relocations.foldlM (b.relocate symbols) b.contents = .ok c)
    (mem : s ∈ b.sections) (kind : s.kind ≠ .bss) {offset count : Nat}
    (inside : offset + count ≤ s.fileSize) :
    loadedBytes (b.fileBytes c) (s.address + offset) count =
      (slice (c.part s.kind) offset (offset + count)).map some := by
  have length : (slice (c.part s.kind) offset (offset + count)).length = count := by
    rw [slice, length_take, length_drop, length_part_relocated relocated, length_contents s mem]
    omega
  nth_rewrite 1 [← length]
  refine loadedBytes_eq fun j low => ?_
  rw [length] at low
  rw [add_assoc, loadedByte?_part (.of_dataEnd fits) relocated mem kind (by omega), getElem?_slice,
    if_pos (by omega)]

end

end

end Blueprint

section

variable {b : Blueprint} {symbols : SymbolTable} {image : Image}

end

end AgentCompiler
