import AgentCompiler.Proofs.FileLayout

/-!
Where the parts of an image stand in memory. As long as no address wraps around, addresses are load
address plus file offset. Then segments follow one another from page to page, and every section
lies within a segment: one with bytes in its file part, the zero-initialised one behind that.
-/

namespace AgentCompiler

open List

namespace Blueprint

structure IsAligned (b : Blueprint) : Prop where
  load : pageSize ∣ b.loadAddress
  sections : ∀ s ∈ [b.rodata, b.data, b.bss], isPowerOfTwo s.align = true ∧ s.align ≤ pageSize

/-- The end of data and zero-initialised section, on an unbounded line of addresses. -/
def imageEnd (b : Blueprint) : Nat := if b.bss.isEmpty then b.loadAddress + b.dataEnd
  else alignUp (b.loadAddress + b.dataEnd) b.bss.align + b.bss.size

structure FitsMemory (b : Blueprint) : Prop where
  text : b.loadAddress + b.textEnd < UInt64.size
  rodata : b.hasRodata = true → b.loadAddress + b.constantsEnd < UInt64.size
  data : b.hasData = true → b.imageEnd < UInt64.size
  entry : b.loadAddress + (b.textOffset + b.entryOffset) < UInt64.size

/-- No address of a section with bytes wraps around; the zero-initialised section may reach as far
as it likes. -/
structure FitsFile (b : Blueprint) : Prop where
  text : b.loadAddress + b.textEnd < UInt64.size
  rodata : b.hasRodata = true → b.loadAddress + b.constantsEnd < UInt64.size
  data : b.hasData = true → b.loadAddress + b.dataEnd < UInt64.size

variable {b : Blueprint}

section

lemma addressAt_eq {offset : Nat} (h : b.loadAddress + offset < UInt64.size) :
    b.addressAt offset = b.loadAddress + offset := toWord_eq_self h

lemma dataEnd_le_imageEnd (b : Blueprint) : b.loadAddress + b.dataEnd ≤ b.imageEnd := by
  have h := le_alignUp (b.loadAddress + b.dataEnd) b.bss.align
  unfold imageEnd
  split <;> omega

lemma dataOffset_le_dataEnd (b : Blueprint) : b.dataOffset ≤ b.dataEnd := le_self_add

lemma hasData_of_bss (bss : b.bss.isEmpty = false) : b.hasData = true := by
  simp [hasData, bss]

lemma bssAddress_eq (h : b.FitsMemory) (bss : b.bss.isEmpty = false) :
    b.bssAddress = alignUp (b.loadAddress + b.dataEnd) b.bss.align := by
  have ends := h.data (hasData_of_bss bss)
  rw [imageEnd, bss] at ends
  exact toWord_eq_self (le_self_add.trans_lt ends)

lemma FitsMemory.file (h : b.FitsMemory) : b.FitsFile :=
  ⟨h.text, h.rodata, fun hd => b.dataEnd_le_imageEnd.trans_lt (h.data hd)⟩

lemma memoryEnd_eq (h : b.FitsMemory) (data : b.hasData = true) : b.memoryEnd = b.imageEnd := by
  have ends := h.data data
  have le := b.dataEnd_le_imageEnd
  have start := addressAt_eq (h.file.data data)
  cases bss : b.bss.isEmpty with
  | true => simp [memoryEnd, imageEnd, bss, start]
  | false =>
    simp only [imageEnd, bss, Bool.false_eq_true, ↓reduceIte] at ends le ⊢
    simp only [memoryEnd, bss, Bool.false_eq_true, ↓reduceIte, start, bssAddress_eq h bss,
      toWord_eq_self ends]
    omega

def rodataSegment (b : Blueprint) : Segment :=
  .load 4 b.rodataOffset (b.loadAddress + b.rodataOffset) b.rodata.size b.rodata.size

def dataSegment (b : Blueprint) : Segment := .load 6 b.dataOffset (b.loadAddress + b.dataOffset)
    b.data.size (b.imageEnd - (b.loadAddress + b.dataOffset))

/-- The same segment, whose memory ends where the addresses say, even if those behind the file part
wrap around. -/
def writableSegment (b : Blueprint) : Segment := .load 6 b.dataOffset (b.loadAddress + b.dataOffset)
    b.data.size (b.memoryEnd - (b.loadAddress + b.dataOffset))

namespace FitsFile

variable (h : b.FitsFile)
include h

lemma textAddress : b.addressAt b.textOffset = b.loadAddress + b.textOffset := by
  have ends := h.text
  rw [textEnd] at ends
  exact addressAt_eq (by omega)

lemma rodataAddress (same : b.hasRodata = true) : b.addressAt b.rodataOffset = b.loadAddress +
    b.rodataOffset := by
  have ends := h.rodata same
  rw [constantsEnd, if_pos same] at ends
  exact addressAt_eq (by omega)

lemma dataAddress (same : b.hasData = true) : b.addressAt b.dataOffset = b.loadAddress +
    b.dataOffset :=
  addressAt_eq ((Nat.add_le_add_left b.dataOffset_le_dataEnd _).trans_lt (h.data same))

lemma le_memoryEnd (below : b.hasData = true) : b.loadAddress + b.dataEnd ≤ b.memoryEnd ∧
    b.memoryEnd < UInt64.size := by
  have ends := h.data below
  have word := toWord_lt (b.bssAddress + b.bss.size)
  simp only [memoryEnd, addressAt_eq ends]
  split <;> omega

lemma segments_eq : b.segments = [b.codeSegment] ++
    (if b.hasRodata then [b.rodataSegment] else []) ++
    (if b.hasData then [b.writableSegment] else []) := by
  have rodata := h.rodataAddress
  have data := h.dataAddress
  have span : b.hasData = true → distanceUp (b.loadAddress + b.dataOffset) b.memoryEnd =
      b.memoryEnd - (b.loadAddress + b.dataOffset) := by
    intro hd
    obtain ⟨le, lt⟩ := h.le_memoryEnd hd
    have start := b.dataOffset_le_dataEnd
    exact distanceUp_of_le (by omega) lt
  simp only [segments, rodataSegment, writableSegment]
  cases hr : b.hasRodata <;> cases hd : b.hasData <;> simp_all

end FitsFile

lemma textAddress_eq (h : b.FitsMemory) :
    b.addressAt b.textOffset = b.loadAddress + b.textOffset := h.file.textAddress

lemma segments_eq (h : b.FitsMemory) :
    b.segments = [b.codeSegment] ++ (if b.hasRodata then [b.rodataSegment] else []) ++
      (if b.hasData then [b.dataSegment] else []) := by
  rw [h.file.segments_eq]
  cases hd : b.hasData with
  | false => rfl
  | true => rw [writableSegment, memoryEnd_eq h hd, dataSegment]

end

section

lemma forall_mem_segments {motive : Segment → Prop} (h : b.FitsFile)
    (code : motive b.codeSegment) (rodata : b.hasRodata = true → motive b.rodataSegment)
    (data : b.hasData = true → motive b.writableSegment) : ∀ s ∈ b.segments, motive s := by
  intro s hs
  simp only [h.segments_eq, mem_append, mem_ite_nil_right, mem_singleton] at hs
  obtain (rfl | ⟨hr, rfl⟩) | ⟨hd, rfl⟩ := hs
  · exact code
  · exact rodata hr
  · exact data hd

lemma forall_mem_sections {motive : PlacedSection → Prop} (text : motive b.placedText)
    (rodata : b.hasRodata = true → motive b.placedRodata)
    (data : b.hasData = true → motive b.placedData)
    (bss : b.bss.isEmpty = false → motive b.placedBss) : ∀ s ∈ b.sections, motive s := by
  intro s hs
  simp only [sections, mem_append, mem_ite_nil_right, mem_ite_nil_left,
    mem_singleton, Bool.not_eq_true] at hs
  obtain ((rfl | ⟨hr, rfl⟩) | ⟨hd, rfl⟩) | ⟨hb, rfl⟩ := hs
  · exact text
  · exact rodata hr
  · exact data hd
  · exact bss hb

end

section

lemma pageSize_dvd_rodataOffset (b : Blueprint) : pageSize ∣ b.rodataOffset := dvd_alignUp rfl

lemma pageSize_dvd_dataOffset (b : Blueprint) : pageSize ∣ b.dataOffset := dvd_alignUp rfl

lemma FitsFile.pairwise_segments (h : b.FitsFile) :
    b.segments.Pairwise fun s t => s.address + s.memSize ≤ t.address := by
  have text := b.textEnd_le_rodataOffset
  have constants := b.textEnd_le_constantsEnd
  have next := b.constantsEnd_le_dataOffset
  have ends : b.hasRodata = true → b.rodataOffset + b.rodata.size = b.constantsEnd := by
    intro hr
    rw [constantsEnd, if_pos hr]
  rw [h.segments_eq]
  cases hr : b.hasRodata <;> cases hd : b.hasData <;>
    simp [hr, codeSegment, rodataSegment, writableSegment, Segment.load] at ends ⊢ <;> omega

lemma pairwise_segments (align : b.IsAligned) (h : b.FitsMemory) :
    b.segments.Pairwise fun s t => s.address + s.memSize ≤ t.address ∧ pageSize ∣ t.address := by
  have pages : ∀ s ∈ b.segments, pageSize ∣ s.address := forall_mem_segments h.file align.load
    (fun _ => dvd_add align.load b.pageSize_dvd_rodataOffset)
    (fun _ => dvd_add align.load b.pageSize_dvd_dataOffset)
  exact h.file.pairwise_segments.imp_of_mem fun _ ht le => ⟨le, pages _ ht⟩

lemma dvd_pageSize {n : Nat} (h : isPowerOfTwo n = true) (le : n ≤ pageSize) : n ∣ pageSize := by
  obtain ⟨k, rfl⟩ := isPowerOfTwo_iff.1 h
  have below : k ≤ 12 := (Nat.pow_le_pow_iff_right (by decide)).1 le
  exact Nat.pow_dvd_pow 2 below

end

section

variable {symbols : SymbolTable} {c : Contents}
  (hc : b.relocations.foldlM (b.relocate symbols) b.contents = .ok c)

lemma length_contents : ∀ s ∈ b.sections, (b.contents.part s.kind).length = s.fileSize := by
  apply forall_mem_sections
  · rfl
  · intro _
    simp only [placedRodata, DataSection.size, b.rodata_kind]
    rfl
  · intro _
    simp only [placedData, DataSection.size, b.data_kind]
    rfl
  · intro _
    rfl

include hc

lemma getElem?_fileBytes {s : PlacedSection} (hs : s ∈ b.sections) (kind : s.kind ≠ .bss) :
    s.fileOffset + s.fileSize ≤ (b.fileBytes c).length ∧
      ∀ j < s.fileSize, (b.fileBytes c)[s.fileOffset + j]? = (c.part s.kind)[j]? := by
  have bytes : c.get? s.kind = some (c.part s.kind) := by
    cases hk : s.kind <;> first | rfl | exact absurd hk kind
  have size : (c.part s.kind).length = s.fileSize := by
    rw [length_part_relocated hc, length_contents s hs]
  obtain ⟨ends, slice⟩ := slice_fileBytes hs bytes size
  refine ⟨ends, ?_⟩
  intro j hj
  rw [← slice, getElem?_slice, if_pos (by omega)]

end

section

lemma exists_segment (h : b.FitsFile) : ∀ s ∈ b.sections, s.kind ≠ .bss → s.memSize = s.fileSize ∧
      ∃ t ∈ b.segments, t.fileSize ≤ t.memSize ∧ s.address + t.offset = t.address + s.fileOffset ∧
        t.offset ≤ s.fileOffset ∧ s.fileOffset + s.fileSize ≤ t.offset + t.fileSize := by
  have segments := h.segments_eq
  apply forall_mem_sections
  · intro _
    refine ⟨rfl, b.codeSegment, by simp [segments], ?_⟩
    simp [placedText, codeSegment, Segment.load, h.textAddress, textEnd]
  · intro hr _
    refine ⟨rfl, b.rodataSegment, by simp [segments, hr], ?_⟩
    simp [placedRodata, rodataSegment, Segment.load, h.rodataAddress hr]
  · intro hd _
    obtain ⟨le, -⟩ := h.le_memoryEnd hd
    rw [dataEnd] at le
    have room : b.data.size ≤ b.memoryEnd - (b.loadAddress + b.dataOffset) := by omega
    refine ⟨rfl, b.writableSegment, by simp [segments, hd], ?_⟩
    simpa [placedData, writableSegment, Segment.load, h.dataAddress hd] using room
  · intro _ kind
    exact absurd rfl kind

end

end Blueprint

end AgentCompiler
