import AgentCompiler.Proofs.Relocation

/-!
Where the parts of an image stand in its file. The tables come first; after them the sections are
added one by one, each at its offset, and none reaches into the next one. So every section can be
cut out of the file again, and so can the tables.
-/

namespace AgentCompiler

open List

namespace Image

def section? (image : Image) (kind : SectionKind) : Option PlacedSection := image.sections.find?
    (·.kind = kind)

def sectionBytes (image : Image) (s : PlacedSection) : Bytes :=
  slice image.bytes s.fileOffset (s.fileOffset + s.fileSize)

end Image

namespace Blueprint

variable {b : Blueprint} {c : Contents} {s : PlacedSection}

section

variable {file bytes : Bytes} {s : PlacedSection} {later : List PlacedSection} {start stop : Nat}

lemma addSection_of_some (h : c.get? s.kind = some bytes) (file : Bytes) :
    addSection c file s = resize file s.fileOffset ++ bytes := by
  rw [addSection, h]

lemma slice_addSection (hs : stop ≤ s.fileOffset) (filed : stop ≤ file.length) :
      stop ≤ (addSection c file s).length ∧ slice (addSection c file s) start stop =
      slice file start stop := by
  cases read : c.get? s.kind with
  | none =>
    rw [addSection, read]
    exact ⟨filed, rfl⟩
  | some bytes =>
    rw [addSection_of_some read]
    constructor
    · rw [length_append, length_resize]
      omega
    · apply slice_congr
      intro x _ hx
      rw [getElem?_append_left (by rw [length_resize]; omega), resize,
        getElem?_append_left (by rw [length_take]; omega), getElem?_take_of_lt (by omega)]

lemma slice_foldl_addSection (hlater : ∀ s ∈ later, stop ≤ s.fileOffset)
    (filed : stop ≤ file.length) :
    stop ≤ (later.foldl (addSection c) file).length ∧
      slice (later.foldl (addSection c) file) start stop = slice file start stop := by
  induction later generalizing file with
  | nil => exact ⟨filed, rfl⟩
  | cons s rest ih =>
    obtain ⟨length, sliced⟩ := slice_addSection (hlater s mem_cons_self) filed
    obtain ⟨length', slice'⟩ := ih (fun t ht => hlater t (mem_cons_of_mem s ht)) length
    exact ⟨length', slice'.trans sliced⟩

lemma slice_section (read : c.get? s.kind = some bytes)
    (hlater : ∀ t ∈ later, s.fileOffset + bytes.length ≤ t.fileOffset) :
    s.fileOffset + bytes.length ≤ ((s :: later).foldl (addSection c) file).length ∧
      slice ((s :: later).foldl (addSection c) file) s.fileOffset
      (s.fileOffset + bytes.length) = bytes := by
  have length : (addSection c file s).length = s.fileOffset + bytes.length := by
    rw [addSection_of_some read, length_append, length_resize]
  obtain ⟨ends, sliced⟩ := slice_foldl_addSection hlater length.symm.le
  refine ⟨ends, sliced.trans ?_⟩
  have middle := slice_append_middle (resize file s.fileOffset) bytes []
  rwa [append_nil, length_resize, ← addSection_of_some read] at middle

end

section

def tables (b : Blueprint) : Bytes := b.header.bytes ++ b.segments.flatMap (·.bytes)

section

variable (b : Blueprint)

lemma length_segments : b.segments.length = b.segmentCount := by
  unfold segments segmentCount
  cases b.hasRodata <;> cases b.hasData <;> rfl

lemma length_tables : b.tables.length = 64 + b.segmentCount * 56 := by
  simp [tables, length_flatMap, length_segments]

lemma length_tables_le : b.tables.length ≤ b.textOffset := by
  rw [length_tables]
  exact le_alignUp _ _

lemma textEnd_le_rodataOffset : b.textEnd ≤ b.rodataOffset := le_alignUp _ _

lemma textEnd_le_constantsEnd : b.textEnd ≤ b.constantsEnd := by
  have h := b.textEnd_le_rodataOffset
  unfold constantsEnd
  split <;> omega

lemma constantsEnd_le_dataOffset : b.constantsEnd ≤ b.dataOffset := le_alignUp _ _

lemma pairwise_sections : b.sections.Pairwise fun s t => s.fileOffset + s.fileSize ≤
    t.fileOffset := by
  have text := b.textEnd_le_rodataOffset
  have constants := b.textEnd_le_constantsEnd
  have data := b.constantsEnd_le_dataOffset
  have rodata : b.hasRodata = true → b.rodataOffset + b.rodata.size = b.constantsEnd := by
    intro h
    rw [constantsEnd, if_pos h]
  have ends : b.textOffset + b.text.length = b.textEnd := rfl
  have finish : b.dataEnd = b.dataOffset + b.data.size := rfl
  unfold sections
  cases hr : b.hasRodata <;> cases hd : b.hasData <;> cases hb : b.bss.isEmpty <;>
    simp [hr, placedText, placedRodata, placedData, placedBss] at rodata ⊢ <;> omega

end

lemma slice_fileBytes {bytes : Bytes} (hs : s ∈ b.sections) (read : c.get? s.kind = some bytes)
    (size : bytes.length = s.fileSize) : s.fileOffset + s.fileSize ≤ (b.fileBytes c).length ∧
      slice (b.fileBytes c) s.fileOffset (s.fileOffset + s.fileSize) = bytes := by
  have pairwise := b.pairwise_sections
  obtain ⟨before, later, sections⟩ := append_of_mem hs
  rw [sections, pairwise_append, pairwise_cons] at pairwise
  rw [fileBytes, sections, foldl_append, ← size]
  apply slice_section read
  intro t ht
  rw [size]
  exact pairwise.2.1.1 t ht

lemma exists_sections_eq_cons (b : Blueprint) : ∃ rest, b.sections = b.placedText :: rest := by
  simp only [sections, cons_append, nil_append]
  exact ⟨_, rfl⟩

lemma textOffset_le_fileOffset (hs : s ∈ b.sections) : b.textOffset ≤ s.fileOffset := by
  have pairwise := b.pairwise_sections
  obtain ⟨rest, sections⟩ := b.exists_sections_eq_cons
  rw [sections] at hs pairwise
  obtain rfl | hs := mem_cons.1 hs
  · exact le_rfl
  · exact le_self_add.trans ((pairwise_cons.1 pairwise).1 s hs)

lemma take_fileBytes (b : Blueprint) (c : Contents) : (b.fileBytes c).take b.tables.length =
    b.tables := by
  have hlater : ∀ s ∈ b.sections, b.tables.length ≤ s.fileOffset := fun s hs =>
    b.length_tables_le.trans (textOffset_le_fileOffset hs)
  have sliced : slice (b.fileBytes c) 0 b.tables.length = slice b.tables 0 b.tables.length :=
    (slice_foldl_addSection hlater le_rfl).2
  simpa [slice] using sliced

end

section

variable {symbols : SymbolTable} {image : Image}

section

variable (h : b.build symbols = .ok image)
include h

lemma build_ok : ∃ c, b.relocations.foldlM (b.relocate symbols) b.contents = .ok c ∧
      image = ⟨b.header, b.segments, b.sections, b.fileBytes c⟩ := by
  obtain ⟨c, hc, h⟩ := bind_ok.1 h
  exact ⟨c, hc, (pure_ok.1 h).symm⟩

lemma sectionBytes_build (same : b.relocations.foldlM (b.relocate symbols) b.contents = .ok c)
    (hs : s ∈ image.sections) (size : (b.contents.part s.kind).length = s.fileSize) :
    image.sectionBytes s = c.part s.kind := by
  obtain ⟨c', hc', rfl⟩ := build_ok h
  obtain rfl := Except.ok.inj (same.symm.trans hc')
  have size' : (c.part s.kind).length = s.fileSize := by
    rw [length_part_relocated same, size]
  cases read : c.get? s.kind with
  | some bytes =>
    have part : c.part s.kind = bytes := by rw [Contents.part, read, Option.getD_some]
    rw [part] at size' ⊢
    exact (slice_fileBytes hs read size').2
  | none =>
    have part : c.part s.kind = [] := by rw [Contents.part, read, Option.getD_none]
    rw [part] at size' ⊢
    simp [Image.sectionBytes, slice, ← size']

lemma section?_text : image.section? .text = some b.placedText := by
  obtain ⟨c, -, rfl⟩ := build_ok h
  obtain ⟨rest, sections⟩ := b.exists_sections_eq_cons
  simp [Image.section?, sections, placedText]

lemma sectionAddress?_eq (kind : SectionKind) : b.sectionAddress? kind = (image.section? kind).map
    (·.address) := by
  obtain ⟨c, -, rfl⟩ := build_ok h
  rfl

end

end

end Blueprint

end AgentCompiler
