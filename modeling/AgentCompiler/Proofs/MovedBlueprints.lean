import AgentCompiler.Proofs.Loading

/-!
One image at two load addresses. All addresses of the second are those of the first plus the
distance between the two, so that the distances which code stores come out the same, and relocation
ends alike for both. The files differ in the addresses of their tables and where the data holds
addresses, and nowhere else.
-/

namespace AgentCompiler

open List Segment

section

variable {α β γ δ : Type} {R : α → β → Prop} {S : γ → δ → Prop} {x : Outcome α} {y : Outcome β}

/-- Two computations end alike: with related results, or with the same error. -/
def EndAlike (R : α → β → Prop) : Outcome α → Outcome β → Prop
  | .ok a, .ok b => R a b
  | .error d, .error e => d = e
  | _, _ => False

lemma EndAlike.bind {f : α → Outcome γ} {g : β → Outcome δ} (alike : EndAlike R x y)
    (next : ∀ a b, R a b → EndAlike S (f a) (g b)) : EndAlike S (x >>= f) (y >>= g) := by
  cases x <;> cases y <;> first | exact alike.elim | exact alike | exact next _ _ alike

lemma EndAlike.foldlM {f : α → γ → Outcome α} {g : β → γ → Outcome β} {items : List γ}
    (step : ∀ item ∈ items, ∀ a b, R a b → EndAlike R (f a item) (g b item)) {a : α} {b : β}
    (start : R a b) : EndAlike R (items.foldlM f a) (items.foldlM g b) := by
  induction items generalizing a b with
  | nil => exact start
  | cons item rest ih =>
    rw [forall_mem_cons] at step
    rw [foldlM_cons, foldlM_cons]
    exact (step.1 a b start).bind fun a b related => ih step.2 related

lemma EndAlike.error_iff (alike : EndAlike R x y) {d : Diagnostic} : x = .error d ↔
    y = .error d := by
  cases x <;> cases y <;> first | exact alike.elim | simp
  rw [show _ = _ from alike]

lemma EndAlike.exists_ok (alike : EndAlike R x y) {a : α} (ok : x = .ok a) : ∃ b, y = .ok b ∧
    R a b := by
  subst ok
  cases y with
  | error => exact alike.elim
  | ok b => exact ⟨b, rfl, alike⟩

end

structure Contents.Matches (c c' : Contents) : Prop where
  text : c.text = c'.text
  rodata : c.rodata = c'.rodata
  data : c.data.length = c'.data.length

namespace Contents.Matches

variable {c c' : Contents}

lemma get? (alike : c.Matches c') (kind : SectionKind) : Option.Rel
    (fun bytes bytes' => bytes.length = bytes'.length ∧ (kind ≠ .data → bytes = bytes'))
    (c.get? kind) (c'.get? kind) := by
  cases kind with
  | text => exact .some ⟨congrArg List.length alike.text, fun _ => alike.text⟩
  | rodata => exact .some ⟨congrArg List.length alike.rodata, fun _ => alike.rodata⟩
  | data => exact .some ⟨alike.data, fun other => absurd rfl other⟩
  | bss => exact .none

lemma set (alike : c.Matches c') {kind : SectionKind} {bytes bytes' : Bytes}
    (length : bytes.length = bytes'.length) (same : kind ≠ .data → bytes = bytes') :
    (c.set kind bytes).Matches (c'.set kind bytes') := by
  cases kind with
  | text => exact ⟨same (by decide), alike.rodata, alike.data⟩
  | rodata => exact ⟨alike.text, same (by decide), alike.data⟩
  | data => exact ⟨alike.text, alike.rodata, length⟩
  | bss => exact alike

end Contents.Matches

structure PlacedSection.Moves (related : Nat → Nat → Prop) (s t : PlacedSection) : Prop where
  rest : t = { s with address := t.address }
  address : related s.address t.address

structure Segment.MovesBy (distance : Int) (s t : Segment) : Prop where
  rest : t = { s with address := t.address, physical := t.physical }
  address : (t.address : Int) = s.address + distance
  physical : (t.physical : Int) = s.physical + distance

namespace Blueprint

def movedTo (b : Blueprint) (address : Nat) : Blueprint := { b with loadAddress := address }

variable {b : Blueprint} {y : Nat} {symbols : SymbolTable} {c c' : Contents} {r : Relocation}

section

/-- Both load addresses start pages, and the zero-initialised section needs no more than that. -/
structure CanMove (b : Blueprint) (y : Nat) : Prop where
  load : pageSize ∣ b.loadAddress
  goal : pageSize ∣ y
  bss : isPowerOfTwo b.bss.align = true ∧ b.bss.align ≤ pageSize

def Follows (b : Blueprint) (y p q : Nat) : Prop := q + b.loadAddress ≡ p + y [MOD UInt64.size]

lemma alignUp_add {load value align : Nat} (power : isPowerOfTwo align = true)
    (dvd : align ∣ load) :
    alignUp (load + value) align = load + alignUp value align := by
  obtain ⟨k, rfl⟩ := dvd
  have positive : 0 < align := by
    obtain ⟨n, rfl⟩ := isPowerOfTwo_iff.1 power
    exact Nat.two_pow_pos n
  rw [alignUp_eq_mul power, alignUp_eq_mul power, add_assoc, Nat.mul_add_div positive, mul_add]

lemma follows_addressAt (b : Blueprint) (y offset : Nat) :
    b.Follows y (b.addressAt offset) ((b.movedTo y).addressAt offset) := by
  simp only [Follows, Nat.ModEq, addressAt, movedTo, toWord, UInt64.size]
  omega

lemma alignUp_dataEnd (move : b.CanMove y) :
    alignUp (b.loadAddress + b.dataEnd) b.bss.align = b.loadAddress + alignUp b.dataEnd
      b.bss.align ∧ alignUp (y + b.dataEnd) b.bss.align = y + alignUp b.dataEnd b.bss.align :=
  have page := dvd_pageSize move.bss.1 move.bss.2
  ⟨alignUp_add move.bss.1 (page.trans move.load), alignUp_add move.bss.1 (page.trans move.goal)⟩

lemma follows_bssAddress (move : b.CanMove y) : b.Follows y b.bssAddress
    (b.movedTo y).bssAddress := by
  obtain ⟨here, there⟩ := alignUp_dataEnd move
  have moved : (b.movedTo y).bssAddress = toWord (alignUp (y + b.dataEnd) b.bss.align) := rfl
  rw [Follows, moved, there, bssAddress, here]
  simp only [Nat.ModEq, toWord, UInt64.size]
  omega

lemma forall₂_sections {R : PlacedSection → PlacedSection → Prop}
    (text : R b.placedText (b.movedTo y).placedText)
    (rodata : b.hasRodata = true → R b.placedRodata (b.movedTo y).placedRodata)
    (data : b.hasData = true → R b.placedData (b.movedTo y).placedData)
    (bss : b.bss.isEmpty = false → R b.placedBss (b.movedTo y).placedBss) :
    List.Forall₂ R b.sections (b.movedTo y).sections := by
  have same : (b.movedTo y).sections = [(b.movedTo y).placedText] ++
      (if b.hasRodata then [(b.movedTo y).placedRodata] else []) ++
      (if b.hasData then [(b.movedTo y).placedData] else []) ++
      (if b.bss.isEmpty then [] else [(b.movedTo y).placedBss]) := rfl
  rw [same, sections]
  cases hr : b.hasRodata <;> cases hd : b.hasData <;> cases hb : b.bss.isEmpty <;> simp_all

lemma sections_follow (move : b.CanMove y) :
    List.Forall₂ (PlacedSection.Moves (b.Follows y)) b.sections (b.movedTo y).sections :=
  forall₂_sections ⟨rfl, follows_addressAt b y _⟩ (fun _ => ⟨rfl, follows_addressAt b y _⟩)
    (fun _ => ⟨rfl, follows_addressAt b y _⟩) (fun _ => ⟨rfl, follows_bssAddress move⟩)

lemma find?_moved {A : Nat → Nat → Prop} {sections moved : List PlacedSection} (kind : SectionKind)
    (all : List.Forall₂ (PlacedSection.Moves A) sections moved) :
    Option.Rel (PlacedSection.Moves A) (sections.find? (·.kind = kind))
        (moved.find? (·.kind = kind)) := by
  induction all with
  | nil => exact .none
  | @cons s t sections moved first _ ih =>
    have same : t.kind = s.kind := by rw [first.rest]
    rw [find?_cons, find?_cons, same]
    cases decide (s.kind = kind) with
    | true => exact .some first
    | false => exact ih

lemma sectionAddress?_follows (move : b.CanMove y) (kind : SectionKind) :
    Option.Rel (b.Follows y) (b.sectionAddress? kind) ((b.movedTo y).sectionAddress? kind) := by
  have found := find?_moved kind (sections_follow move)
  rw [sectionAddress?, sectionAddress?]
  generalize b.sections.find? _ = s at found ⊢
  generalize (b.movedTo y).sections.find? _ = t at found ⊢
  cases found with
  | none => exact .none
  | some moves => exact .some moves.address

end

section

lemma symbolAddress_alike (move : b.CanMove y) (s : Symbol) :
    EndAlike (b.Follows y) (b.symbolAddress s) ((b.movedTo y).symbolAddress s) := by
  have follows := sectionAddress?_follows move s.kind
  rw [symbolAddress, symbolAddress]
  generalize b.sectionAddress? s.kind = p at follows ⊢
  generalize (b.movedTo y).sectionAddress? s.kind = q at follows ⊢
  cases follows with
  | none => exact rfl
  | some follows =>
    cases s.isBound with
    | false => exact rfl
    | true =>
      simp only [Follows, Nat.ModEq, UInt64.size] at follows
      simp only [EndAlike, pure, Except.pure, Follows, Nat.ModEq, toWord, UInt64.size, ↓reduceIte]
      omega

lemma toSignedWord_follows {goal goal' place place' : Nat} (follows : b.Follows y goal goal')
    (follows' : b.Follows y place place') (addend : Int) :
    toSignedWord (goal' + addend - place') = toSignedWord (goal + addend - place) := by
  have same : (goal' + addend - place' : Int) % UInt64.size = (goal + addend - place) %
      UInt64.size := by
    simp only [Follows, Nat.ModEq, UInt64.size] at follows follows' ⊢
    omega
  rw [toSignedWord, toSignedWord, ← Int.emod_bmod, same, Int.emod_bmod]

lemma patchFor_alike {goal goal' place place' : Nat} (follows : b.Follows y goal goal')
    (follows' : b.Follows y place place') (name : String) :
    EndAlike (fun patch patch' => patch.length = r.kind.width ∧ patch'.length = r.kind.width ∧
      (r.kind = .relative → patch = patch')) (patchFor r name goal place)
      (patchFor r name goal' place') := by
  cases kind : r.kind with
  | absolute => simp [patchFor, kind, EndAlike, pure, Except.pure, RelocationKind.width]
  | relative =>
    simp only [patchFor, kind, toSignedWord_follows follows follows']
    split <;> simp [EndAlike, pure, Except.pure, throw, throwThe, MonadExceptOf.throw,
      RelocationKind.width]

lemma relocate_alike (move : b.CanMove y) (data : r.kind = .absolute → r.site = .data)
    (alike : c.Matches c') :
    EndAlike Contents.Matches (b.relocate symbols c r) ((b.movedTo y).relocate symbols c' r) := by
  rw [relocate, relocate]
  cases symbols.read r.symbol with
  | error d => rfl
  | ok s =>
    change EndAlike _ (b.symbolAddress s >>= _) ((b.movedTo y).symbolAddress s >>= _)
    refine (symbolAddress_alike move s).bind fun goal goal' follows => ?_
    have start := sectionAddress?_follows move r.site
    generalize b.sectionAddress? r.site = place at start ⊢
    generalize (b.movedTo y).sectionAddress? r.site = place' at start ⊢
    cases start with
    | none => rfl
    | @some place place' follows' =>
      have bytes := alike.get? r.site
      generalize c.get? r.site = old at bytes ⊢
      generalize c'.get? r.site = old' at bytes ⊢
      cases bytes with
      | none => rfl
      | @some old old' same =>
        dsimp only
        rw [← same.1]
        split
        next inside =>
          have moved : b.Follows y (place + r.offset) (place' + r.offset) := by
            have sum := Nat.ModEq.add_right r.offset follows'
            simpa only [Follows, add_right_comm] using sum
          refine (patchFor_alike follows moved s.name).bind fun patch patch' patches => ?_
          obtain ⟨size, size', equal⟩ := patches
          refine alike.set ?_ fun code => ?_
          · rw [length_overwrite (size ▸ inside), length_overwrite (size' ▸ same.1 ▸ inside),
              same.1]
          · have relative : r.kind = .relative := by
              cases kind : r.kind with
              | absolute => exact absurd (data kind) code
              | relative => rfl
            rw [same.2 code, equal relative]
        next => rfl

lemma relocations_alike (move : b.CanMove y) (data : ∀ r ∈ b.relocations, r.kind = .absolute →
    r.site = .data) :
    EndAlike Contents.Matches (b.relocations.foldlM (b.relocate symbols) b.contents)
      ((b.movedTo y).relocations.foldlM ((b.movedTo y).relocate symbols)
      (b.movedTo y).contents) := by
  have start : b.contents.Matches b.contents := ⟨rfl, rfl, rfl⟩
  exact EndAlike.foldlM (f := b.relocate symbols) (g := (b.movedTo y).relocate symbols)
    (fun r mem _ _ => relocate_alike move (data r mem)) start

end

section

def distanceTo (b : Blueprint) (y : Nat) : Int := y - b.loadAddress

lemma shift_eq {p q offset : Nat} (here : p = b.loadAddress + offset) (there : q = y + offset) :
    (q : Int) = p + b.distanceTo y := by
  rw [here, there, distanceTo]
  omega

section

variable (move : b.CanMove y) (here : b.FitsMemory) (there : (b.movedTo y).FitsMemory)
include move here there

lemma sections_move :
    List.Forall₂ (PlacedSection.Moves fun p q => (q : Int) = p + b.distanceTo y) b.sections
        (b.movedTo y).sections := by
  obtain ⟨start, start'⟩ := alignUp_dataEnd move
  refine forall₂_sections ⟨rfl, ?_⟩ (fun hr => ⟨rfl, ?_⟩) (fun hd => ⟨rfl, ?_⟩)
    (fun hb => ⟨rfl, ?_⟩)
  · exact shift_eq (textAddress_eq here) (textAddress_eq there)
  · exact shift_eq (here.file.rodataAddress hr) (there.file.rodataAddress hr)
  · exact shift_eq (here.file.dataAddress hd) (there.file.dataAddress hd)
  · exact shift_eq ((bssAddress_eq here hb).trans start) ((bssAddress_eq there hb).trans start')

lemma segments_move : List.Forall₂ (MovesBy (b.distanceTo y)) b.segments
    (b.movedTo y).segments := by
  obtain ⟨start, start'⟩ := alignUp_dataEnd move
  have code : MovesBy (b.distanceTo y) b.codeSegment (b.movedTo y).codeSegment := by
    have shift := shift_eq (add_zero b.loadAddress).symm (add_zero y).symm
    exact ⟨rfl, shift, shift⟩
  have constants : MovesBy (b.distanceTo y) b.rodataSegment (b.movedTo y).rodataSegment :=
    ⟨rfl, shift_eq rfl rfl, shift_eq rfl rfl⟩
  have size : (b.movedTo y).imageEnd - (y + b.dataOffset) =
      b.imageEnd - (b.loadAddress + b.dataOffset) := by
    have moved : (b.movedTo y).imageEnd = if b.bss.isEmpty then y + b.dataEnd
      else alignUp (y + b.dataEnd) b.bss.align + b.bss.size := rfl
    rw [moved, imageEnd, start, start']
    split <;> omega
  have data : MovesBy (b.distanceTo y) b.dataSegment (b.movedTo y).dataSegment := by
    refine ⟨?_, shift_eq rfl rfl, shift_eq rfl rfl⟩
    rw [dataSegment, dataSegment, ← size]
    rfl
  have same : (b.movedTo y).segments = [(b.movedTo y).codeSegment] ++
      (if b.hasRodata then [(b.movedTo y).rodataSegment] else []) ++
      (if b.hasData then [(b.movedTo y).dataSegment] else []) := segments_eq there
  rw [same, segments_eq here]
  cases hr : b.hasRodata <;> cases hd : b.hasData <;> simp_all

end

end

end Blueprint

section

structure AgreeOutside (places : Set Nat) (first second : Bytes) : Prop where
  length : first.length = second.length
  bytes : ∀ x ∉ places, first[x]? = second[x]?

namespace AgreeOutside

variable {places : Set Nat} {f f' g g' : Bytes}

lemma refl (places : Set Nat) (f : Bytes) : AgreeOutside places f f := ⟨rfl, fun _ _ => rfl⟩

lemma mono {larger : Set Nat} (agree : AgreeOutside places f f') (inside : places ⊆ larger) :
    AgreeOutside larger f f' := ⟨agree.length, fun x outside => agree.bytes x fun own =>
      outside (inside own)⟩

lemma append (first : AgreeOutside places f f')
    (second : AgreeOutside {j | f.length + j ∈ places} g g') :
    AgreeOutside places (f ++ g) (f' ++ g') := by
  refine ⟨by simp [first.length, second.length], fun x outside => ?_⟩
  by_cases low : x < f.length
  · rw [getElem?_append_left low, getElem?_append_left (first.length ▸ low)]
    exact first.bytes x outside
  · rw [getElem?_append_right (by omega), getElem?_append_right (first.length ▸ not_lt.1 low),
      ← first.length]
    have place := Nat.add_sub_cancel' (not_lt.1 low)
    exact second.bytes _ fun inside => outside (place ▸ inside)

lemma middle {left right : Bytes} (length : f.length = f'.length)
    (covered : ∀ j < f.length, left.length + j ∈ places) :
    AgreeOutside places (left ++ f ++ right) (left ++ f' ++ right) := by
  refine ((refl places left).append ⟨length, fun j outside => ?_⟩).append (refl _ right)
  have high := not_lt.1 fun low => outside (covered j low)
  rw [getElem?_eq_none high, getElem?_eq_none (length ▸ high)]

lemma resize (agree : AgreeOutside places f f') (size : Nat) :
    AgreeOutside places (AgentCompiler.resize f size) (AgentCompiler.resize f' size) := by
  rw [AgentCompiler.resize, AgentCompiler.resize, agree.length]
  refine append ⟨by simp [agree.length], fun x outside => ?_⟩ (refl _ _)
  rw [getElem?_take, getElem?_take, agree.bytes x outside]

end AgreeOutside

def entryField : Set Nat := Set.Ico 24 32

def addressFields (count : Nat) : Set Nat := {x | ∃ k < count, 56 * k + 16 ≤ x ∧ x < 56 * k + 32}

lemma FileHeader.agree_bytes (h : FileHeader) (entry : Nat) :
    AgreeOutside entryField h.bytes { h with entry }.bytes := by
  have split (h : FileHeader) : h.bytes = (identification ++ littleEndian 2 h.fileType ++
      littleEndian 2 h.machine ++ littleEndian 4 h.version) ++ littleEndian 8 h.entry ++
      (littleEndian 8 h.segmentTable ++ littleEndian 8 h.sectionTable ++ littleEndian 4 h.flags ++
      littleEndian 2 h.headerSize ++ littleEndian 2 h.segmentEntrySize ++
      littleEndian 2 h.segmentCount ++ littleEndian 2 h.sectionEntrySize ++
      littleEndian 2 h.sectionCount ++ littleEndian 2 h.sectionNames) := by
    simp [bytes]
  rw [split, split]
  refine .middle (by simp) fun j low => ?_
  have start : identification.length = 16 := rfl
  simp only [length_append, length_littleEndian, start] at low ⊢
  exact ⟨by omega, by omega⟩

lemma Segment.agree_bytes (s : Segment) (address physical : Nat) :
    AgreeOutside (Set.Ico 16 32) s.bytes { s with address, physical }.bytes := by
  have split (s : Segment) : s.bytes = (littleEndian 4 s.kind ++ littleEndian 4 s.flags ++
      littleEndian 8 s.offset) ++ (littleEndian 8 s.address ++ littleEndian 8 s.physical) ++
      (littleEndian 8 s.fileSize ++ littleEndian 8 s.memSize ++ littleEndian 8 s.align) := by
    simp [bytes]
  rw [split, split]
  refine .middle (by simp) fun j low => ?_
  simp only [length_append, length_littleEndian] at low ⊢
  exact ⟨by omega, by omega⟩

lemma agree_segmentTable {distance : Int} {segments moved : List Segment}
    (all : List.Forall₂ (MovesBy distance) segments moved) :
    AgreeOutside (addressFields segments.length) (segments.flatMap (·.bytes))
        (moved.flatMap (·.bytes)) := by
  induction all with
  | nil => exact .refl _ _
  | @cons s t segments moved first _ ih =>
    rw [flatMap_cons, flatMap_cons]
    have here : AgreeOutside (addressFields (segments.length + 1)) s.bytes t.bytes := by
      rw [first.rest]
      obtain ⟨length, bytes⟩ := s.agree_bytes t.address t.physical
      refine ⟨length, fun x outside => bytes x fun inside => outside ⟨0, by omega, ?_⟩⟩
      exact ⟨inside.1, inside.2⟩
    refine here.append ⟨ih.length, fun x outside => ih.bytes x ?_⟩
    rintro ⟨k, low, start, finish⟩
    refine outside ⟨k + 1, by simp; omega, ?_⟩
    rw [length_bytes]
    omega

namespace Blueprint

variable {b : Blueprint} {y : Nat} {c c' : Contents} {places : Set Nat} {related : Nat → Nat → Prop}

lemma agree_addSection {s t : PlacedSection} {file file' : Bytes} (moves : s.Moves related t)
    (files : AgreeOutside places file file')
    (parts : AgreeOutside {j | s.fileOffset + j ∈ places} (c.part s.kind) (c'.part s.kind)) :
    AgreeOutside places (addSection c file s) (addSection c' file' t) := by
  have kind : t.kind = s.kind := by rw [moves.rest]
  have offset : t.fileOffset = s.fileOffset := by rw [moves.rest]
  have sections {bytes bytes' : Bytes} (part : AgreeOutside {j | s.fileOffset + j ∈ places} bytes
    bytes') :
      AgreeOutside places (resize file s.fileOffset ++ bytes)
          (resize file' s.fileOffset ++ bytes') :=
    (files.resize _).append (by rwa [length_resize])
  rw [addSection, addSection, kind, offset]
  cases isKind : s.kind <;> rw [isKind] at parts
  · exact sections parts
  · exact sections parts
  · exact sections parts
  · exact files

lemma agree_sections {sections moved : List PlacedSection}
    (all : List.Forall₂ (PlacedSection.Moves related) sections moved)
    (parts : ∀ s ∈ sections, AgreeOutside {j | s.fileOffset + j ∈ places} (c.part s.kind)
    (c'.part s.kind)) {file file' : Bytes} (files : AgreeOutside places file file') :
    AgreeOutside places (sections.foldl (addSection c) file)
        (moved.foldl (addSection c') file') := by
  induction all generalizing file file' with
  | nil => exact files
  | cons first _ ih =>
    rw [forall_mem_cons] at parts
    exact ih parts.2 (agree_addSection first files parts.1)

lemma agree_fileBytes (move : b.CanMove y) (here : b.FitsMemory) (there : (b.movedTo y).FitsMemory)
    (alike : c.Matches c') {stored : Set Nat} (data : AgreeOutside stored c.data c'.data) :
    AgreeOutside (entryField ∪ {x | 64 ≤ x ∧ x - 64 ∈ addressFields b.segments.length} ∪
      {x | b.dataOffset ≤ x ∧ x - b.dataOffset ∈ stored}) (b.fileBytes c)
      ((b.movedTo y).fileBytes c') := by
  refine agree_sections (sections_move move here there) (forall_mem_sections ?_ ?_ ?_ ?_)
    (.append ?_ ?_)
  · change AgreeOutside _ c.text c'.text
    rw [alike.text]
    exact .refl _ _
  · intro _
    change AgreeOutside _ c.rodata c'.rodata
    rw [alike.rodata]
    exact .refl _ _
  · intro _
    refine data.mono fun j inside => .inr ⟨le_self_add, ?_⟩
    rwa [placedData, Nat.add_sub_cancel_left]
  · exact fun _ => .refl _ _
  · exact (b.header.agree_bytes _).mono fun x inside => .inl (.inl inside)
  · refine (agree_segmentTable (segments_move move here there)).mono fun j inside =>
      .inl (.inr ⟨?_, ?_⟩)
    all_goals rw [FileHeader.length_bytes]
    · omega
    · rwa [Nat.add_sub_cancel_left]

end Blueprint

end

end AgentCompiler
