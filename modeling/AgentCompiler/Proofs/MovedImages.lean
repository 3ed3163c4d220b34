import AgentCompiler.Proofs.InitialState
import AgentCompiler.Proofs.MovedBlueprints
import AgentCompiler.Proofs.PositionIndependence
import AgentCompiler.Proofs.StorageRegions

/-!
A program compiled for two load addresses. Both compilations end alike, and then the second image is
the first one moved: every address in its tables, and every address that is stored in its data, is
greater by the distance between the load addresses, and all other bytes of the files are the same.
-/

namespace AgentCompiler

open Blueprint Option ObjectCode Layout

namespace Image

/-- The file holds an address at such a place: in the header, in the table of segments, or at a
relocation of the data. -/
def addressPlaces (image : Image) (data : PlacedSection) (pointers : List Relocation) : Set Nat :=
  entryField ∪ {x | 64 ≤ x ∧ x - 64 ∈ addressFields image.segments.length} ∪
    {x | ∃ r ∈ pointers, data.fileOffset + r.offset ≤ x ∧ x < data.fileOffset + r.offset + 8}

/-- An image is another one moved by a distance. The file of each has the tables that are compared.
-/
structure IsMoved (image moved : Image) (distance : Int) (data : PlacedSection)
    (pointers : List Relocation) : Prop where
  files : ∀ i ∈ [image, moved], FileHeader.ofBytes i.bytes = i.header ∧ segmentsOf i.bytes =
    i.segments
  header : moved.header = { image.header with entry := moved.header.entry }
  entry : (moved.header.entry : Int) = image.header.entry + distance
  segments : List.Forall₂ (Segment.MovesBy distance) image.segments moved.segments
  sections : List.Forall₂ (PlacedSection.Moves fun p q => (q : Int) = p + distance) image.sections
    moved.sections
  constants : ∀ kind ∈ [SectionKind.text, .rodata],
    (moved.section? kind).map moved.sectionBytes = (image.section? kind).map image.sectionBytes
  isData : image.section? .data = some data
  stored : ∀ r ∈ pointers, r.site = .data ∧ r.kind = .absolute ∧
    (numberAt moved.bytes (data.fileOffset + r.offset) 8 : Int) =
      numberAt image.bytes (data.fileOffset + r.offset) 8 + distance
  rest : AgreeOutside (image.addressPlaces data pointers) image.bytes moved.bytes

end Image

namespace Plan

variable {program : Program} {layout : Layout} {settings : Settings} {plan : Plan} {p q : Pool}

lemma StorageRun.align_eq {cap : Nat} {sections final : DataPlan} {agents : List AgentLayout}
    (run : StorageRun cap sections p agents final q) (align : sections.bss.align = 16) :
    final.bss.align = 16 := by
  induction run with
  | nil => exact align
  | cons first _ ih =>
    obtain ⟨_, queue, symbols, _, slot, symbols', rfl, -, rfl, -, -, rfl⟩ := addStorage_ok first
    exact ih (by simp [DataSection.reserve, align])

lemma make_align (made : make program layout settings .initial = .ok (plan, q))
    (accepted : IsAccepted program layout) : plan.sections.bss.align = 16 := by
  obtain ⟨sections, _, _, sections', _, _, empty, -, -, run, -, -, -, bss, -⟩ :=
    make_storageRun made accepted
  have align := run.align_eq (by rw [empty]; rfl)
  simp [bss, DataSection.reserve, align]

end Plan

section

/-- Code and data that can be linked at any page: code holds no address, and data only whole ones.
-/
structure ObjectCode.IsMovable (o : ObjectCode) : Prop where
  code : o.code.IsRelative
  pointers : ∀ r ∈ o.dataRelocations, r.site = .data ∧ r.kind = .absolute
  rodata : o.rodata.kind = .rodata
  data : o.data.kind = .data
  bss : o.bss.kind = .bss
  align : o.bss.align = 16

namespace ObjectCode.IsMovable

variable {o : ObjectCode} {a : Assembly} {x y e : Nat}

section

variable (movable : o.IsMovable)
include movable

lemma blueprint_eq : o.blueprint a y e = (o.blueprint a x e).movedTo y := by
  rw [blueprint_of_kinds movable.rodata movable.data movable.bss,
    blueprint_of_kinds movable.rodata movable.data movable.bss]
  rfl

lemma canMove (here : pageSize ∣ x) (there : pageSize ∣ y) : (o.blueprint a x e).CanMove y := by
  rw [blueprint_of_kinds movable.rodata movable.data movable.bss]
  refine ⟨here, there, ?_⟩
  rw [movable.align]
  decide

lemma absolute_in_data (assembled : assemble o.names o.code = .ok a) :
    ∀ r ∈ (o.blueprint a x e).relocations, r.kind = .absolute → r.site = .data := by
  rw [blueprint_of_kinds movable.rodata movable.data movable.bss]
  intro r mem absolute
  rcases List.mem_append.1 mem with own | pointer
  · simp [movable.code.kind_eq assembled own] at absolute
  · exact (movable.pointers r pointer).1

lemma link_alike (here : pageSize ∣ x) (there : pageSize ∣ y) : EndAlike (fun _ _ => True)
    (o.link x) (o.link y) := by
  rw [link, link]
  cases assembled : assemble o.names o.code with
  | error d => exact rfl
  | ok a =>
    cases entry : a.offset? o.entry with
    | none =>
      simp only [bind, Except.bind, entry]
      rfl
    | some e =>
      simp only [bind, Except.bind, entry]
      have alike : EndAlike (fun _ _ => True) ((o.blueprint a x e).build o.symbols)
          (((o.blueprint a x e).movedTo y).build o.symbols) :=
        (relocations_alike (movable.canMove here there) (movable.absolute_in_data assembled)).bind
          fun _ _ _ => trivial
      rwa [← movable.blueprint_eq] at alike

end

end ObjectCode.IsMovable

lemma generate_isMovable {program : Program} {layout : Layout} {settings : Settings}
    {object : ObjectCode} (analyzed : analyze program settings = .ok layout)
    (generated : generate program layout settings = .ok object) : object.IsMovable := by
  obtain ⟨holds, data, bss, rodata⟩ := generate_holdsState analyzed generated
  obtain ⟨plan, pool, start, main, p1, codes, p2, support, q, made, -, -, -, -, rfl⟩ :=
    generate_ok generated
  have align := Plan.make_align made (analyze_isAccepted analyzed)
  refine ⟨generate_isRelative generated, fun r mem => ?_, rodata, data, bss, align⟩
  obtain ⟨_, _, rfl, -⟩ := holds.sites r mem
  exact ⟨rfl, rfl⟩

end

section

variable {program : Program} {layout : Layout} {o : ObjectCode} {b : Blueprint} {c c' : Contents}
  {image moved : Image} {place : PlacedSection} {kind : SectionKind} {id : SymbolId}
  {offset goal y : Nat} {distance : Int}

lemma Plan.HoldsState.target {r : Relocation}
    (holds : HoldsState program layout o.data o.dataRelocations o.symbols o.rodata)
    (mem : r ∈ o.dataRelocations) : ∃ offset id, r = pointer offset id ∧
      (id = Pool.heap ∨ ∃ text, HoldsConstant o.symbols o.rodata id (terminated text)) := by
  obtain ⟨offset, id, rfl, ⟨-, heap⟩ | ⟨a, f, slot, field, text, rfl⟩⟩ := holds.sites r mem
  · exact ⟨offset, id, rfl, .inl heap⟩
  · obtain ⟨id', pointed, constant⟩ := holds.texts a f slot field text
    -- there is one pointer at the place of the field
    have covers (id : SymbolId) : (pointer (a.base + slot.offset) id).Covers .data
        (a.base + slot.offset) :=
      ⟨rfl, le_rfl, by simp [pointer, RelocationKind.width]⟩
    have symmetric : Std.Symm (Relocation.Apart .data) := ⟨fun _ _ => Relocation.Apart.symm⟩
    have same : pointer (a.base + slot.offset) id = pointer (a.base + slot.offset) id' := by
      by_contra differ
      exact holds.apart.forall mem pointed differ _ (covers id) (covers id')
    obtain rfl := (Relocation.mk.inj same).2.2.1
    exact ⟨_, id, rfl, .inr ⟨_, constant⟩⟩

lemma addressOf?_moves {symbols : SymbolTable}
    (sections : List.Forall₂ (PlacedSection.Moves fun p q => (q : Int) = p + distance)
      image.sections moved.sections) (found : image.addressOf? symbols id = some goal) :
    ∃ goal', moved.addressOf? symbols id = some goal' ∧ (goal' : Int) = goal + distance := by
  simp only [Image.addressOf?, bind_eq_bind, bind_eq_some_iff] at found ⊢
  obtain ⟨s, known, place, isPlace, same⟩ := found
  obtain rfl := some.inj same
  have rel := find?_moved s.kind sections
  rw [Image.section?] at isPlace
  rw [isPlace] at rel
  generalize moving : moved.sections.find? (·.kind = s.kind) = other at rel
  cases rel with
  | @some _ place' moves =>
    refine ⟨place'.address + s.offset, ⟨s, known, place', moving, rfl⟩, ?_⟩
    have address := moves.address
    omega

lemma ObjectCode.Links.numberAt_data (links : o.Links b c image)
    (inside : offset + 8 ≤ (c.part .data).length) (found : image.section? .data = some place) :
    numberAt image.bytes (place.fileOffset + offset) 8 = ofLittleEndian
        (slice (c.part .data) offset (offset + 8)) := by
  obtain ⟨mem, kind⟩ := links.section_mem found
  obtain ⟨-, stored⟩ := getElem?_fileBytes links.relocated mem (by simp [kind])
  rw [length_part_relocated links.relocated, ← kind, length_contents place mem] at inside
  rw [kind] at stored
  rw [numberAt, links.bytes]
  congr 1
  apply List.ext_getElem?
  intro j
  rw [getElem?_slice, getElem?_slice, Nat.add_sub_cancel_left, Nat.add_sub_cancel_left]
  split
  next low => rw [add_assoc, stored (offset + j) (by omega)]
  next => rfl

lemma ObjectCode.Links.agree_data (links : o.Links b c image)
    (links' : o.Links (b.movedTo y) c' moved) (alike : c.Matches c') :
    AgreeOutside {x | ∃ r ∈ o.dataRelocations, r.Covers .data x} c.data c'.data := by
  refine ⟨alike.data, fun x outside => ?_⟩
  have free (r : Relocation) (mem : r ∈ o.dataRelocations) : ¬ r.Covers .data x :=
    fun covers => outside ⟨r, mem, covers⟩
  exact (links.getElem?_data free).trans (links'.getElem?_data free).symm

/-- Sizes for which no address wraps around: those of a file that can be held in memory, and of a
zero-initialised section that is far smaller than the address space. -/
structure ObjectCode.IsModerate (o : ObjectCode) (b : Blueprint) : Prop where
  load : b.loadAddress < 0x80000000
  data : b.dataEnd < 0x8000000000000000
  align : b.bss.align = 16
  bss : b.bss.size ≤ 0x1000000000000000
  entry : b.entryOffset ≤ b.text.length
  heap : ∃ offset ≤ 0x1000000000000000, Plan.BoundAt o.symbols Pool.heap .bss offset

namespace ObjectCode.IsModerate

section

variable (moderate : o.IsModerate b)
include moderate

lemma movedTo (load : y < 0x80000000) : o.IsModerate (b.movedTo y) :=
  ⟨load, moderate.data, moderate.align, moderate.bss, moderate.entry, moderate.heap⟩

lemma bss_start : alignUp (b.loadAddress + b.dataEnd) b.bss.align < b.loadAddress +
    b.dataEnd + 16 := by
  rw [moderate.align]
  exact alignUp_lt (by decide)

lemma fitsMemory : b.FitsMemory := by
  have start := moderate.bss_start
  obtain ⟨load, data, -, bss, entry, -⟩ := moderate
  have order := b.textEnd_le_constantsEnd
  have order' := b.constantsEnd_le_dataOffset
  have order'' := b.dataOffset_le_dataEnd
  have text : b.textEnd = b.textOffset + b.text.length := rfl
  refine ⟨?_, fun _ => ?_, fun _ => ?_, ?_⟩
  all_goals simp only [UInt64.size]
  · omega
  · omega
  · rw [imageEnd]
    split <;> omega
  · omega

lemma goal_lt (links : o.Links b c image)
    (target : id = Pool.heap ∨ ∃ text, HoldsConstant o.symbols o.rodata id (terminated text))
    (known : image.addressOf? o.symbols id = some goal) : goal < UInt64.size := by
  have start := moderate.bss_start
  obtain ⟨load, data, -, -, -, heap⟩ := moderate
  simp only [Image.addressOf?, bind_eq_bind, bind_eq_some_iff] at known
  obtain ⟨s, isSymbol, part, isPart, same⟩ := known
  obtain rfl := some.inj same
  obtain ⟨mem, kind⟩ := links.section_mem isPart
  obtain rfl | ⟨text, s', isSymbol', inRodata, -, content⟩ := target
  · -- the heap is in the zero-initialised section, which starts soon behind the data
    obtain ⟨offset, low, s', isSymbol', inBss, rfl, -⟩ := heap
    obtain rfl := some.inj (isSymbol.symm.trans isSymbol')
    have first : ∀ t ∈ b.sections, t.kind = .bss → t.address ≤ alignUp (b.loadAddress + b.dataEnd)
        b.bss.align :=
      forall_mem_sections (by simp [placedText]) (by simp [placedRodata])
        (by simp [placedData]) (fun _ _ => Nat.mod_le _ _)
    have address := first part mem (kind.trans inBss)
    simp only [UInt64.size]
    omega
  · obtain rfl := some.inj (isSymbol.symm.trans isSymbol')
    rw [inRodata] at isPart kind
    have fits : b.loadAddress + b.dataEnd < UInt64.size := by
      simp only [UInt64.size]
      omega
    obtain ⟨address, -, finish⟩ := address_of_fits fits part mem (by simp [kind])
    have size := links.rodata_size isPart
    have room := le_of_terminated content
    omega

end

end ObjectCode.IsModerate

section

variable (links : o.Links b c image)
include links

lemma ObjectCode.Links.sectionBytes_eq
    (found : image.section? kind = some place) : image.sectionBytes place = c.part kind := by
  obtain ⟨mem, rfl⟩ := links.section_mem found
  exact sectionBytes_build links.built links.relocated (links.sections ▸ mem)
    (length_contents place mem)

lemma ObjectCode.Links.constants_eq (links' : o.Links (b.movedTo y) c' moved)
    (sections : List.Forall₂ (PlacedSection.Moves fun p q => (q : Int) = p + distance)
      image.sections moved.sections) (same : c'.part kind = c.part kind) :
    (moved.section? kind).map moved.sectionBytes = (image.section? kind).map
        image.sectionBytes := by
  have rel := find?_moved kind sections
  change Option.Rel _ (image.section? kind) (moved.section? kind) at rel
  cases found : image.section? kind with
  | none =>
    rw [found] at rel
    generalize moved.section? kind = other at rel
    cases rel
    rfl
  | some place =>
    rw [found] at rel
    cases found' : moved.section? kind with
    | none =>
      rw [found'] at rel
      cases rel
    | some place' =>
      simp only [map_some, links.sectionBytes_eq found, links'.sectionBytes_eq found', same]

lemma ObjectCode.Links.numberAt_pointer (moderate : o.IsModerate b)
    (holds : Plan.HoldsState program layout o.data o.dataRelocations o.symbols o.rodata)
    (mem : Plan.pointer offset id ∈ o.dataRelocations)
    (target : id = Pool.heap ∨ ∃ text, HoldsConstant o.symbols o.rodata id (terminated text)) :
    ∃ goal, image.addressOf? o.symbols id = some goal ∧ numberAt image.bytes (b.dataOffset + offset)
        8 = goal := by
  obtain ⟨goal, known, ⟨place, found⟩, stored⟩ := links.slice_pointer holds.apart mem
  obtain ⟨rfl, -⟩ := links.section_data found
  have inside := le_of_slice (by rw [stored, length_littleEndian]) (by decide)
  have number := links.numberAt_data inside found
  rw [stored, ofLittleEndian_littleEndian,
    Nat.mod_eq_of_lt (moderate.goal_lt links target known)] at number
  exact ⟨goal, known, number⟩

end

lemma link_isMoved (holds : Plan.HoldsState program layout o.data o.dataRelocations o.symbols
    o.rodata) (move : b.CanMove y) (links : o.Links b c image) (links' :
    o.Links (b.movedTo y) c' moved) (alike : c.Matches c') (moderate : o.IsModerate b) (moderate' :
    o.IsModerate (b.movedTo y)) :
    ∃ data, image.IsMoved moved (b.distanceTo y) data o.dataRelocations := by
  have here := moderate.fitsMemory
  have there := moderate'.fitsMemory
  have sections := sections_move move here there
  rw [← links.sections, ← links'.sections] at sections
  obtain ⟨cursor, -, pointed⟩ := holds.cursor
  obtain ⟨-, -, ⟨data, found⟩, -⟩ := links.slice_pointer holds.apart pointed
  obtain ⟨rfl, -⟩ := links.section_data found
  have agree := agree_fileBytes move here there alike (links.agree_data links' alike)
  obtain ⟨c1, relocated, rfl⟩ := build_ok links.built
  obtain ⟨c2, relocated', rfl⟩ := build_ok links'.built
  obtain rfl := Except.ok.inj (relocated.symm.trans links.relocated)
  obtain rfl := Except.ok.inj (relocated'.symm.trans links'.relocated)
  have entry := shift_eq (addressAt_eq here.entry) (addressAt_eq there.entry)
  refine ⟨b.placedData, ?_, rfl, entry, segments_move move here there, sections, ?_, found,
    fun r mem => ?_, agree.mono ?_⟩
  · simp only [List.forall_mem_cons, List.not_mem_nil, false_implies, implies_true, and_true]
    exact ⟨⟨b.ofBytes_fileBytes c1, segmentsOf_fileBytes here c1⟩,
      (b.movedTo y).ofBytes_fileBytes c2, segmentsOf_fileBytes there c2⟩
  · simp only [List.forall_mem_cons, List.not_mem_nil, false_implies, implies_true, and_true]
    exact ⟨links.constants_eq links' sections alike.text.symm, links.constants_eq links' sections
      alike.rodata.symm⟩
  · obtain ⟨offset, id, rfl, target⟩ := holds.target mem
    obtain ⟨goal, known, stored⟩ := links.numberAt_pointer moderate holds mem target
    obtain ⟨goal', known', stored'⟩ := links'.numberAt_pointer moderate' holds mem target
    obtain ⟨goal'', known'', moves⟩ := addressOf?_moves sections known
    obtain rfl := some.inj (known'.symm.trans known'')
    refine ⟨rfl, rfl, ?_⟩
    change (numberAt _ ((b.movedTo y).dataOffset + offset) 8 : Int) = numberAt _
      (b.dataOffset + offset) 8 + _
    rw [stored, stored', moves]
  · apply Set.union_subset_union_right
    rintro x ⟨low, r, mem, -, first, last⟩
    obtain ⟨offset, id, rfl, -⟩ := holds.sites r mem
    refine ⟨_, mem, ?_⟩
    change b.dataOffset + offset ≤ x ∧ x < b.dataOffset + offset + 8
    simp only [Plan.pointer, RelocationKind.width] at first last
    omega

end

section

variable {program : Program} {layout : Layout} {settings : Settings} {object : ObjectCode}
  {image : Image} {a : Assembly} {x e : Nat}

lemma Settings.validate_loadAddress (valid : settings.validate = .ok ()) :
    pageSize ∣ settings.loadAddress.toNat ∧ settings.loadAddress.toNat < 0x80000000 := by
  refine ⟨?_, (validate_ok valid).2.2.2⟩
  simp only [validate, ite_throw_ok, not_or, not_not] at valid
  exact Nat.dvd_of_mod_eq_zero valid.2.2.1.1

section

variable (valid : settings.validate = .ok ()) (analyzed : analyze program settings = .ok layout)
  (generated : generate program layout settings = .ok object)
  (few : object.symbols.size < 0x100000000)
include valid analyzed generated few

lemma generate_isModerate (assembled : assemble object.names object.code = .ok a)
    (entry : a.offset? object.entry = some e) (load : x < 0x80000000)
    (file : (object.blueprint a x e).dataEnd < 0x8000000000000000) : object.IsModerate
    (object.blueprint a x e) := by
  obtain ⟨-, data, bss, rodata⟩ := generate_holdsState analyzed generated
  obtain ⟨plan, pool, start, main, p1, codes, p2, support, q, made, -, -, -, -, whole⟩ :=
    generate_ok generated
  obtain ⟨q', grows, symbols, -⟩ := generate_grows made generated
  have storage : object.bss = plan.sections.bss := by rw [whole]
  have accepted := analyze_isAccepted analyzed
  have align := Plan.make_align made accepted
  obtain ⟨offset, bound, behind, size, -⟩ := Plan.make_regions made accepted valid
    (grows.keeps.size_le.trans_lt (symbols ▸ few))
  have low : offset ≤ 0x1000000000000000 := by omega
  rw [← storage] at align size
  obtain ⟨k, isLabel, rfl⟩ := (Assembly.offset?_eq_some assembled object.entry e).1 entry
  have inside := (outputSize_mono _ _ (Nat.le_succ k)).trans
    (Assembly.outputSize_succ_le assembled isLabel)
  rw [ObjectCode.blueprint_of_kinds rodata data bss] at file ⊢
  exact ⟨load, file, align, size, inside, offset, low, symbols ▸ bound.keeps grows.keeps⟩

lemma link_moves {y : Nat} (here : pageSize ∣ x ∧ x < 0x80000000)
    (there : pageSize ∣ y ∧ y < 0x80000000) (linked : object.link x = .ok image)
    (small : image.bytes.length < 0x8000000000000000) : ∃ moved data, object.link y = .ok moved ∧
      image.IsMoved moved (y - x) data object.dataRelocations := by
  obtain ⟨holds, isData, isBss, isRodata⟩ := generate_holdsState analyzed generated
  have movable := generate_isMovable analyzed generated
  obtain ⟨moved, linked', -⟩ := (movable.link_alike here.1 there.1).exists_ok linked
  obtain ⟨a, e, assembled, entry, built⟩ := link_ok linked
  obtain ⟨a', e', assembled', entry', built'⟩ := link_ok linked'
  obtain rfl := Except.ok.inj (assembled.symm.trans assembled')
  obtain rfl := some.inj (entry.symm.trans entry')
  obtain ⟨c, links⟩ := Links.of_build assembled built isRodata isData isBss
  obtain ⟨c', links'⟩ := Links.of_build assembled built' isRodata isData isBss
  rw [movable.blueprint_eq (x := x)] at links'
  have move := movable.canMove (a := a) (e := e) here.1 there.1
  obtain ⟨c'', relocated, alike⟩ :=
    (relocations_alike move (movable.absolute_in_data assembled)).exists_ok links.relocated
  obtain rfl := Except.ok.inj (links'.relocated.symm.trans relocated)
  obtain ⟨_, -, pointed⟩ := holds.cursor
  obtain ⟨-, -, ⟨place, found⟩, -⟩ := links.slice_pointer holds.apart pointed
  have file := Nat.lt_of_le_of_lt (links.section_data found).2 small
  have moderate := generate_isModerate valid analyzed generated few assembled entry here.2 file
  obtain ⟨data, isMoved⟩ := link_isMoved holds move links links' alike moderate
    (moderate.movedTo there.2)
  have start : (object.blueprint a x e).loadAddress = x := by
    rw [ObjectCode.blueprint_of_kinds isRodata isData isBss]
  rw [distanceTo, start] at isMoved
  exact ⟨moved, data, linked', isMoved⟩

end

/-- Moving the load address only shifts addresses. Both compilations end alike, with the same error
or with an image and the same image moved. A file has fewer than `2 ^ 63` bytes, and symbols have
numbers of 32 bits. -/
theorem compile_moves {other : Settings} (valid : settings.validate = .ok ())
    (valid' : other.validate = .ok ()) (differ : other =
    { settings with loadAddress := other.loadAddress }) :
    (∀ d, compile program settings = .error d ↔ compile program other = .error d) ∧
      ∀ object image, lower program settings = .ok object → compile program settings = .ok image →
        object.symbols.size < 0x100000000 → image.bytes.length < 0x8000000000000000 →
          ∃ moved data, lower program other = .ok object ∧ compile program other = .ok moved ∧
            image.IsMoved moved (other.loadAddress.toNat - settings.loadAddress.toNat) data
              object.dataRelocations := by
  have here := Settings.validate_loadAddress valid
  have there := Settings.validate_loadAddress valid'
  have same : lower program other = lower program settings := by
    rw [differ] at valid' ⊢
    exact lower_movedTo valid valid'
  rw [compile, compile, same]
  cases lowered : lower program settings with
  | error d => simp [bind, Except.bind]
  | ok object =>
    obtain ⟨layout, described, generated⟩ := bind_ok.1 lowered
    obtain ⟨⟨⟩, -, analyzed⟩ := bind_ok.1 described
    constructor
    · intro d
      exact ((generate_isMovable analyzed generated).link_alike here.1 there.1).error_iff
    · rintro _ image ⟨⟩ linked few small
      obtain ⟨moved, data, linked', isMoved⟩ :=
        link_moves valid analyzed generated few here there linked small
      exact ⟨moved, data, rfl, linked', isMoved⟩

end

section

set_option maxRecDepth 100000 in
lemma sensorProgram_lowers : ((lower sensorProgram {}).toOption.any fun object =>
    decide (object.symbols.size < 0x100000000)) = true := by decide +kernel

/-- The sensors, loaded two megabytes higher. -/
theorem compile_moves_sensor : ∃ object image moved data, lower sensorProgram {} = .ok object ∧
    compile sensorProgram {} = .ok image ∧
      compile sensorProgram { loadAddress := 0x600000 } = .ok moved ∧
      image.IsMoved moved 0x200000 data object.dataRelocations := by
  have facts := sensorProgram_compiles
  have facts' := sensorProgram_lowers
  cases compiled : compile sensorProgram {} with
  | error fault => simp [compiled, Except.toOption] at facts
  | ok image =>
    cases lowered : lower sensorProgram {} with
    | error fault => simp [lowered, Except.toOption] at facts'
    | ok object =>
      have small : image.bytes.length < 0x8000000000000000 := by
        simpa [compiled, Except.toOption] using facts
      have few : object.symbols.size < 0x100000000 := by
        simpa [lowered, Except.toOption] using facts'
      have valid : ({} : Settings).validate = .ok () := rfl
      have valid' : ({ loadAddress := 0x600000 } : Settings).validate = .ok () := rfl
      obtain ⟨moved, data, -, compiled', isMoved⟩ :=
        (compile_moves valid valid' rfl).2 object image lowered compiled few small
      exact ⟨object, image, moved, data, rfl, rfl, compiled', isMoved⟩

end

end AgentCompiler
