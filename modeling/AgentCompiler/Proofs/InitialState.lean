import AgentCompiler.Proofs.CompleteCode
import AgentCompiler.Proofs.InitialArena
import AgentCompiler.Proofs.Loading
import AgentCompiler.Proofs.References

/-!
The state that agents start with, in an executable. A loader finds the value of every field at the
place that the layout has for it: numbers as they are declared, and for a text the address of its
bytes among the constants. The rest of the arena is zero, and the cursor of the heap is at its
start.
-/

namespace AgentCompiler

open Blueprint List Relocation Layout

namespace Image

def HoldsValue (image : Image) (f : StateField) (address : Nat) : Prop := if f.type = .str then
    ∃ goal constants, image.section? .rodata = some constants ∧ constants.address ≤ goal ∧
      goal + (terminated f.initialText).length ≤ constants.address + constants.memSize ∧
      goal < UInt64.size ∧ loadedBytes image.bytes address 8 = (littleEndian 8 goal).map some ∧
      loadedBytes image.bytes goal (terminated f.initialText).length =
      (terminated f.initialText).map some
  else
    loadedBytes image.bytes address f.type.size = (littleEndianInt f.type.size f.initialNumber).map
      some

/-- The loaded image starts with the declared state: every field of every instance has its initial
value, everything between fields is zero, and the whole heap is free. -/
structure StartsAsDeclared (image : Image) (program : Program) (layout : Layout)
    (symbols : SymbolTable)
    (arena : Nat) : Prop where
  start : image.addressOf? symbols Pool.stateArena = some arena
  fields : List.Forall₂ (fun declared (a : AgentLayout) => a.name = declared.name ∧
    ∃ template, program.template? declared.template = some template ∧ ∀ f ∈ template.state,
      ∃ slot, a.state.slot? f.name = some slot ∧ slot.type = f.type ∧
        image.HoldsValue f (arena + (a.base + slot.offset))) program.instances layout.agents
  rest : ∀ x < layout.stateSize, (∀ place ∈ layout.locations, x ∉ place.1.fieldBytes place.2) →
    loadedByte? image.bytes (arena + x) = some 0
  cursor : ∃ cursor heap, image.addressOf? symbols Pool.heapCursor = some cursor ∧
    image.addressOf? symbols Pool.heap = some heap ∧
    loadedBytes image.bytes cursor 8 = (littleEndian 8 heap).map some

end Image

section

lemma le_of_slice {bytes : Bytes} {start count : Nat}
    (length : (slice bytes start (start + count)).length = count) (positive : 0 < count) :
    start + count ≤ bytes.length := by
  simp only [slice, length_take, length_drop] at length
  omega

lemma le_of_terminated {bytes : Bytes} {text : String} {offset : Nat}
    (stored : terminated text <+: bytes.drop offset) : offset + (terminated text).length ≤
    bytes.length := by
  have length := stored.length_le
  rw [length_drop] at length
  have positive : 0 < (terminated text).length := by simp [terminated]
  omega

lemma Relocation.not_covers {r : Relocation} {kind : SectionKind} {x : Nat} (site : r.site ≠ kind) :
    ¬ r.Covers kind x := fun covers => site covers.1

/-- An image that is linked from generated code. Relocations of the code itself change no other
section. -/
structure ObjectCode.Links (o : ObjectCode) (b : Blueprint) (c : Contents) (image : Image) :
    Prop where
  built : b.build o.symbols = .ok image
  relocated : b.relocations.foldlM (b.relocate o.symbols) b.contents = .ok c
  bytes : image.bytes = b.fileBytes c
  sections : image.sections = b.sections
  relocations : ∃ own, b.relocations = own ++ o.dataRelocations ∧ ∀ r ∈ own, r.site = .text
  rodata : b.contents.part .rodata = o.rodata.bytes
  data : b.contents.part .data = o.data.bytes

namespace ObjectCode.Links

variable {o : ObjectCode} {b : Blueprint} {c : Contents} {image : Image} {kind : SectionKind}
  {place : PlacedSection} {id : SymbolId} {offset count x : Nat}

lemma of_build {a : Assembly} {loadAddress entryOffset : Nat}
    (assembled : assemble o.names o.code = .ok a)
    (built : (o.blueprint a loadAddress entryOffset).build o.symbols = .ok image)
    (rodata : o.rodata.kind = .rodata) (data : o.data.kind = .data) (bss : o.bss.kind = .bss) :
    ∃ c, o.Links (o.blueprint a loadAddress entryOffset) c image := by
  obtain ⟨c, relocated, rfl⟩ := build_ok built
  refine ⟨c, built, relocated, rfl, rfl, ?_, ?_, ?_⟩
  all_goals rw [blueprint_of_kinds rodata data bss]
  · exact ⟨a.relocations, rfl, fun r mem => (Assembly.relocation_facts assembled mem).1⟩
  · rfl
  · rfl

section

variable (links : o.Links b c image)
include links

lemma section_mem (found : image.section? kind = some place) : place ∈ b.sections ∧
    place.kind = kind := by
  rw [Image.section?, links.sections] at found
  exact ⟨mem_of_find?_eq_some found, by simpa using find?_some found⟩

lemma rodata_size (found : image.section? .rodata = some place) : place.fileSize =
    o.rodata.bytes.length := by
  obtain ⟨mem, kind⟩ := links.section_mem found
  rw [← length_contents place mem, kind, links.rodata]

lemma section_data (found : image.section? .data = some place) :
    place = b.placedData ∧ b.dataEnd ≤ image.bytes.length := by
  obtain ⟨mem, kind⟩ := links.section_mem found
  have isData : ∀ s ∈ b.sections, s.kind = .data → s = b.placedData :=
    forall_mem_sections (by simp [placedText]) (by simp [placedRodata]) (fun _ _ => rfl)
      (by simp [placedBss])
  obtain rfl := isData place mem kind
  have inside := (getElem?_fileBytes links.relocated mem (by simp [kind])).1
  rw [← links.bytes] at inside
  exact ⟨rfl, inside⟩

section

variable (fits : b.loadAddress + b.dataEnd < UInt64.size) (found : image.section? kind = some place)
  (bytes : kind ≠ .bss)
include fits found bytes

lemma loaded
    (inside : offset + count ≤ (c.part kind).length) : loadedBytes image.bytes
      (place.address + offset) count = (slice (c.part kind) offset (offset + count)).map some := by
  obtain ⟨mem, rfl⟩ := links.section_mem found
  rw [length_part_relocated links.relocated, length_contents place mem] at inside
  rw [links.bytes]
  exact loadedBytes_of_fits fits links.relocated mem bytes inside

lemma loaded_byte {value : UInt8}
    (stored : (c.part kind)[x]? = some value) : loadedByte? image.bytes (place.address + x) =
    some value := by
  obtain ⟨mem, rfl⟩ := links.section_mem found
  have inside := (List.getElem?_eq_some_iff.1 stored).1
  rw [length_part_relocated links.relocated, length_contents place mem] at inside
  rw [links.bytes, loadedByte?_part (.of_dataEnd fits) links.relocated mem bytes inside, stored]

end

lemma getElem?_data (free : ∀ r ∈ o.dataRelocations, ¬ r.Covers .data x) : (c.part .data)[x]? =
    o.data.bytes[x]? := by
  obtain ⟨own, relocations, text⟩ := links.relocations
  rw [relocated_outside links.relocated, links.data]
  rw [relocations, forall_mem_append]
  exact ⟨fun r mem => not_covers (by simp [text r mem]), free⟩

lemma part_rodata (sites : ∀ r ∈ o.dataRelocations, r.site = .data) : c.part .rodata =
    o.rodata.bytes := by
  obtain ⟨own, relocations, text⟩ := links.relocations
  rw [← links.rodata]
  refine ext_getElem? fun x => relocated_outside links.relocated ?_
  rw [relocations, forall_mem_append]
  exact ⟨fun r mem => not_covers (by simp [text r mem]),
    fun r mem => not_covers (by simp [sites r mem])⟩

lemma slice_pointer (apart : o.dataRelocations.Pairwise (Apart .data))
    (mem : Plan.pointer offset id ∈ o.dataRelocations) :
    ∃ goal, image.addressOf? o.symbols id = some goal ∧
      (∃ place, image.section? .data = some place) ∧ slice (c.part .data) offset (offset + 8) =
      littleEndian 8 goal := by
  obtain ⟨own, relocations, text⟩ := links.relocations
  have among := relocations ▸ mem_append_right _ mem
  have apart' : b.relocations.Pairwise (Apart .data) := by
    have unrelated (r : Relocation) (first : r ∈ own) (r' : Relocation) : Apart .data r r' :=
      fun x covers => absurd covers (not_covers (by simp [text r first]))
    rw [relocations, pairwise_append]
    exact ⟨pairwise_of_forall_mem_list fun r first r' _ => unrelated r first r', apart,
      fun r first r' _ => unrelated r first r'⟩
  obtain ⟨goal, start, name, found, site, patch⟩ :=
    (relocated_site links.relocated among apart').addressOf? links.built
  rw [sectionAddress?_eq links.built] at site
  obtain ⟨place, isPlace, -⟩ := Option.map_eq_some_iff.1 site
  refine ⟨goal, found, ⟨place, isPlace⟩, ?_⟩
  have stored : slice (c.part .data) offset (offset + 8) = littleEndianInt 8 (toWord goal + 0) :=
    patchFor_absolute rfl patch
  rw [stored, littleEndianInt, Int.add_zero]
  have low : ((toWord goal : Int) % Nat.pow 256 8).toNat = goal % Nat.pow 256 8 := by
    have size : Nat.pow 256 8 = UInt64.size := rfl
    rw [size, toWord, ← Int.natCast_mod, Nat.mod_mod, Int.toNat_natCast]
  rw [low, littleEndian_mod]

end

end ObjectCode.Links

lemma Plan.BoundAt.addressOf? {symbols : SymbolTable} {id : SymbolId} {kind : SectionKind}
    {offset : Nat} {image : Image} {place : PlacedSection} (bound : BoundAt symbols id kind offset)
    (found : image.section? kind = some place) : image.addressOf? symbols id = some
    (place.address + offset) := by
  obtain ⟨s, known, rfl, rfl, -⟩ := bound
  simp [Image.addressOf?, known, found]

end

section

variable {program : Program} {layout : Layout} {settings : Settings} {o : ObjectCode}
  {b : Blueprint} {c : Contents} {image : Image} {place : PlacedSection} {a : AgentLayout}
  {f : StateField} {slot : Slot} {x : Nat}

lemma Plan.HoldsState.covered (holds : HoldsState program layout o.data o.dataRelocations o.symbols
    o.rodata) (accepted : IsAccepted program layout) (inside : x < layout.stateSize)
    {r : Relocation} (mem : r ∈ o.dataRelocations) (covers : r.Covers .data x) :
    ∃ a f slot, IsField program layout a f slot ∧ f.type = .str ∧ x ∈ a.fieldBytes slot := by
  obtain ⟨offset, id, rfl, site⟩ := holds.sites r mem
  obtain ⟨-, low, high⟩ := covers
  simp only [pointer, RelocationKind.width] at low high
  obtain ⟨behind, -⟩ | ⟨a, f, slot, field, text, rfl⟩ := site
  · omega
  · refine ⟨a, f, slot, field, text, ?_⟩
    rw [AgentLayout.fieldBytes, field.type_eq accepted, text]
    exact ⟨low, high⟩

section

variable (holds : Plan.HoldsState program layout o.data o.dataRelocations o.symbols o.rodata)
  (links : o.Links b c image) (fits : b.loadAddress + b.dataEnd < UInt64.size)
  (found : image.section? .data = some place) (field : Plan.IsField program layout a f slot)
include holds links fits found field

lemma holdsValue_number (analyzed : analyze program settings = .ok layout)
    (number : f.type ≠ .str) :
    image.HoldsValue f (place.address + (a.base + slot.offset)) := by
  have accepted := analyze_isAccepted analyzed
  have type := field.type_eq accepted
  have bounds := field.bounds accepted
  rw [type] at bounds
  have stored := holds.numbers a f slot field number
  rw [type] at stored
  -- no pointer reaches into the field, since each byte belongs to one field only
  have kept : slice (c.part .data) (a.base + slot.offset) (a.base + slot.offset + f.type.size) =
      littleEndianInt f.type.size f.initialNumber := by
    rw [← stored]
    refine slice_congr fun x low high => links.getElem?_data fun r mem covers => ?_
    obtain ⟨b, g, other, field', text, inside⟩ := holds.covered accepted (by omega) mem covers
    have own : x ∈ a.fieldBytes slot := by
      rw [AgentLayout.fieldBytes, type]
      exact ⟨low, high⟩
    obtain ⟨-, rfl⟩ := field.unique analyzed field' own inside
    exact number text
  have positive : 0 < f.type.size := by cases f.type <;> decide
  have length : a.base + slot.offset + f.type.size ≤ (c.part .data).length :=
    le_of_slice (by simp [kept]) positive
  rw [Image.HoldsValue, if_neg number, links.loaded fits found (by decide) length, kept]

lemma holdsValue_text (text : f.type = .str) : image.HoldsValue f
    (place.address + (a.base + slot.offset)) := by
  obtain ⟨id, pointed, symbol, known, kind, -, content⟩ := holds.texts a f slot field text
  obtain ⟨goal, address, -, stored⟩ := links.slice_pointer holds.apart pointed
  obtain ⟨constants, isConstants, rfl⟩ : ∃ constants, image.section? .rodata = some constants ∧
      goal = constants.address + symbol.offset := by
    simp only [Image.addressOf?, known, kind, Option.bind_eq_bind, Option.bind_some,
      Option.bind_eq_some_iff] at address
    obtain ⟨constants, isConstants, same⟩ := address
    exact ⟨constants, isConstants, (Option.some.inj same).symm⟩
  have rodata : c.part .rodata = o.rodata.bytes := links.part_rodata fun r mem => by
    obtain ⟨_, _, rfl, -⟩ := holds.sites r mem
    rfl
  have room := le_of_terminated content
  obtain ⟨mem, isRodata⟩ := links.section_mem isConstants
  obtain ⟨start, memory, finish⟩ := address_of_fits fits constants mem (by simp [isRodata])
  have size := links.rodata_size isConstants
  have cell : a.base + slot.offset + 8 ≤ (c.part .data).length := le_of_slice (by simp [stored])
    (by decide)
  rw [Image.HoldsValue, if_pos text]
  refine ⟨constants.address + symbol.offset, constants, isConstants, le_self_add, by omega,
    by omega, ?_, ?_⟩
  · rw [links.loaded fits found (by decide) cell, stored]
  · rw [links.loaded fits isConstants (by decide) (rodata ▸ room), rodata, slice,
      Nat.add_sub_cancel_left, ← prefix_iff_eq_take.1 content]

end

end

section

variable {program : Program} {layout : Layout} {settings : Settings} {object : ObjectCode}
  {image : Image}

lemma generate_holdsState (analyzed : analyze program settings = .ok layout)
    (generated : generate program layout settings = .ok object) :
    Plan.HoldsState program layout object.data object.dataRelocations object.symbols object.rodata ∧
      object.data.kind = .data ∧ object.bss.kind = .bss ∧ object.rodata.kind = .rodata := by
  obtain ⟨plan, pool, start, main, p1, codes, p2, support, q, made, -, -, -, -, whole⟩ :=
    generate_ok generated
  obtain ⟨q', grows, symbols, rodata⟩ := generate_grows made generated
  obtain ⟨holds, data, bss, kind⟩ := Plan.make_holdsState analyzed made
  have extended := Pool.Extends.grows grows
  have sections : object.data = plan.sections.data ∧ object.bss = plan.sections.bss ∧
      object.dataRelocations = plan.sections.relocations := by
    rw [whole]
    exact ⟨rfl, rfl, rfl⟩
  rw [symbols, rodata, sections.1, sections.2.1, sections.2.2]
  exact ⟨holds.extends extended kind, data, bss, (extended.rodata kind).1⟩

lemma link_startsAsDeclared {b : Blueprint} {c : Contents}
    (analyzed : analyze program settings = .ok layout) (holds : Plan.HoldsState program layout
    object.data object.dataRelocations object.symbols object.rodata)
    (links : object.Links b c image) (load : b.loadAddress < 0x80000000)
    (small : image.bytes.length < 0x8000000000000000) :
    ∃ arena, image.StartsAsDeclared program layout object.symbols arena := by
  have accepted := analyze_isAccepted analyzed
  obtain ⟨cursor, bound, pointed⟩ := holds.cursor
  obtain ⟨heap, isHeap, ⟨place, found⟩, stored⟩ := links.slice_pointer holds.apart pointed
  have fits : b.loadAddress + b.dataEnd < UInt64.size := by
    have inside := (links.section_data found).2
    simp only [UInt64.size]
    omega
  refine ⟨place.address, holds.arena.addressOf? found, ?_, ?_, ?_⟩
  · rw [← (analyze_isDeclared analyzed).instances, forall₂_map_left_iff, forall₂_same]
    intro a mem
    obtain ⟨⟨template, made⟩, -⟩ := accepted.agents.placed a mem
    refine ⟨rfl, template, made.found, fun f declared => ?_⟩
    obtain ⟨slot, isSlot⟩ := made.state ▸ Record.exists_slot? (mem_map_of_mem declared)
    have field : Plan.IsField program layout a f slot :=
      ⟨mem, ⟨template, made.found, declared⟩, isSlot⟩
    refine ⟨slot, isSlot, field.type_eq accepted, ?_⟩
    by_cases text : f.type = .str
    · exact holdsValue_text holds links fits found field text
    · exact holdsValue_number holds links fits found field analyzed text
  · intro x inside free
    have free' (a f slot) (field : Plan.IsField program layout a f slot) : x ∉ a.fieldBytes slot :=
      free (a, slot) (mem_flatMap.2 ⟨a, field.agent,
        mem_map_of_mem (mem_of_find?_eq_some field.place)⟩)
    have zero : (c.part .data)[x]? = some 0 := by
      rw [links.getElem?_data, holds.zeros x inside free']
      intro r mem covers
      obtain ⟨a, f, slot, field, -, own⟩ := holds.covered accepted inside mem covers
      exact free' a f slot field own
    exact links.loaded_byte fits found (by decide) zero
  · refine ⟨_, heap, bound.addressOf? found, isHeap, ?_⟩
    rw [links.loaded fits found (by decide) (le_of_slice (by simp [stored]) (by decide)), stored]

/-- The initial state of all agents reaches the executable. A file has fewer than `2 ^ 63` bytes. -/
theorem compile_startsAsDeclared (compiled : compile program settings = .ok image)
    (small : image.bytes.length < 0x8000000000000000) :
    ∃ layout object arena, describeLayout program settings = .ok layout ∧
      generate program layout settings = .ok object ∧
      image.StartsAsDeclared program layout object.symbols arena := by
  obtain ⟨object, lowered, linked⟩ := bind_ok.1 compiled
  obtain ⟨layout, described, generated⟩ := bind_ok.1 lowered
  obtain ⟨⟨⟩, valid, analyzed⟩ := bind_ok.1 described
  obtain ⟨holds, data, bss, rodata⟩ := generate_holdsState analyzed generated
  obtain ⟨a, entryOffset, assembled, -, built⟩ := ObjectCode.link_ok linked
  obtain ⟨c, links⟩ := ObjectCode.Links.of_build assembled built rodata data bss
  have load : (object.blueprint a settings.loadAddress.toNat
      entryOffset).loadAddress < 0x80000000 := by
    rw [ObjectCode.blueprint_of_kinds rodata data bss]
    exact (Settings.validate_ok valid).2.2.2
  obtain ⟨arena, starts⟩ := link_startsAsDeclared analyzed holds links load small
  exact ⟨layout, object, arena, described, generated, starts⟩

end

section

/-- Two agents with a field of each type; one text is shared, and the fields without a value are
between others. -/
def sensorProgram : Program where
  schemas := [⟨"Tick", []⟩]
  templates := [⟨"Sensor", [⟨"on", .bool, some (.bool true)⟩, ⟨"step", .i32, some (.int (-2))⟩,
    ⟨"unit", .str, some (.str "mm")⟩, ⟨"last", .i64, none⟩, ⟨"note", .str, none⟩,
    ⟨"limit", .i64, some (.int 0x1122334455667788)⟩], [⟨"Tick", []⟩], []⟩]
  instances := [⟨"left", "Sensor"⟩, ⟨"right", "Sensor"⟩]
  routes := [⟨.external, "Tick", ["left", "right"]⟩]
  seed := ⟨"Tick", []⟩

set_option maxRecDepth 100000 in
lemma sensorProgram_compiles : ((compile sensorProgram {}).toOption.any fun image =>
    decide (image.bytes.length < 0x8000000000000000)) = true := by decide +kernel

theorem compile_startsAsDeclared_sensor : ∃ image layout object arena,
    compile sensorProgram {} = .ok image ∧ describeLayout sensorProgram {} = .ok layout ∧
      generate sensorProgram layout {} = .ok object ∧
      image.StartsAsDeclared sensorProgram layout object.symbols arena := by
  have facts := sensorProgram_compiles
  cases compiled : compile sensorProgram {} with
  | error fault => simp [compiled, Except.toOption] at facts
  | ok image =>
    have small : image.bytes.length < 0x8000000000000000 := by
      simpa [compiled, Except.toOption] using facts
    obtain ⟨layout, object, arena, described, generated, starts⟩ :=
      compile_startsAsDeclared compiled small
    exact ⟨image, layout, object, arena, rfl, described, generated, starts⟩

end

end AgentCompiler
