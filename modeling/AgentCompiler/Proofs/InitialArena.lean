import AgentCompiler.Proofs.PooledConstants
import AgentCompiler.Proofs.Relocation

/-!
The data section before it is linked. It starts with the state arena; where the initial text of a
field belongs, the address of the text is to be stored, and the text stands in the read-only
section.
-/

namespace AgentCompiler

open Layout DataSection Option Pool SymbolTable

variable {due : List SymbolId}

namespace Plan

section

variable {p q : Pool} {start : Nat} {values : List InitialValue} {parts : List (List Relocation)}
  {due : List SymbolId}

lemma valuePointers_texts (run : Emit.MapRun (valuePointer start) p values parts q)
    (lacks : p.Lacks due) (stores : p.Stores) : q.Stores ∧
    ∀ offset content, .text offset content ∈ values → ∃ s, pointer (start + offset) s ∈
      parts.flatten ∧ HoldsConstant q.symbols q.rodata s (terminated content) := by
  induction run with
  | nil p => simpa using stores
  | @cons p s q value part values parts first rest ih =>
    cases value with
    | bytes offset' content' =>
      obtain ⟨rfl, rfl⟩ := Emit.pure_ok.1 first
      simpa using ih lacks stores
    | text offset' content' =>
      simp only [valuePointer, Emit.bind_ok, Emit.pure_ok] at first
      obtain ⟨id, _, interned, rfl, rfl⟩ := first
      have lacks' := lacks.interns (.text interned)
      obtain ⟨stores', holds⟩ := stores.interns lacks (.text interned)
      obtain ⟨all, pointed⟩ := ih lacks' stores'
      refine ⟨all, fun offset content mem => ?_⟩
      rcases List.mem_cons.1 mem with same | later
      · obtain ⟨rfl, rfl⟩ := InitialValue.text.inj same
        refine ⟨id, by simp, ?_⟩
        exact (Extends.laid (laid_of_valuePointers rest)).holds lacks'.rodata_kind holds
      · obtain ⟨id', pointed, holds'⟩ := pointed offset content later
        exact ⟨id', by simp [pointed], holds'⟩

lemma apart_pointers {first second : Nat} {s t : SymbolId}
    (apart : first + 8 ≤ second ∨ second + 8 ≤ first) :
    Relocation.Apart .data (pointer first s) (pointer second t) := by
  rintro x ⟨-, low, high⟩ ⟨-, low', high'⟩
  simp only [pointer, RelocationKind.width] at low high low' high'
  omega

lemma valuePointers_apart (run : Emit.MapRun (valuePointer start) p values parts q)
    (sound : p.IsSound) (apart : values.Pairwise fun v w => Disjoint v.span w.span) :
    parts.flatten.Pairwise (Relocation.Apart .data) := by
  induction run with
  | nil p => exact .nil
  | @cons p s q value part values parts first rest ih =>
    rw [List.pairwise_cons] at apart
    cases value with
    | bytes offset content =>
      obtain ⟨rfl, rfl⟩ := Emit.pure_ok.1 first
      exact ih sound apart.2
    | text offset content =>
      simp only [valuePointer, Emit.bind_ok, Emit.pure_ok] at first
      obtain ⟨id, _, interned, rfl, rfl⟩ := first
      have sound' := (sound.interns (.text interned)).1
      rw [List.flatten_cons, List.singleton_append, List.pairwise_cons]
      refine ⟨fun r among => ?_, ih sound' apart.2⟩
      obtain ⟨offset', content', id', mem, rfl, -⟩ := mem_valuePointers rest sound' r among
      have disjoint := apart.1 _ mem
      apply apart_pointers
      have ranges : Disjoint (Set.Ico offset (offset + 8)) (Set.Ico offset' (offset' + 8)) :=
        disjoint
      rw [Set.Ico_disjoint_Ico] at ranges
      omega

end

section

variable {program : Program} {layout : Layout} {settings : Settings} {plan : Plan} {p q : Pool}

def BoundAt (symbols : SymbolTable) (id : SymbolId) (kind : SectionKind) (offset : Nat) : Prop :=
  ∃ s, symbols.get? id = some s ∧ s.kind = kind ∧ s.offset = offset ∧ s.isBound = true

namespace BoundAt

variable {t u : SymbolTable} {id : SymbolId} {kind : SectionKind} {offset : Nat}

lemma keeps (bound : BoundAt t id kind offset) (keeps : t.Keeps u) : BoundAt u id kind offset := by
  obtain ⟨s, found, kind, place, isBound⟩ := bound
  obtain ⟨_, found', -, -, same⟩ := keeps id s found
  rw [same isBound] at found'
  exact ⟨s, found', kind, place, isBound⟩

lemma of_bind {old : Symbol} (known : t.get? id = some old) (inside : old.kind = kind)
    (bound : t.bind id offset = .ok u) : BoundAt u id kind offset := by
  obtain ⟨_, here, -, rfl⟩ := SymbolTable.bind_ok.1 bound
  obtain rfl := Option.some.inj (known.symm.trans here)
  rw [BoundAt, SymbolTable.get?, SymbolTable.symbols_place here]
  exact ⟨_, List.getElem?_set_self (List.getElem?_eq_some_iff.1 here).1, inside, rfl, rfl⟩

end BoundAt

/-- Data that has the initial state of every agent, once the addresses are stored. The arena comes
first, and the heap cursor behind it. -/
structure HoldsState (program : Program) (layout : Layout) (data : DataSection)
    (pointers : List Relocation) (symbols : SymbolTable) (rodata : DataSection) : Prop where
  arena : BoundAt symbols stateArena .data 0
  numbers : ∀ a f slot, IsField program layout a f slot → f.type ≠ .str →
    slice data.bytes (a.base + slot.offset) (a.base + slot.offset + slot.type.size) =
      littleEndianInt f.type.size f.initialNumber
  zeros : ∀ x < layout.stateSize, (∀ a f slot, IsField program layout a f slot →
    x ∉ a.fieldBytes slot) → data.bytes[x]? = some 0
  texts : ∀ a f slot, IsField program layout a f slot → f.type = .str →
    ∃ id, pointer (a.base + slot.offset) id ∈ pointers ∧ HoldsConstant symbols rodata id
    (terminated f.initialText)
  cursor : ∃ offset, BoundAt symbols heapCursor .data offset ∧ pointer offset heap ∈ pointers
  sites : ∀ r ∈ pointers, ∃ offset id, r = pointer offset id ∧
    ((layout.stateSize ≤ offset ∧ id = heap) ∨ ∃ a f slot, IsField program layout a f slot ∧
      f.type = .str ∧ offset = a.base + slot.offset)
  apart : pointers.Pairwise (Relocation.Apart .data)

lemma HoldsState.extends {data : DataSection} {pointers : List Relocation}
    (holds : HoldsState program layout data pointers p.symbols p.rodata) (extended : p.Extends q)
    (kind : p.rodata.kind = .rodata) : HoldsState program layout data pointers q.symbols
    q.rodata where
  arena := holds.arena.keeps extended.symbols
  numbers := holds.numbers
  zeros := holds.zeros
  texts a f slot field text := by
    obtain ⟨id, pointed, content⟩ := holds.texts a f slot field text
    exact ⟨id, pointed, extended.holds kind content⟩
  cursor := by
    obtain ⟨offset, bound, pointed⟩ := holds.cursor
    exact ⟨offset, bound.keeps extended.symbols, pointed⟩
  sites := holds.sites
  apart := holds.apart

lemma arena_prefix (arena : Bytes) :
    arena <+: (((empty .data).append arena 16).2.append (littleEndian 8 0) 8).2.bytes := by
  obtain ⟨kind, -, first⟩ := append_bytes (d := .empty .data) rfl (by decide) arena 16
  obtain ⟨start, -⟩ := length_data arena
  rw [start, List.drop_zero] at first
  conv => lhs; rw [← first]
  exact (append_bytes kind (by decide) (littleEndian 8 0) 8).2.1

lemma layOutData_holdsState {sections : DataPlan} {s t : Symbol}
    (analyzed : analyze program settings = .ok layout) (run : layOutData program layout p =
    .ok (sections, q)) (lacks : p.Lacks due) (sound : p.IsSound)
    (stores : p.Stores) (arena : p.symbols.get? stateArena = some s)
    (inData : s.kind = .data) (cursor : p.symbols.get? heapCursor = some t)
    (inData' : t.kind = .data) :
    HoldsState program layout sections.data sections.relocations q.symbols q.rodata := by
  have accepted := analyze_isAccepted analyzed
  obtain ⟨content, data, symbols, pointers, p', symbols', rfl, rfl, bound, pointed, bound',
      rfl, rfl⟩ :=
    layOutData_ok run
  obtain ⟨parts, made, rfl⟩ := textPointers_ok pointed
  set content := initialArena layout.stateSize (initialValues program layout) with filled
  obtain ⟨start, -, behind, -⟩ := length_data content
  rw [start] at made bound
  have size : layout.stateSize ≤ content.length := stateSize_le_length accepted
  have early {x : Nat} (inside : x < layout.stateSize) :
      (((empty .data).append content 16).2.append (littleEndian 8 0) 8).2.bytes[x]? =
          content[x]? := by
    obtain ⟨rest, whole⟩ := arena_prefix content
    rw [← whole, List.getElem?_append_left (by omega)]
  have sound' := isSound_of_keeps sound (.bind bound)
  have lacks' := lacks.bind bound
  have stores' := stores.of_symbols (.bind bound)
  have laid := Extends.laid (laid_of_valuePointers made)
  have last := Keeps.bind bound'
  have among (r : Relocation) (mem : r ∈ parts.flatten) : ∃ a f slot id,
      IsField program layout a f slot ∧ f.type = .str ∧ r = pointer (a.base + slot.offset) id := by
    obtain ⟨offset, text, id, value, rfl, -⟩ := mem_valuePointers made sound' r mem
    obtain ⟨a, f, slot, field, type, rfl, -⟩ := field_of_text value
    rw [zero_add]
    exact ⟨a, f, slot, id, field, type, rfl⟩
  refine ⟨?_, ?_, ?_, ?_, ?_, ?_, ?_⟩
  · exact ((BoundAt.of_bind arena inData bound).keeps laid.symbols).keeps last
  · intro a f slot field number
    have bounds := field.bounds accepted
    rw [← slice_initialArena analyzed field number]
    exact slice_congr fun x _ high => early (by omega)
  · intro x inside free
    rw [early inside]
    refine getElem?_initialArena accepted inside fun v mem => ?_
    obtain ⟨a, f, slot, field, value⟩ := mem_initialValues.1 mem
    rw [field.span_eq accepted value]
    exact free a f slot field
  · intro a f slot field text
    have value := mem_initialValues.2 ⟨a, f, slot, field, by rw [initialValue?_eq field.place,
      if_pos text]⟩
    obtain ⟨id, pointed, holds⟩ := (valuePointers_texts made lacks' stores').2 _ _ value
    rw [zero_add] at pointed
    exact ⟨id, List.mem_append_left _ pointed, holds.keeps last List.prefix_rfl⟩
  · obtain ⟨u, known, -, kind, -⟩ := ((Keeps.bind bound).trans laid.symbols) _ _ cursor
    have isBound := BoundAt.of_bind known (kind.trans inData') bound'
    exact ⟨_, isBound, List.mem_append_right _ (List.mem_singleton.2 rfl)⟩
  · intro r mem
    rcases List.mem_append.1 mem with first | final
    · obtain ⟨a, f, slot, id, field, text, rfl⟩ := among r first
      exact ⟨_, id, rfl, .inr ⟨a, f, slot, field, text, rfl⟩⟩
    · exact ⟨_, _, List.mem_singleton.1 final, .inl ⟨size.trans behind, rfl⟩⟩
  · rw [List.pairwise_append]
    refine ⟨valuePointers_apart made sound' (initialValues_apart analyzed),
      List.pairwise_singleton _ _, ?_⟩
    intro r first r' final
    obtain ⟨a, f, slot, id, field, text, rfl⟩ := among r first
    obtain rfl := List.mem_singleton.1 final
    have bounds := field.bounds accepted
    rw [field.type_eq accepted, text] at bounds
    exact apart_pointers (.inl (bounds.trans (size.trans behind)))

lemma StorageRun.stores {cap : Nat} {sections final : DataPlan} {agents : List AgentLayout}
    (run : StorageRun cap sections p agents final q) (stores : p.Stores) : q.Stores := by
  induction run with
  | nil => exact stores
  | cons first _ ih =>
    obtain ⟨_, _, _, _, _, _, -, defined, -, defined', rfl, -⟩ := addStorage_ok first
    exact ih (stores.of_symbols ((Keeps.define defined).trans (.define defined')))

lemma initial_stores {ls : List Label} (labels : initial.Names ls p) : p.Stores := by
  rw [labels.rest_eq]
  exact ⟨rfl, by simp [constants, initial]⟩

lemma make_stores (made : make program layout settings .initial = .ok (plan, q)) : q.Stores := by
  obtain ⟨handlers, helpers, p1, sections, p2, all, named, data, storage, rfl⟩ := make_ok made
  obtain ⟨⟨ls, labels, -⟩, -, -⟩ := nameRoutines_ok named
  obtain ⟨_, _, symbols, pointers, p', symbols', -, -, bound, pointed, bound', rfl, rfl⟩ :=
    layOutData_ok data
  obtain ⟨parts, stored, -⟩ := textPointers_ok pointed
  obtain ⟨sections', p'', symbols'', run, last, rfl, rfl⟩ := layOutStorage_ok storage
  have lacks := (lacks_initial.grows (.names labels)).bind bound
  have texts := (valuePointers_texts stored lacks ((initial_stores labels).of_symbols
    (.bind bound))).1
  exact (run.stores (texts.of_symbols (.bind bound'))).of_symbols (.bind last)

lemma make_holdsState (analyzed : analyze program settings = .ok layout)
    (made : make program layout settings .initial = .ok (plan, q)) :
    HoldsState program layout plan.sections.data plan.sections.relocations q.symbols q.rodata ∧
      plan.sections.data.kind = .data ∧ plan.sections.bss.kind = .bss ∧ q.rodata.kind =
      .rodata := by
  obtain ⟨handlers, helpers, p1, sections, p2, all, named, data, storage, rfl⟩ := make_ok made
  obtain ⟨⟨ls, labels, -⟩, -, -⟩ := nameRoutines_ok named
  have sound := initial_isSound.names labels
  have fixed : p1.symbols = fixedSymbols := by
    rw [labels.rest_eq]
    rfl
  have lacks := lacks_initial.grows (.names labels)
  have holds := layOutData_holdsState analyzed data lacks sound (initial_stores labels)
    (s := ⟨"agent_state", .data, 0, false⟩) (t := ⟨"heap_ptr", .data, 0, false⟩)
    (by rw [fixed]; rfl) rfl (by rw [fixed]; rfl) rfl
  obtain ⟨⟨lacks', -⟩, kind, empty, -⟩ := layOutData_facts data (analyze_isAccepted analyzed)
    lacks sound
  obtain ⟨sections', p', symbols, run, last, rfl, rfl⟩ := layOutStorage_ok storage
  obtain ⟨same, pointers, kind', -⟩ := run.sections (by rw [empty]; rfl)
  have extended := (Extends.laid run.laid).trans (.of_symbols (.bind last))
  simp only [same, pointers]
  exact ⟨holds.extends extended lacks'.rodata_kind, kind, (reserve_bss kind' _).1,
    (extended.rodata lacks'.rodata_kind).1⟩

end

end Plan

end AgentCompiler
