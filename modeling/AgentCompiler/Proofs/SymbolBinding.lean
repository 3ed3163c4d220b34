import AgentCompiler.Proofs.EntryPoints
import AgentCompiler.Proofs.InitialValues

/-!
Every symbol gets an offset. Three symbols are declared before the sections are laid out, and each
of them is bound once the section that holds it is; all others are bound where they are defined,
under names of their own. So a complete table leaves nothing to be resolved, and no symbol stands
in a section that is left out of the image.
-/

namespace AgentCompiler

open Pool DataSection

/-- Only the symbols in `due` wait for their offsets. Their names have no dot, which all names
defined later have. -/
structure SymbolTable.Lacks (t : SymbolTable) (due : List SymbolId) : Prop where
  due : ∀ id s, t.get? id = some s → s.isBound = false → id ∈ due ∧ '.' ∉ s.name.toList
  kinds : ∀ id s, t.get? id = some s → s.kind ≠ .text

namespace SymbolTable.Lacks

variable {t u : SymbolTable} {due : List SymbolId} {id other : SymbolId} {name : String}
  {offset : Nat} {kind : SectionKind}

lemma get?_place {old s : Symbol} (hold : t.get? id = some old)
    (hs : (t.place id offset).get? other = some s) :
    (other = id ∧ s = { old with offset := offset, isBound := true }) ∨
        (other ≠ id ∧ t.get? other = some s) := by
  rw [get?, symbols_place hold] at hs
  by_cases same : other = id
  · subst same
    rw [List.getElem?_set_self (List.getElem?_eq_some_iff.1 hold).1] at hs
    exact .inl ⟨rfl, (Option.some.inj hs).symm⟩
  · have ne : id.index ≠ other.index := fun eq => same (congrArg SymbolId.mk eq.symm)
    exact .inr ⟨same, (List.getElem?_set_ne ne).symm.trans hs⟩

lemma get?_append {new s : Symbol} (grown : u.symbols = t.symbols ++ [new])
    (hs : u.get? other = some s) :
    t.get? other = some s ∨ s = new := by
  rw [get?, grown] at hs
  by_cases lt : other.index < t.symbols.length
  · exact .inl ((List.getElem?_append_left lt).symm.trans hs)
  · have fresh := (List.getElem?_append_right (not_lt.1 lt)).symm.trans hs
    exact .inr (List.mem_singleton.1 (List.mem_of_getElem? fresh))

section

variable (h : t.Lacks due)
include h

lemma bind (binds : t.bind id offset = .ok u) :
    u.Lacks (due.filter (· != id)) ∧ u.size = t.size := by
  obtain ⟨old, hold, -, rfl⟩ := bind_ok.1 binds
  have typed := h.kinds id _ hold
  refine ⟨⟨?_, ?_⟩, by simp [size, symbols_place hold]⟩
  · intro other s hs free
    obtain ⟨-, rfl⟩ | ⟨ne, hs⟩ := get?_place hold hs
    · simp at free
    · obtain ⟨mem, dot⟩ := h.due other s hs free
      exact ⟨List.mem_filter.2 ⟨mem, by simpa using ne⟩, dot⟩
  · intro other s hs
    obtain ⟨-, rfl⟩ | ⟨-, hs⟩ := get?_place hold hs
    · exact typed
    · exact h.kinds other s hs

lemma new (dot : '.' ∈ name.toList) (define : t.define name kind offset = .ok (id, u)) :
    t.lookup? name = none :=
  new_of_define define fun id s hs free named => (h.due id s hs free).2 (named ▸ dot)

lemma define (typed : kind ≠ .text) (dot : '.' ∈ name.toList)
    (defines : t.define name kind offset = .ok (id, u)) :
    u.Lacks due ∧ u.symbols = t.symbols ++ [⟨name, kind, offset, true⟩] := by
  obtain ⟨new, rfl, rfl⟩ | ⟨_, lookup, -⟩ := define_ok.1 defines
  · refine ⟨⟨?_, ?_⟩, symbols_added new⟩
    · intro other s hs free
      obtain hs | rfl := get?_append (symbols_added new) hs
      · exact h.due other s hs free
      · simp at free
    · intro other s hs
      obtain hs | rfl := get?_append (symbols_added new) hs
      · exact h.kinds other s hs
      · exact typed
  · simp [h.new dot defines] at lookup

lemma get?_define (dot : '.' ∈ name.toList) (define : t.define name kind offset = .ok (id, u)) :
    u.get? id = some ⟨name, kind, offset, true⟩ := by
  rw [SymbolTable.get?_define define, section?, h.new dot define]
  rfl

end

end SymbolTable.Lacks

/-- Only the symbols in `due` wait for their offsets, and constants stand in a section that has
bytes. -/
structure Pool.Lacks (p : Pool) (due : List SymbolId) : Prop extends p.symbols.Lacks due where
  rodata_kind : p.rodata.kind = .rodata
  rodata : ∀ id s, p.symbols.get? id = some s → s.kind = .rodata → p.rodata.isEmpty = false

namespace Pool.Lacks

variable {p q : Pool} {due : List SymbolId} {id : SymbolId} {symbols : SymbolTable}
  {content : Bytes}

lemma append_facts {d : DataSection} {align : Nat} (typed : d.kind = .rodata)
    (hcontent : content ≠ []) :
    (d.append content align).2.kind = .rodata ∧ (d.append content align).2.isEmpty = false := by
  have length := List.length_pos_iff.2 hcontent
  constructor
  · simp [append, typed]
  · simp only [isEmpty, size, append, typed, List.length_append, beq_eq_false_iff_ne]
    omega

section

variable (h : p.Lacks due)
include h

lemma interns (run : p.Interns content id q) : q.Lacks due := by
  obtain ⟨-, rfl⟩ | ⟨_, _, symbols, _, _, dot, full, define, rfl, -⟩ := run.cases
  · exact h
  · obtain ⟨typed, full⟩ := append_facts h.rodata_kind full
    exact { (h.toLacks.define (by decide) dot define).1 with rodata_kind := typed, rodata := fun _ _
      _ _ => full }

lemma grows (hgrows : p.Grows q) : q.Lacks due := by
  induction hgrows with
  | names named => exact named.rest_eq ▸ ⟨h.toLacks, h.rodata_kind, h.rodata⟩
  | interns run => exact h.interns run
  | trans _ _ ih1 ih2 => exact ih2 (ih1 h)

lemma bind {offset : Nat} (binds : p.symbols.bind id offset = .ok symbols) :
    Pool.Lacks { p with symbols } (due.filter (· != id)) where
  toLacks := (h.toLacks.bind binds).1
  rodata_kind := h.rodata_kind
  rodata := by
    obtain ⟨old, hold, -, rfl⟩ := SymbolTable.bind_ok.1 binds
    have constant := h.rodata id _ hold
    intro other s hs typed
    obtain ⟨-, rfl⟩ | ⟨-, hs⟩ := SymbolTable.Lacks.get?_place hold hs
    · exact constant typed
    · exact h.rodata other s hs typed

lemma define {name : String} {offset : Nat} (dot : '.' ∈ name.toList)
    (defines : p.symbols.define name .bss offset = .ok (id, symbols)) :
    Pool.Lacks { p with symbols } due ∧ symbols.size = p.symbols.size + 1 := by
  obtain ⟨resolved, eq⟩ := h.toLacks.define (by decide) dot defines
  refine ⟨{ resolved with rodata_kind := h.rodata_kind, rodata := ?_ }, by simp [SymbolTable.size,
    eq]⟩
  intro other s hs typed
  obtain hs | rfl := SymbolTable.Lacks.get?_append eq hs
  · exact h.rodata other s hs typed
  · simp at typed

end

end Pool.Lacks

lemma Settings.validate_ok {settings : Settings} (h : settings.validate = .ok ()) :
    1 ≤ settings.heapSize.toNat ∧ settings.heapSize.toNat ≤ maxHeapSize ∧
      settings.queueCapacity.toNat ≤ maxQueueCapacity ∧
      settings.loadAddress.toNat < loadAddressBound := by
  simp only [validate, ite_throw_ok, not_or, not_lt] at h
  obtain ⟨⟨heap, heap'⟩, ⟨-, queue⟩, -, h⟩ := h
  split at h
  next => simp at h
  next load => exact ⟨pos_of_ne_zero heap, heap', queue, not_le.1 load⟩

namespace Plan

variable {program : Program} {layout : Layout} {settings : Settings} {plan : Plan} {p q : Pool}
  {due : List SymbolId} {agents : List AgentLayout} {values : List InitialValue}
  {parts : List (List Relocation)} {cap start : Nat}

lemma lacks_initial : initial.Lacks [stateArena, heap, heapCursor] := by
  have cases : ∀ id s, initial.symbols.get? id = some s →
      (id, s) ∈ [(stateArena, (⟨"agent_state", .data, 0, false⟩ : Symbol)),
        (heap, ⟨"heap", .bss, 0, false⟩), (heapCursor, ⟨"heap_ptr", .data, 0, false⟩)] := by
    intro id s hs
    obtain ⟨_ | _ | _ | n⟩ := id
    · obtain rfl := Option.some.inj hs
      simp [stateArena]
    · obtain rfl := Option.some.inj hs
      simp [heap]
    · obtain rfl := Option.some.inj hs
      simp [heapCursor]
    · simp [SymbolTable.get?, show initial.symbols.symbols = [⟨"agent_state", .data, 0, false⟩,
        ⟨"heap", .bss, 0, false⟩, ⟨"heap_ptr", .data, 0, false⟩] from rfl] at hs
  refine ⟨⟨?_, ?_⟩, rfl, ?_⟩
  all_goals
    intro id s hs
    have mem := cases id s hs
    simp only [List.mem_cons, Prod.mk.injEq, List.not_mem_nil, or_false] at mem
    obtain ⟨rfl, rfl⟩ | ⟨rfl, rfl⟩ | ⟨rfl, rfl⟩ := mem <;> decide

lemma StorageRun.lacks {sections final : DataPlan}
    (h : StorageRun cap sections p agents final q) (hp : p.Lacks due) :
    q.Lacks due ∧ q.symbols.size = p.symbols.size + 2 * agents.length := by
  induction h with
  | nil sections p => exact ⟨hp, rfl⟩
  | cons first _ ih =>
    obtain ⟨_, queue, symbols, _, slot, symbols', -, queued, -, within, rfl, -⟩ :=
      addStorage_ok first
    obtain ⟨hp1, size1⟩ := hp.define (dotted _ (by decide)) queued
    obtain ⟨hp2, size2⟩ := hp1.define (dotted _ (by decide)) within
    obtain ⟨hq, size⟩ := ih hp2
    refine ⟨hq, ?_⟩
    rw [size, size2, size1, List.length_cons]
    omega

lemma lacks_of_valuePointers (h : Emit.MapRun (valuePointer start) p values parts q) :
    p.Lacks due → q.Lacks due := by
  refine valuePointers_rel (R := fun p q => p.Lacks due → q.Lacks due) (fun _ hp => hp) ?_ ?_ h
  · exact fun ps sq hp => sq (ps hp)
  · exact fun text hp => hp.interns (.text text)

section

lemma mem_valuePointers (h : Emit.MapRun (valuePointer start) p values parts q) (hp : p.IsSound) :
    ∀ r ∈ parts.flatten, ∃ offset content s, .text offset content ∈ values ∧
      r = pointer (start + offset) s ∧ s.index < q.symbols.size := by
  induction h with
  | nil p => simp
  | @cons p s q value part values parts first rest ih =>
    have keeps := (laid_of_valuePointers rest).keeps
    rw [List.flatten_cons, List.forall_mem_append]
    cases value with
    | bytes offset content =>
      obtain ⟨rfl, rfl⟩ := Emit.pure_ok.1 first
      refine ⟨by simp, fun r hr => ?_⟩
      obtain ⟨offset, content, id, mem, hpointer⟩ := ih hp r hr
      exact ⟨offset, content, id, List.mem_cons_of_mem _ mem, hpointer⟩
    | text offset content =>
      simp only [valuePointer, Emit.bind_ok, Emit.pure_ok] at first
      obtain ⟨id, _, named, rfl, rfl⟩ := first
      obtain ⟨hs, lt⟩ := hp.interns (.text named)
      refine ⟨fun r hr => ?_, fun r hr => ?_⟩
      · exact ⟨offset, content, id, List.mem_cons_self, List.mem_singleton.1 hr,
          lt.trans_le keeps.size_le⟩
      · obtain ⟨offset, content, id, mem, hpointer⟩ := ih hs r hr
        exact ⟨offset, content, id, List.mem_cons_of_mem _ mem, hpointer⟩

/-- Space reserved without bytes. Offsets may wrap around, and then the section is smaller. -/
lemma reserve_bss {d : DataSection} (typed : d.kind = .bss) (count : Nat) :
    (d.reserve count 16).2.kind = .bss ∧ (d.reserve count 16).1 ≤ d.size + 15 ∧
      (d.reserve count 16).2.size = toWord ((d.reserve count 16).1 + count) := by
  have align : alignUp d.size 16 < d.size + 16 := alignUp_lt (by decide)
  have word : d.nextOffset 16 ≤ alignUp d.size 16 := by
    rw [nextOffset, typed]
    exact Nat.mod_le _ _
  refine ⟨by simp [reserve, typed], ?_, by
    simp [reserve, size, typed]⟩
  simp only [reserve]
  omega

lemma StorageRun.sections {sections final : DataPlan}
    (h : StorageRun cap sections p agents final q) (typed : sections.bss.kind = .bss) :
    final.data = sections.data ∧ final.relocations = sections.relocations ∧ final.bss.kind = .bss ∧
      final.bss.size ≤ sections.bss.size + agents.length * (queueSize cap + slotSize + 30) := by
  induction h with
  | nil sections p => exact ⟨rfl, rfl, typed, by simp⟩
  | @cons sections sections' final p s q agent rest first _ ih =>
    obtain ⟨_, queue, symbols, _, slot, symbols', rfl, -, rfl, -, -, rfl⟩ := addStorage_ok first
    obtain ⟨kind1, offset1, size1⟩ := reserve_bss typed (queueSize cap)
    obtain ⟨kind2, offset2, size2⟩ := reserve_bss kind1 slotSize
    obtain ⟨data, relocations, hfinal, size⟩ := ih kind2
    refine ⟨data, relocations, hfinal, size.trans ?_⟩
    have word1 := Nat.mod_le ((sections.bss.reserve (queueSize cap) 16).1 + queueSize cap)
      UInt64.size
    have word2 := Nat.mod_le (((sections.bss.reserve (queueSize cap) 16).2.reserve slotSize 16).1
      + slotSize) UInt64.size
    simp only [toWord] at size1 size2
    rw [List.length_cons, Nat.succ_mul]
    simp only [size2]
    omega

lemma length_data (arena : Bytes) : let data := (empty .data).append arena 16
    let cursor := data.2.append (littleEndian 8 0) 8
    data.1 = 0 ∧ cursor.2.kind = .data ∧ arena.length ≤ cursor.1 ∧ cursor.2.bytes.length =
        cursor.1 + 8 := by
  have le := le_alignUp arena.length 8
  have begins : alignUp 0 16 = 0 := by decide
  simp only [append, empty, nextOffset, size,
    List.length_nil, begins, resize, List.take_nil, Nat.sub_self, List.replicate_zero,
    List.nil_append, List.length_append, length_littleEndian]
  refine ⟨trivial, trivial, le, ?_⟩
  simp only [List.length_take, List.length_replicate]
  omega

/-- An address to be stored: its place lies in the data, and its symbol in the table. -/
def IsPointer (data : DataSection) (symbols : SymbolTable) (r : Relocation) : Prop :=
  r.site = .data ∧ r.kind = .absolute ∧ r.symbol.index < symbols.size ∧ r.offset + r.kind.width ≤
    data.bytes.length

lemma layOutData_facts {sections : DataPlan} (h : layOutData program layout p = .ok (sections, q))
    (haccepted : Layout.IsAccepted program layout) (hp : p.Lacks due) (sound : p.IsSound) :
    (q.Lacks ((due.filter (· != stateArena)).filter (· != heapCursor)) ∧ q.IsSound) ∧
      sections.data.kind = .data ∧ sections.bss = .empty .bss ∧ sections.data.isEmpty = false ∧
      ∀ r ∈ sections.relocations, IsPointer sections.data q.symbols r := by
  obtain ⟨arena, data, symbols, pointers, p', symbols', harena, rfl, begins, hpointers, cursor, rfl,
    rfl⟩ := layOutData_ok h
  obtain ⟨parts, split, rfl⟩ := textPointers_ok hpointers
  have inside := initialValues_inside haccepted
  have length := harena ▸ stateSize_le_length haccepted
  obtain ⟨base, typed, le, stored⟩ := length_data arena
  have sound1 := isSound_of_keeps sound (.bind begins)
  have sound2 := (laid_of_valuePointers split).isSound sound1
  have sound3 := isSound_of_keeps sound2 (.bind cursor)
  have lacks := lacks_of_valuePointers split (hp.bind begins)
  have keeps := SymbolTable.Keeps.bind cursor
  refine ⟨⟨lacks.bind cursor, sound3⟩, typed, rfl, ?_, ?_⟩
  · simp only [isEmpty, size, typed, stored, beq_eq_false_iff_ne]
    omega
  · rw [List.forall_mem_append]
    constructor
    · intro r hr
      obtain ⟨offset, content, id, mem, rfl, named⟩ := mem_valuePointers split sound1 r hr
      have value : offset + 8 ≤ layout.stateSize := inside _ mem
      refine ⟨rfl, rfl, named.trans_le keeps.size_le, ?_⟩
      simp only [pointer, RelocationKind.width, base, stored]
      omega
    · intro r hr
      obtain rfl := List.mem_singleton.1 hr
      have hheap : heap.index < 3 := by decide
      refine ⟨rfl, rfl, hheap.trans_le sound3.fixed, ?_⟩
      exact stored.symm.le

lemma receivers_space {n : Nat} (valid : settings.validate = .ok ()) (count : n < 0x80000000) :
    n * (queueSize settings.queueCapacity.toNat + slotSize + 30) ≤ 0x80000000 * 1048646 := by
  obtain ⟨-, -, queue, -⟩ := Settings.validate_ok valid
  simp only [Settings.maxQueueCapacity] at queue
  refine Nat.mul_le_mul (by omega) ?_
  simp only [queueSize, queueHeaderSize, queueEntrySize, slotSize]
  omega

lemma layOutStorage_facts {sections all : DataPlan}
    (h : layOutStorage layout settings sections p = .ok (all, q))
    (bss : sections.bss = .empty .bss) (hp : p.Lacks due)
    (valid : settings.validate = .ok ()) (resolved : q.symbols.size < 0x100000000) :
    all.data = sections.data ∧ all.relocations = sections.relocations ∧
      p.symbols.size ≤ q.symbols.size ∧ all.bss.kind = .bss ∧ all.bss.isEmpty = false := by
  obtain ⟨sections', p', symbols, run, last, rfl, rfl⟩ := layOutStorage_ok h
  obtain ⟨heap, heap', queue, -⟩ := Settings.validate_ok valid
  simp only [Settings.maxHeapSize, Settings.maxQueueCapacity] at heap' queue
  obtain ⟨lacks, size⟩ := run.lacks hp
  obtain ⟨data, relocations, typed, bound⟩ := run.sections (by rw [bss]; rfl)
  obtain ⟨kind', placed, final⟩ := reserve_bss typed settings.heapSize.toNat
  have same := (lacks.toLacks.bind last).2
  refine ⟨data, relocations, by simp only [same]; omega, kind', ?_⟩
  -- Each receiver has two symbols, so there are too few of them for sizes to wrap around.
  have space := receivers_space (n := (receivers layout).length) valid (by
    simp only [same] at resolved
    omega)
  have empty : sections.bss.size = 0 := by rw [bss]; rfl
  have word : toWord ((sections'.bss.reserve settings.heapSize.toNat 16).1 +
      settings.heapSize.toNat) = _ := toWord_eq_self (by simp only [UInt64.size]; omega)
  simp only [isEmpty, final, word, beq_eq_false_iff_ne]
  omega

/-- What a plan has laid out. All symbols are bound, data and zero-initialised section are not
empty, and each address to be stored has its place in the data. -/
structure IsLaidOut (plan : Plan) (q : Pool) : Prop where
  lacks : q.Lacks []
  data_kind : plan.sections.data.kind = .data
  bss_kind : plan.sections.bss.kind = .bss
  data_full : plan.sections.data.isEmpty = false
  bss_full : plan.sections.bss.isEmpty = false
  pointers : ∀ r ∈ plan.sections.relocations, IsPointer plan.sections.data q.symbols r

variable (h : make program layout settings .initial = .ok (plan, q))
  (haccepted : Layout.IsAccepted program layout)
include h haccepted

lemma make_lacks : q.Lacks [] := by
  obtain ⟨handlers, helpers, p1, sections, p2, all, names, data, storage, rfl⟩ := make_ok h
  obtain ⟨⟨ls, labelled, -⟩, -, -⟩ := nameRoutines_ok names
  obtain ⟨⟨lacks, sound⟩, -⟩ :=
    layOutData_facts data haccepted (lacks_initial.grows (.names labelled))
      (initial_isSound.names labelled)
  obtain ⟨sections', p', symbols, run, last, rfl, rfl⟩ := layOutStorage_ok storage
  exact (run.lacks lacks).1.bind last

lemma make_isLaidOut (valid : settings.validate = .ok ())
    (resolved : q.symbols.size < 0x100000000) :
    plan.IsLaidOut q := by
  obtain ⟨handlers, helpers, p1, sections, p2, all, names, data, storage, rfl⟩ := make_ok h
  obtain ⟨⟨ls, labelled, -⟩, -, -⟩ := nameRoutines_ok names
  obtain ⟨⟨hlacks, sound'⟩, typed, bss, full, hpointers⟩ :=
    layOutData_facts data haccepted (lacks_initial.grows (.names labelled))
      (initial_isSound.names labelled)
  obtain ⟨same, relocations, le, kind', full'⟩ := layOutStorage_facts storage bss hlacks
    valid resolved
  exact {
    lacks := make_lacks h haccepted
    data_kind := same ▸ typed
    bss_kind := kind'
    data_full := same ▸ full
    bss_full := full'
    pointers := fun r hr => by
      obtain ⟨site, absolute, named, inside⟩ := hpointers r (relocations ▸ hr)
      exact ⟨site, absolute, named.trans_le le, same ▸ inside⟩ }

end

end Plan

end AgentCompiler
