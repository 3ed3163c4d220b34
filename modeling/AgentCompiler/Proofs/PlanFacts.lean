import AgentCompiler.Proofs.Writing

/-!
What a plan holds: an entry point for each unit of each agent and for each helper of its template,
numbered on from the services, and symbols for everything that code refers to.
-/

namespace AgentCompiler

open Pool List SymbolTable

namespace Plan

variable {program : Program} {layout : Layout} {settings : Settings} {p q : Pool} {plan : Plan}
  {agent : AgentLayout}

lemma make_ok (h : make program layout settings p = .ok (plan, q)) :
    ∃ handlers helpers p1 sections p2 all, nameRoutines program layout p =
        .ok ((handlers, helpers), p1) ∧ layOutData program layout p1 = .ok (sections, p2) ∧
      layOutStorage layout settings sections p2 = .ok (all, q) ∧
      plan = ⟨program, layout, settings, handlers, helpers, all⟩ := by
  simp only [make, Emit.bind_ok, Emit.pure_ok, Prod.exists] at h
  obtain ⟨handlers, helpers, p1, names, sections, p2, data, all, _, storage, rfl, rfl⟩ := h
  exact ⟨handlers, helpers, p1, sections, p2, all, names, data, storage, rfl⟩

section

variable {named : List ((String × String) × Label)}

def handlerKeys (layout : Layout) (agent : AgentLayout) : List (String × String) :=
  (layout.agentUnits agent.name).map fun pair => (agent.name, pair.1.name)

def helperKeys (program : Program) (agent : AgentLayout) : List (String × String) :=
  ((program.template? agent.template).map fun t =>
    t.helpers.map fun helper => (agent.name, helper.name)).getD []

def NamesKeys (p : Pool) (keys : List (String × String)) (named : List ((String × String) × Label))
    (q : Pool) : Prop :=
  p.Names (named.map (·.2)) q ∧ named.map (·.1) = keys

lemma namesKeys_of_mapRun {α : Type} {name : α → String} {key : α → String × String}
    {items : List α} (h : Emit.MapRun (fun a => do let l ← Emit.entry (name a); pure (key a, l)) p
    items named q) :
    NamesKeys p (items.map key) named q := by
  induction h with
  | nil p => exact ⟨.nil p, rfl⟩
  | @cons p s q a pair items named first _ ih =>
    simp only [Emit.bind_ok, Emit.pure_ok] at first
    obtain ⟨l, _, hl, rfl, rfl⟩ := first
    exact ⟨(Pool.Names.entry hl).append ih.1, congrArg (key a :: ·) ih.2⟩

lemma nameHandlers_ok (h : nameHandlers layout agent p = .ok (named, q)) :
    NamesKeys p (handlerKeys layout agent) named q :=
  namesKeys_of_mapRun (Emit.mapM_ok.1 h)

lemma nameHelpers_ok (h : nameHelpers agent (program.template? agent.template) p = .ok (named, q)) :
    NamesKeys p (helperKeys program agent) named q := by
  cases template : program.template? agent.template with
  | none =>
    simp only [nameHelpers, template, Emit.pure_ok] at h
    obtain ⟨rfl, rfl⟩ := h
    exact ⟨.nil p, by simp [helperKeys, template]⟩
  | some t =>
    simp only [nameHelpers, template] at h
    simpa [helperKeys, template] using namesKeys_of_mapRun (Emit.mapM_ok.1 h)

lemma nameRoutines_ok {handlers helpers : List ((String × String) × Label)}
    (h : nameRoutines program layout p = .ok ((handlers, helpers), q)) :
    (∃ ls, p.Names ls q ∧ ls.Perm (handlers.map (·.2) ++ helpers.map (·.2))) ∧
      handlers.map (·.1) = layout.agents.flatMap (handlerKeys layout) ∧
      helpers.map (·.1) = layout.agents.flatMap (helperKeys program) := by
  simp only [nameRoutines, Emit.bind_ok, Emit.mapM_ok, Emit.pure_ok, Prod.mk.injEq] at h
  obtain ⟨pairs, _, hpairs, ⟨rfl, rfl⟩, rfl⟩ := h
  generalize layout.agents = agents at hpairs ⊢
  induction hpairs with
  | nil p => exact ⟨⟨[], .nil p, by simp⟩, rfl, rfl⟩
  | @cons p s q agent pair agents pairs first _ ih =>
    simp only [Emit.bind_ok, Emit.pure_ok] at first
    obtain ⟨named, p1, hnamed, others, _, differ, rfl, rfl⟩ := first
    obtain ⟨names1, keys1⟩ := nameHandlers_ok hnamed
    obtain ⟨names2, keys2⟩ := nameHelpers_ok differ
    obtain ⟨⟨ls, labelled, perm⟩, handled, helped⟩ := ih
    refine ⟨⟨_, (names1.append names2).append labelled, ?_⟩, ?_, ?_⟩
    · simp only [flatMap_cons, map_append, append_assoc]
      refine List.Perm.append_left _ ?_
      calc List.map (·.2) others ++ ls
          _ |>.Perm (List.map (·.2) others ++ (List.map (·.2) (pairs.flatMap (·.1)) ++
              List.map (·.2) (pairs.flatMap (·.2)))) := perm.append_left _
          _ |>.Perm (List.map (·.2) (pairs.flatMap (·.1)) ++ (List.map (·.2) others ++
              List.map (·.2) (pairs.flatMap (·.2)))) := by
            rw [← append_assoc, ← append_assoc]
            exact perm_append_comm.append_right _
    · simp only [flatMap_cons, map_append, keys1, handled]
    · simp only [flatMap_cons, map_append, keys2, helped]

end

section

variable {start cap offset : Nat} {values : List InitialValue} {parts : List (List Relocation)}
  {sections final : DataPlan} {agents : List AgentLayout} {id : SymbolId}

/-- The sections grow by bindings, definitions and pooled texts; labels stay as they are. -/
inductive Laid : Pool → Pool → Prop
  | refl (p : Pool) : Laid p p
  | bind {p q : Pool} {id : SymbolId} {offset : Nat} {symbols : SymbolTable} :
      p.symbols.bind id offset = .ok symbols → Laid { p with symbols } q → Laid p q
  | define {p q : Pool} {name : String} {offset : Nat} {id : SymbolId} {symbols : SymbolTable} :
      p.symbols.define name .bss offset = .ok (id, symbols) → Laid { p with symbols } q → Laid p q
  | text {p s q : Pool} {content : String} {id : SymbolId} : p.internText content = .ok (id, s) →
      Laid s q → Laid p q

lemma Laid.trans {s : Pool} (h : Laid p s) (h' : Laid s q) : Laid p q := by
  induction h with
  | refl p => exact h'
  | bind binds _ ih => exact .bind binds (ih h')
  | define defines _ ih => exact .define defines (ih h')
  | text read _ ih => exact .text read (ih h')

lemma Laid.labels_eq (h : Laid p q) : q.labels = p.labels := by
  induction h with
  | refl p => rfl
  | bind _ _ ih => exact ih
  | define _ _ ih => exact ih
  | text read _ ih => exact ih.trans (Interns.text read).labels_eq

lemma Laid.keeps (h : Laid p q) : p.symbols.Keeps q.symbols := by
  induction h with
  | refl p => exact .refl _
  | bind binds _ ih => exact (Keeps.bind binds).trans ih
  | define defines _ ih => exact (Keeps.define defines).trans ih
  | text read _ ih => exact (Interns.text read).keeps.trans ih

lemma isSound_of_keeps {symbols : SymbolTable} (hp : p.IsSound)
    (keeps : p.symbols.Keeps symbols) : IsSound { p with symbols } :=
  have le := keeps.size_le
  ⟨hp.fixed.trans le, fun pair h => (hp.texts pair h).trans_le le, fun pair h =>
    (hp.words pair h).trans_le le⟩

lemma Laid.isSound (h : Laid p q) (hp : p.IsSound) : q.IsSound := by
  induction h with
  | refl p => exact hp
  | bind binds _ ih => exact ih (isSound_of_keeps hp (.bind binds))
  | define defines _ ih => exact ih (isSound_of_keeps hp (.define defines))
  | text read _ ih => exact ih (hp.interns (.text read)).1

lemma bindSymbol_ok {u : Unit} : bindSymbol id offset p = .ok (u, q) ↔
      ∃ symbols, p.symbols.bind id offset = .ok symbols ∧ { p with symbols } = q := by
  simp only [bindSymbol, bind_ok, pure_ok, Prod.mk.injEq, true_and]

lemma defineSymbol_ok {name : String} {kind : SectionKind} :
    defineSymbol name kind offset p = .ok (id, q) ↔
      ∃ symbols, p.symbols.define name kind offset = .ok (id, symbols) ∧
      { p with symbols } = q := by
  simp only [defineSymbol, bind_ok, pure_ok, Prod.exists, Prod.mk.injEq]
  constructor
  · rintro ⟨id', symbols, h, rfl, rfl⟩
    exact ⟨symbols, h, rfl⟩
  · rintro ⟨symbols, h, rfl⟩
    exact ⟨id, symbols, h, rfl, rfl⟩

def valuePointer (start : Nat) (value : InitialValue) : Emit (List Relocation) :=
  match value with
  | .bytes _ _ => pure []
  | .text offset content => do
      let s ← Emit.internText content
      pure [pointer (start + offset) s]

lemma textPointers_ok {pointers : List Relocation}
    (h : textPointers start values p = .ok (pointers, q)) :
    ∃ parts, Emit.MapRun (valuePointer start) p values parts q ∧ pointers = parts.flatten := by
  simp only [textPointers, Emit.bind_ok, Emit.mapM_ok, Emit.pure_ok] at h
  obtain ⟨parts, _, split, rfl, rfl⟩ := h
  refine ⟨parts, ?_, rfl⟩
  convert split using 2 with value
  cases value <;> rfl

lemma valuePointers_rel {R : Pool → Pool → Prop} (refl : ∀ p, R p p)
    (trans : ∀ {p s q}, R p s → R s q → R p q) (read : ∀ {p q : Pool} {content : String}
    {id : SymbolId}, p.internText content = .ok (id, q) → R p q)
    (h : Emit.MapRun (valuePointer start) p values parts q) : R p q := by
  induction h with
  | nil p => exact refl p
  | @cons p s q value part values parts first _ ih =>
    cases value with
    | bytes offset content =>
      obtain ⟨-, rfl⟩ := Emit.pure_ok.1 first
      exact ih
    | text offset content =>
      simp only [valuePointer, Emit.bind_ok, Emit.pure_ok] at first
      obtain ⟨id, _, hid, -, rfl⟩ := first
      exact trans (read hid) ih

lemma laid_of_valuePointers (h : Emit.MapRun (valuePointer start) p values parts q) : Laid p q :=
  valuePointers_rel .refl .trans (fun text => .text text (.refl _)) h

lemma layOutData_ok (h : layOutData program layout p = .ok (sections, q)) :
    ∃ arena data symbols pointers p2 symbols', arena = initialArena layout.stateSize
      (initialValues program layout) ∧ data = (DataSection.empty .data).append arena 16 ∧
      p.symbols.bind stateArena data.1 = .ok symbols ∧
      textPointers data.1 (initialValues program layout) { p with symbols } = .ok (pointers, p2) ∧
      p2.symbols.bind heapCursor (data.2.append (littleEndian 8 0) 8).1 = .ok symbols' ∧
      q = { p2 with symbols := symbols' } ∧
      sections = {
        data := (data.2.append (littleEndian 8 0) 8).2
        relocations := pointers ++
          [pointer (data.2.append (littleEndian 8 0) 8).1 heap] } := by
  simp only [layOutData, Emit.bind_ok, bindSymbol_ok, Emit.pure_ok] at h
  obtain ⟨_, _, ⟨symbols, begins, rfl⟩, pointers, p2, hpointers, _, _, ⟨symbols', cursor, rfl⟩, rfl,
      rfl⟩ := h
  exact ⟨_, _, symbols, pointers, p2, symbols', rfl, rfl, begins, hpointers, cursor, rfl, rfl⟩

lemma layOutData_laid (run : layOutData program layout p = .ok (sections, q)) : Laid p q ∧
    sections.storage = [] := by
  obtain ⟨_, _, symbols, pointers, p', symbols', -, -, bound, pointed, bound', rfl, rfl⟩ :=
    layOutData_ok run
  obtain ⟨parts, made, -⟩ := textPointers_ok pointed
  exact ⟨.bind bound ((laid_of_valuePointers made).trans (.bind bound' (.refl _))), rfl⟩

lemma addStorage_ok {sections' : DataPlan}
    (h : addStorage cap sections agent p = .ok (sections', q)) :
    ∃ queueSpace queue symbols slotSpace slot symbols', queueSpace = sections.bss.reserve
      (queueSize cap) 16 ∧ p.symbols.define (toString "queue." ++ toString agent.name) .bss
      queueSpace.1 = .ok (queue, symbols) ∧ slotSpace = queueSpace.2.reserve slotSize 16 ∧
      symbols.define (toString "slot." ++ toString agent.name) .bss slotSpace.1 = .ok
      (slot, symbols') ∧ q = { p with symbols := symbols' } ∧
      sections' = { sections with
        bss := slotSpace.2
        storage := sections.storage ++ [(agent.name, ⟨queue, slot⟩)] } := by
  simp only [addStorage, Emit.bind_ok, defineSymbol_ok, Emit.pure_ok] at h
  obtain ⟨queue, _, ⟨symbols, queued, rfl⟩, slot, _, ⟨symbols', within, rfl⟩, rfl, rfl⟩ := h
  exact ⟨_, queue, symbols, _, slot, symbols', rfl, queued, rfl, within, rfl, rfl⟩

inductive StorageRun (cap : Nat) :
    DataPlan → Pool → List AgentLayout → DataPlan → Pool → Prop
  | nil (sections : DataPlan) (p : Pool) : StorageRun cap sections p [] sections p
  | cons {sections sections' final : DataPlan} {p s q : Pool} {agent : AgentLayout}
      {rest : List AgentLayout} :
      addStorage cap sections agent p = .ok (sections', s) →
      StorageRun cap sections' s rest final q →
      StorageRun cap sections p (agent :: rest) final q

lemma storageRun_of_foldlM (h : agents.foldlM (addStorage cap) sections p = .ok (final, q)) :
    StorageRun cap sections p agents final q := by
  induction agents generalizing sections p with
  | nil =>
    obtain ⟨rfl, rfl⟩ := Emit.pure_ok.1 h
    exact .nil _ _
  | cons agent rest ih =>
    rw [foldlM_cons, Emit.bind_ok] at h
    obtain ⟨sections', s, first, more⟩ := h
    exact .cons first (ih more)

def receivers (layout : Layout) : List AgentLayout := layout.agents.filter fun a =>
    !(layout.agentUnits a.name).isEmpty

lemma layOutStorage_ok {all : DataPlan}
    (h : layOutStorage layout settings sections p = .ok (all, q)) :
    ∃ sections' p' symbols, StorageRun settings.queueCapacity.toNat sections p (receivers layout)
      sections' p' ∧ p'.symbols.bind heap (sections'.bss.reserve settings.heapSize.toNat 16).1 =
      .ok symbols ∧ q = { p' with symbols } ∧
      all = { sections' with
        bss := (sections'.bss.reserve settings.heapSize.toNat 16).2 } := by
  simp only [layOutStorage, Emit.bind_ok, bindSymbol_ok, Emit.pure_ok] at h
  obtain ⟨sections', p', run, _, _, ⟨symbols, hheap, rfl⟩, rfl, rfl⟩ := h
  exact ⟨sections', p', symbols, storageRun_of_foldlM run, hheap, rfl, rfl⟩

lemma StorageRun.laid (h : StorageRun cap sections p agents final q) : Laid p q := by
  induction h with
  | nil sections p => exact .refl p
  | cons first _ ih =>
    obtain ⟨_, queue, symbols, _, slot, symbols', -, queued, -, within, rfl, -⟩ :=
      addStorage_ok first
    exact .define queued (.define within ih)

def IsStorageOf (symbols : SymbolTable) (agent : String) (storage : Storage) : Prop :=
  (∃ s, symbols.get? storage.queue = some s ∧ s.name = "queue." ++ agent) ∧
    ∃ s, symbols.get? storage.slot = some s ∧ s.name = "slot." ++ agent

lemma IsStorageOf.keeps {t u : SymbolTable} {agent : String} {storage : Storage}
    (h : IsStorageOf t agent storage) (keeps : t.Keeps u) : IsStorageOf u agent storage := by
  obtain ⟨⟨s, hs, name⟩, ⟨s', hs', name'⟩⟩ := h
  obtain ⟨o, ho, ho', -⟩ := keeps _ _ hs
  obtain ⟨o2, ho2, ho2', -⟩ := keeps _ _ hs'
  exact ⟨⟨o, ho, ho'.trans name⟩, ⟨o2, ho2, ho2'.trans name'⟩⟩

lemma IsStorageOf.lt {t : SymbolTable} {agent : String} {storage : Storage}
    (h : IsStorageOf t agent storage) : storage.queue.index < t.size ∧
    storage.slot.index < t.size := by
  obtain ⟨⟨s, hs, -⟩, ⟨s', hs', -⟩⟩ := h
  exact ⟨(List.getElem?_eq_some_iff.1 hs).1, (List.getElem?_eq_some_iff.1 hs').1⟩

lemma StorageRun.storage (h : StorageRun cap sections p agents final q) :
    ∃ added, final.storage = sections.storage ++ added ∧ added.map (·.1) = agents.map (·.name) ∧
      ∀ pair ∈ added, IsStorageOf q.symbols pair.1 pair.2 := by
  induction h with
  | nil sections p => exact ⟨[], by simp, rfl, by simp⟩
  | @cons sections sections' final p s q agent rest first more ih =>
    obtain ⟨_, queue, symbols, _, slot, symbols', -, queued, -, within, rfl, rfl⟩ :=
      addStorage_ok first
    obtain ⟨added, storage, names, known⟩ := ih
    refine ⟨(agent.name, ⟨queue, slot⟩) :: added, by simp [storage], by simp [names], ?_⟩
    rw [forall_mem_cons]
    refine ⟨IsStorageOf.keeps ?_ more.laid.keeps, known⟩
    obtain ⟨o, ho, name, -⟩ := Keeps.define within _ _ (get?_define queued)
    exact ⟨⟨o, ho, name⟩, ⟨_, get?_define within, rfl⟩⟩

end

lemma initial_isSound : initial.IsSound where
  fixed := by decide
  texts := by simp [initial]
  words := by simp [initial]

/-- What holds of every plan that was made. The entry points are numbered on from the services, and
every storage is in the table under the name of its agent. -/
structure IsMade (program : Program) (layout : Layout) (settings : Settings) (plan : Plan)
    (q : Pool) : Prop where
  program_eq : plan.program = program
  layout_eq : plan.layout = layout
  settings_eq : plan.settings = settings
  knows : plan.Knows q
  entries : ∃ ls, initial.Names ls { initial with labels := q.labels } ∧
    ls.Perm (plan.handlers.map (·.2) ++ plan.helpers.map (·.2))
  handlers : plan.handlers.map (·.1) = layout.agents.flatMap (handlerKeys layout)
  helpers : plan.helpers.map (·.1) = layout.agents.flatMap (helperKeys program)
  storage : plan.sections.storage.map (·.1) = (receivers layout).map (·.name)
  isStorage : ∀ agent storage, plan.storage? agent = some storage →
    IsStorageOf q.symbols agent storage

lemma make_isMade (h : make program layout settings .initial = .ok (plan, q)) :
    IsMade program layout settings plan q := by
  obtain ⟨handlers, helpers, p1, sections, p2, all, names, data, stored, rfl⟩ := make_ok h
  obtain ⟨⟨ls, labelled, perm⟩, handled, helped⟩ := nameRoutines_ok names
  obtain ⟨first, absent⟩ := layOutData_laid data
  obtain ⟨sections', p'', symbols'', run, heap, rfl, rfl⟩ := layOutStorage_ok stored
  have laid : Laid p1 { p'' with symbols := symbols'' } :=
    first.trans (run.laid.trans (.bind heap (.refl _)))
  have sound := laid.isSound (initial_isSound.names labelled)
  obtain ⟨added, hadded, keys, known⟩ := run.storage
  have stored : ∀ agent storage, List.lookup agent sections'.storage = some storage →
      IsStorageOf symbols'' agent storage := by
    intro agent storage lookup
    have mem : (agent, storage) ∈ added := by
      simpa [hadded, absent] using mem_of_lookup_eq_some lookup
    exact (known _ mem).keeps (.bind heap)
  exact {
    program_eq := rfl
    layout_eq := rfl
    settings_eq := rfl
    knows := { sound with queues := fun agent storage h => (stored agent storage h).lt }
    entries := ⟨ls, ⟨labelled.labels_eq, laid.labels_eq ▸ labelled.size_eq, rfl⟩, perm⟩
    handlers := handled
    helpers := helped
    storage := by simpa [hadded, absent] using keys
    isStorage := stored }

lemma IsMade.label_bounds (h : IsMade program layout settings plan q)
    {pair : (String × String) × Label} (paired : pair ∈ plan.handlers ∨ pair ∈ plan.helpers) :
    Service.labels.size ≤ pair.2.id ∧ pair.2.id < q.labels.size := by
  obtain ⟨ls, labelled, perm⟩ := h.entries
  have mem : pair.2 ∈ ls := by
    rw [perm.mem_iff, mem_append, mem_map, mem_map]
    exact paired.imp (fun h => ⟨pair, h, rfl⟩) fun h => ⟨pair, h, rfl⟩
  rw [labelled.labels_eq, mem_labelsFrom] at mem
  exact ⟨mem.1, mem.2.trans_le labelled.size_eq.symm.le⟩

end Plan

end AgentCompiler
