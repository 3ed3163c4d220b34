import AgentCompiler.Proofs.FreshNames

/-!
The plan of an accepted program can be made. All entry points have names of their own, since the
names of agents have no dots; so have queues and slots; and the three symbols that are declared at
the start are bound once each.
-/

namespace AgentCompiler

open Pool SymbolTable List Option Layout

namespace Emit

variable {α β : Type} {p : Pool}

def Yields (x : Emit α) (p : Pool) (post : α → Pool → Prop) : Prop := ∃ a q,
    x p = .ok (a, q) ∧ post a q

lemma yields_bind {x : Emit α} {g : α → Emit β} {post : β → Pool → Prop} :
    Yields (x >>= g) p post ↔ Yields x p fun a s => Yields (g a) s post := by
  simp only [Yields, bind_ok]
  constructor
  · rintro ⟨b, q, ⟨a, s, first, second⟩, result⟩
    exact ⟨a, s, first, b, q, second, result⟩
  · rintro ⟨a, s, first, b, q, second, result⟩
    exact ⟨b, q, ⟨a, s, first, second⟩, result⟩

lemma yields_pure {a : α} {post : α → Pool → Prop} : Yields (pure a) p post ↔ post a p := by
  simp [Yields, pure_ok]

lemma yields_mapM {f : α → Emit β} {items : List α} {I : Pool → Prop}
    (step : ∀ a ∈ items, ∀ p, I p → Yields (f a) p fun _ q => I q) (start : I p) :
    Yields (items.mapM f) p fun _ q => I q := by
  induction items generalizing p with
  | nil => exact ⟨[], p, mapM_ok.2 (.nil p), start⟩
  | cons a rest ih =>
    rw [forall_mem_cons] at step
    obtain ⟨b, s, run, kept⟩ := step.1 p start
    obtain ⟨bs, q, runs, final⟩ := ih step.2 kept
    exact ⟨b :: bs, q, mapM_ok.2 (.cons run (mapM_ok.1 runs)), final⟩

end Emit

section

def LabelTable.entryNames (t : LabelTable) : List String := (t.entries.filter (·.isEntry)).map
    (·.name)

lemma LabelTable.entry_new {t : LabelTable} {name : String} (new : name ∉ t.entryNames) :
    t.entry name = .ok (⟨t.size⟩, ⟨t.entries ++ [⟨name, true⟩]⟩) := by
  have missing : t.lookup? name = none := by
    simp only [lookup?, map_eq_none_iff, findIdx?_eq_none_iff]
    intro e mem
    by_contra found
    simp only [Bool.not_eq_false, Bool.and_eq_true, beq_iff_eq] at found
    exact new (List.mem_map.2 ⟨e, mem_filter.2 ⟨mem, found.1⟩, found.2⟩)
  simp only [entry, missing]
  rfl

@[simp] lemma LabelTable.entryNames_append (t : LabelTable) (name : String) :
    LabelTable.entryNames ⟨t.entries ++ [⟨name, true⟩]⟩ = t.entryNames ++ [name] := by
  simp [entryNames]

lemma yields_entries {α : Type} {p : Pool} {items : List α} (name : α → String)
    (key : α → String × String) (new : (p.labels.entryNames ++ items.map name).Nodup) :
    Emit.Yields (items.mapM fun a => do
        let l ← Emit.entry (name a)
        pure (key a, l)) p fun _ q =>
      q.labels.entryNames = p.labels.entryNames ++ items.map name ∧
          q = { p with labels := q.labels } := by
  induction items generalizing p with
  | nil => exact ⟨[], p, Emit.mapM_ok.2 (.nil p), by simp, rfl⟩
  | cons a rest ih =>
    have unused : name a ∉ p.labels.entryNames := by
      rw [nodup_append'] at new
      exact fun used => new.2.2 used (mem_cons_self ..)
    have first := Emit.entry_ok.2 ⟨_, LabelTable.entry_new unused, rfl⟩
    obtain ⟨pairs, q, runs, names, same⟩ := ih
      (p := { p with labels := ⟨p.labels.entries ++ [⟨name a, true⟩]⟩ }) (by simpa using new)
    refine ⟨(key a, ⟨p.labels.size⟩) :: pairs, q, Emit.mapM_ok.2 (.cons ?_ (Emit.mapM_ok.1 runs)),
      ?_, same⟩
    · exact Emit.bind_ok.2 ⟨_, _, first, Emit.pure_ok.2 ⟨rfl, rfl⟩⟩
    · simpa using names

def dottedName (kind : String) (key : String × String) : String :=
  toString kind ++ toString key.1 ++ toString "." ++ toString key.2

lemma toList_dottedName (kind : String) (key : String × String) :
    (dottedName kind key).toList = kind.toList ++ (key.1.toList ++ '.' :: key.2.toList) := by
  simp only [dottedName, toString, String.toList_append, append_assoc]
  rfl

lemma split_at_dot {a b c d : List Char} (same : a ++ '.' :: b = c ++ '.' :: d) (ha : '.' ∉ a)
    (hc : '.' ∉ c) : a = c ∧ b = d := by
  induction a generalizing c with
  | nil =>
    cases c with
    | nil => exact ⟨rfl, tail_eq_of_cons_eq same⟩
    | cons x rest => exact absurd (head_eq_of_cons_eq same ▸ mem_cons_self ..) hc
  | cons x rest ih =>
    cases c with
    | nil => exact absurd (head_eq_of_cons_eq same ▸ mem_cons_self ..) ha
    | cons y tail =>
      obtain ⟨rfl, later⟩ := cons.inj same
      obtain ⟨rfl, rfl⟩ := ih later (not_mem_of_not_mem_cons ha) (not_mem_of_not_mem_cons hc)
      exact ⟨rfl, rfl⟩

lemma dottedName_injective {kind : String} {k l : String × String} (hk : '.' ∉ k.1.toList)
    (hl : '.' ∉ l.1.toList) (same : dottedName kind k = dottedName kind l) : k = l := by
  have lists := congrArg String.toList same
  rw [toList_dottedName, toList_dottedName, append_cancel_left_eq] at lists
  obtain ⟨first, second⟩ := split_at_dot lists hk hl
  exact Prod.ext (String.toList_inj.1 first) (String.toList_inj.1 second)

lemma nodup_dottedNames {kind : String} {keys : List (String × String)} (nodup : keys.Nodup)
    (plain : ∀ key ∈ keys, '.' ∉ key.1.toList) : (keys.map (dottedName kind)).Nodup :=
  nodup.map_on fun _ hk _ hl same => dottedName_injective (plain _ hk) (plain _ hl) same

end

namespace Plan

variable {program : Program} {layout : Layout} {p q : Pool}

section

variable {agent : AgentLayout}

def routineNames (program : Program) (layout : Layout) (agent : AgentLayout) : List String :=
  (handlerKeys layout agent).map (dottedName "handler.") ++ (helperKeys program agent).map
    (dottedName "helper.")

lemma unitLabels_eq (layout : Layout) (agent : AgentLayout) :
    (layout.agentUnits agent.name).map (fun pair => pair.2.label) =
      (handlerKeys layout agent).map (dottedName "handler.") := by
  rw [handlerKeys, List.map_map]
  refine map_congr_left fun pair mem => ?_
  simp only [agentUnits, mem_filterMap, map_eq_some_iff] at mem
  obtain ⟨s, -, u, found, rfl⟩ := mem
  have same := find?_some found
  simp only [Bool.and_eq_true, beq_iff_eq] at same
  simp only [HandlerUnit.label, Function.comp_apply, dottedName, same.1, same.2]

lemma yields_nameHandlers
    (new : (p.labels.entryNames ++ (handlerKeys layout agent).map (dottedName "handler.")).Nodup) :
    Emit.Yields (nameHandlers layout agent) p fun _ q => q.labels.entryNames =
        p.labels.entryNames ++ (handlerKeys layout agent).map (dottedName "handler.") ∧
      q = { p with labels := q.labels } := by
  rw [← unitLabels_eq] at new ⊢
  exact yields_entries (fun pair : SchemaLayout × HandlerUnit => pair.2.label)
    (fun pair => (agent.name, pair.1.name)) new

lemma yields_nameHelpers
    (new : (p.labels.entryNames ++ (helperKeys program agent).map (dottedName "helper.")).Nodup) :
    Emit.Yields (nameHelpers agent (program.template? agent.template)) p fun _ q =>
      q.labels.entryNames = p.labels.entryNames ++ (helperKeys program agent).map
        (dottedName "helper.") ∧
      q = { p with labels := q.labels } := by
  unfold nameHelpers helperKeys at *
  generalize program.template? agent.template = template at new ⊢
  cases template with
  | none => exact Emit.yields_pure.2 ⟨by simp, rfl⟩
  | some t =>
    simp only [map_some, getD_some, List.map_map] at new ⊢
    exact yields_entries (fun helper : Helper => dottedName "helper." (agent.name, helper.name))
      (fun helper => (agent.name, helper.name)) new

lemma yields_nameRoutines
    (new : (p.labels.entryNames ++ layout.agents.flatMap (routineNames program layout)).Nodup) :
    Emit.Yields (nameRoutines program layout) p fun _ q => q.labels.entryNames =
        p.labels.entryNames ++ layout.agents.flatMap (routineNames program layout) ∧
      q = { p with labels := q.labels } := by
  unfold nameRoutines
  rw [Emit.yields_bind]
  simp only [Emit.yields_pure]
  generalize layout.agents = agents at new ⊢
  induction agents generalizing p with
  | nil => exact ⟨[], p, Emit.mapM_ok.2 (.nil p), by simp, rfl⟩
  | cons agent rest ih =>
    simp only [flatMap_cons, routineNames, append_assoc] at new ⊢
    have newHandlers := new.sublist ((sublist_append_left ..).append_left _)
    obtain ⟨handlers, p1, run1, names1, same1⟩ := yields_nameHandlers newHandlers
    have newHelpers : (p1.labels.entryNames ++ (helperKeys program agent).map
        (dottedName "helper.")).Nodup := by
      rw [names1, append_assoc]
      exact new.sublist (((sublist_append_left ..).append_left _).append_left _)
    obtain ⟨helpers, p2, run2, names2, same2⟩ := yields_nameHelpers newHelpers
    obtain ⟨pairs, q, runs, names, same⟩ := ih (p := p2) (by
      rw [names2, names1, append_assoc, append_assoc]
      exact new)
    refine ⟨(handlers, helpers) :: pairs, q, Emit.mapM_ok.2 (.cons ?_ (Emit.mapM_ok.1 runs)), ?_,
      ?_⟩
    · exact Emit.bind_ok.2 ⟨_, _, run1, Emit.bind_ok.2 ⟨_, _, run2, Emit.pure_ok.2 ⟨rfl, rfl⟩⟩⟩
    · rw [names, names2, names1, append_assoc, append_assoc]
    · rw [same, same2, same1]

lemma nodup_routineNames (accepted : IsAccepted program layout)
    (declared : IsDeclared program layout) :
    (Service.labels.entryNames ++ layout.agents.flatMap (routineNames program layout)).Nodup := by
  have plain := fun a mem =>
    dot_notMem_of_isIdentifier (declared.identifiers a mem)
  have handlerPlain : ∀ key ∈ layout.agents.flatMap (handlerKeys layout), '.' ∉ key.1.toList := by
    intro key mem
    obtain ⟨a, inside, mem⟩ := mem_flatMap.1 mem
    obtain ⟨pair, -, rfl⟩ := List.mem_map.1 mem
    exact plain a inside
  have helperPlain : ∀ key ∈ layout.agents.flatMap (helperKeys program), '.' ∉ key.1.toList := by
    intro key mem
    obtain ⟨a, inside, mem⟩ := mem_flatMap.1 mem
    unfold helperKeys at mem
    cases found : program.template? a.template with
    | none => simp [found] at mem
    | some t =>
      simp only [found, map_some, getD_some, List.mem_map] at mem
      obtain ⟨helper, -, rfl⟩ := mem
      exact plain a inside
  have perm : (layout.agents.flatMap (routineNames program layout)).Perm
      ((layout.agents.flatMap (handlerKeys layout)).map (dottedName "handler.") ++
        (layout.agents.flatMap (helperKeys program)).map (dottedName "helper.")) := by
    rw [map_flatMap, map_flatMap]
    exact (flatMap_append_perm ..).symm
  have started : ∀ {kind name : String} {keys : List (String × String)},
      name ∈ keys.map (dottedName kind) → kind.toList <+: name.toList := by
    intro kind name keys mem
    obtain ⟨key, -, rfl⟩ := List.mem_map.1 mem
    rw [toList_dottedName]
    exact prefix_append _ _
  have services : ∀ name ∈ Service.labels.entryNames,
      ¬ "handler.".toList <+: name.toList ∧ ¬ "helper.".toList <+: name.toList := by decide
  rw [nodup_append', perm.nodup_iff, nodup_append']
  refine ⟨by decide, ⟨nodup_dottedNames (nodup_handlerKeys accepted) handlerPlain,
    nodup_dottedNames (nodup_helperKeys accepted) helperPlain, ?_⟩, ?_⟩
  · intro name handler helper
    rcases prefix_or_prefix_of_prefix (started handler) (started helper) with short | long
    · exact absurd short (by decide)
    · exact absurd long (by decide)
  · intro name service routine
    rcases mem_append.1 (perm.mem_iff.1 routine) with handler | helper
    · exact (services name service).1 (started handler)
    · exact (services name service).2 (started helper)

end

section

variable {due : List SymbolId} {t : SymbolTable} {id : SymbolId}

def Awaits (due : List SymbolId) (t : SymbolTable) : Prop := ∀ id ∈ due, ∃ s, t.get? id = some s ∧
    s.isBound = false

lemma Awaits.added (h : Awaits due t) {name : String} {kind : SectionKind} {offset : Nat}
    (new : t.lookup? name = none) : Awaits due (t.added name kind offset new) := by
  intro id mem
  obtain ⟨old, found, free⟩ := h id mem
  have inside := (List.getElem?_eq_some_iff.1 found).1
  rw [SymbolTable.get?, symbols_added]
  exact ⟨old, (getElem?_append_left inside).trans found, free⟩

lemma Awaits.exists_bind (h : Awaits (id :: due) t) (other : id ∉ due)
    (offset : Nat) : ∃ u, t.bind id offset = .ok u ∧ Awaits due u ∧ u.usedNames = t.usedNames := by
  obtain ⟨old, found, free⟩ := h id (mem_cons_self ..)
  have bound : t.bind id offset = .ok _ := SymbolTable.bind_ok.2 ⟨old, found, free, rfl⟩
  refine ⟨_, bound, fun later mem => ?_, usedNames_bind bound⟩
  obtain ⟨s, found', free'⟩ := h later (mem_cons_of_mem _ mem)
  have apart : id.index ≠ later.index := by
    intro same
    have equal : id = later := congrArg SymbolId.mk same
    exact other (equal ▸ mem)
  rw [SymbolTable.get?, symbols_place found]
  exact ⟨s, (getElem?_set_ne apart).trans found', free'⟩

def Avoids (start : String) (t : SymbolTable) : Prop := ∀ name ∈ t.usedNames, ¬ start.toList <+:
    name.toList

structure IsBegun (due : List SymbolId) (p : Pool) : Prop where
  orderly : p.IsOrderly
  awaits : Awaits due p.symbols
  queues : Avoids "queue." p.symbols
  slots : Avoids "slot." p.symbols

lemma avoids_added {start first rest : String} {kind : SectionKind} {offset : Nat}
    {new : t.lookup? (toString first ++ toString rest) = none} (h : Avoids start t)
    (differ : ¬ start.toList <+: first.toList ∧ ¬ first.toList <+: start.toList) :
    Avoids start (t.added _ kind offset new) := by
  intro name mem begins
  rcases mem_usedNames_added.1 mem with old | rfl
  · exact h name old begins
  · rw [toList_append_toString] at begins
    rcases prefix_or_prefix_of_prefix begins (prefix_append first.toList rest.toList) with
      short | long
    · exact differ.1 short
    · exact differ.2 long

lemma IsBegun.bind (h : IsBegun (id :: due) p) (other : id ∉ due) (offset : Nat) :
    Emit.Yields (bindSymbol id offset) p fun _ q => IsBegun due q ∧ q.labels = p.labels := by
  obtain ⟨u, bound, awaits, names⟩ := h.awaits.exists_bind other offset
  refine ⟨(), _, bindSymbol_ok.2 ⟨u, bound, rfl⟩, ⟨⟨h.orderly.plain, ?_, ?_⟩, awaits, ?_, ?_⟩, rfl⟩
  · simpa only [names] using h.orderly.texts
  · simpa only [names] using h.orderly.words
  · simpa only [Avoids, names] using h.queues
  · simpa only [Avoids, names] using h.slots

lemma IsBegun.text (h : IsBegun due p) {text : String} (plain : hasNul text = false) :
    Emit.Yields (Emit.internText text) p fun _ q => IsBegun due q ∧ q.labels = p.labels := by
  obtain ⟨s, q, run⟩ := h.orderly.exists_internText plain
  refine ⟨s, q, run, ?_, (Interns.text run).labels_eq⟩
  have orderly := h.orderly.internText run
  obtain ⟨-, rfl⟩ | ⟨-, -, symbols, defined, rfl⟩ := p.internText_ok run
  · exact h
  · rw [define_new (h.orderly.texts _ le_rfl)] at defined
    obtain ⟨rfl, rfl⟩ := Prod.mk.inj (Except.ok.inj defined)
    exact ⟨orderly, h.awaits.added _, avoids_added h.queues (by decide),
      avoids_added h.slots (by decide)⟩

lemma initialValues_plain (declared : IsDeclared program layout) :
    ∀ offset text, .text offset text ∈ initialValues program layout → hasNul text = false := by
  intro offset text mem
  obtain ⟨a, f, slot, field, -, -, rfl⟩ := field_of_text mem
  obtain ⟨template, found, inside⟩ := field.declared
  have plain := (declared.templates template (mem_of_find?_eq_some found)).initial f inside
  unfold StateField.initialText
  split
  next text given => exact (plain _ given).plain
  next => decide

lemma yields_textPointers {values : List InitialValue} (start : Nat) (begun : IsBegun due p)
    (plain : ∀ offset text, .text offset text ∈ values → hasNul text = false) :
    Emit.Yields (textPointers start values) p fun _ q => IsBegun due q ∧ q.labels = p.labels := by
  unfold textPointers
  rw [Emit.yields_bind]
  simp only [Emit.yields_pure]
  refine Emit.yields_mapM (I := fun q => IsBegun due q ∧ q.labels = p.labels) ?_ ⟨begun, rfl⟩
  rintro value mem s ⟨begun, labels⟩
  cases value with
  | bytes offset content => exact Emit.yields_pure.2 ⟨begun, labels⟩
  | text offset content =>
    obtain ⟨id, q, run, next, same⟩ := begun.text (plain offset content mem)
    exact Emit.yields_bind.2 ⟨id, q, run, Emit.yields_pure.2 ⟨next, same.trans labels⟩⟩

lemma yields_layOutData (declared : IsDeclared program layout)
    (begun : IsBegun [stateArena, heapCursor, heap] p) : Emit.Yields (layOutData program layout) p
    fun _ q =>
      IsBegun [heap] q ∧ q.labels = p.labels := by
  unfold layOutData
  dsimp only
  simp only [Emit.yields_bind, Emit.yields_pure]
  obtain ⟨_, p1, run1, begun1, labels1⟩ := begun.bind (by decide)
    ((DataSection.empty .data).append (initialArena layout.stateSize (initialValues program layout))
    16).1
  obtain ⟨pointers, p2, run2, begun2, labels2⟩ := yields_textPointers
    ((DataSection.empty .data).append (initialArena layout.stateSize (initialValues program layout))
    16).1 begun1 (initialValues_plain declared)
  obtain ⟨_, p3, run3, begun3, labels3⟩ := begun2.bind (by decide)
    (((DataSection.empty .data).append (initialArena layout.stateSize
      (initialValues program layout)) 16).2.append (littleEndian 8 0) 8).1
  exact ⟨_, p1, run1, pointers, p2, run2, _, p3, run3, begun3, by rw [labels3, labels2, labels1]⟩

lemma yields_addStorage (cap : Nat) {agents : List AgentLayout}
    (nodup : (agents.map (·.name)).Nodup) (sections : DataPlan) (orderly : p.IsOrderly)
    (awaits : Awaits due p.symbols)
    (queues : ∀ a ∈ agents, toString "queue." ++ toString a.name ∉ p.symbols.usedNames)
    (slots : ∀ a ∈ agents, toString "slot." ++ toString a.name ∉ p.symbols.usedNames) :
    Emit.Yields (agents.foldlM (addStorage cap) sections) p fun _ q =>
      q.IsOrderly ∧ Awaits due q.symbols ∧ q.labels = p.labels := by
  induction agents generalizing sections p with
  | nil => exact Emit.yields_pure.2 ⟨orderly, awaits, rfl⟩
  | cons agent rest ih =>
    obtain ⟨another, nodup⟩ := nodup_cons.1 nodup
    obtain ⟨queue, queues⟩ := forall_mem_cons.1 queues
    obtain ⟨slot, slots⟩ := forall_mem_cons.1 slots
    have other : ∀ a ∈ rest, ∀ start : String,
        toString start ++ toString a.name ≠ toString start ++ toString agent.name := by
      intro a mem start same
      have lists := congrArg String.toList same
      rw [toList_append_toString, toList_append_toString, append_cancel_left_eq] at lists
      exact another (List.mem_map.2 ⟨a, mem, String.toList_inj.1 lists⟩)
    rw [foldlM_cons, addStorage]
    dsimp only
    simp only [Emit.yields_bind, Emit.yields_pure]
    refine ⟨_, _, defineSymbol_ok.2 ⟨_, define_new queue .bss _, rfl⟩, _, _,
      defineSymbol_ok.2 ⟨_, define_new ?_ .bss _, rfl⟩, ?_⟩
    · rw [mem_usedNames_added, not_or]
      exact ⟨slot, append_ne _ _ (by decide)⟩
    · refine ih nodup _ ((orderly.added _ _ _ _ (by decide) (by decide)).added _ _ _ _ (by decide)
        (by decide)) ((awaits.added _).added _) ?_ ?_
      · intro a mem
        rw [mem_usedNames_added, mem_usedNames_added, not_or, not_or]
        exact ⟨⟨queues a mem, other a mem _⟩, append_ne _ _ (by decide)⟩
      · intro a mem
        rw [mem_usedNames_added, mem_usedNames_added, not_or, not_or]
        exact ⟨⟨slots a mem, append_ne _ _ (by decide)⟩, other a mem _⟩

lemma yields_layOutStorage (settings : Settings) (accepted : IsAccepted program layout)
    (sections : DataPlan) (begun : IsBegun [heap] p) :
    Emit.Yields (layOutStorage layout settings sections) p fun _ q =>
      q.IsOrderly ∧ q.labels = p.labels := by
  have starts : ∀ start name : String, start.toList <+:
      (toString start ++ toString name).toList := by
    intro start name
    rw [toList_append_toString]
    exact prefix_append _ _
  have nodup : ((receivers layout).map (·.name)).Nodup := accepted.agents.nodup.sublist
    ((filter_sublist).map _)
  obtain ⟨all, p1, run, orderly, awaits, labels⟩ := yields_addStorage
    settings.queueCapacity.toNat nodup sections begun.orderly begun.awaits
    (fun a _ used => begun.queues _ used (starts _ _))
    (fun a _ used => begun.slots _ used (starts _ _))
  obtain ⟨u, bound, -, names⟩ := awaits.exists_bind (by simp)
    (all.bss.reserve settings.heapSize.toNat 16).1
  unfold layOutStorage
  dsimp only
  simp only [Emit.yields_bind, Emit.yields_pure]
  refine ⟨all, p1, run, (), _, bindSymbol_ok.2 ⟨u, bound, rfl⟩, ⟨orderly.plain, ?_, ?_⟩, labels⟩
  · simpa only [names] using orderly.texts
  · simpa only [names] using orderly.words

end

lemma initial_isBegun (labels : LabelTable) : IsBegun [stateArena, heapCursor, heap]
    { initial with labels } := by
  have names : ∀ name ∈ fixedSymbols.usedNames, '.' ∉ name.toList := by decide
  have dotted : ∀ (start rest : String), '.' ∈ start.toList →
      toString start ++ toString rest ∉ fixedSymbols.usedNames := fun start rest dot used =>
    names _ used (AgentCompiler.dotted rest dot)
  refine ⟨⟨by simp [initial], fun n _ => dotted "str." (toString n) (by decide),
    fun n _ => dotted "i64." (toString n) (by decide)⟩, ?_, ?_, ?_⟩
  · intro id mem
    simp only [mem_cons, not_mem_nil, or_false] at mem
    obtain rfl | rfl | rfl := mem <;> exact ⟨_, rfl, rfl⟩
  · exact fun name used => (by decide : ∀ name ∈ fixedSymbols.usedNames,
      ¬ "queue.".toList <+: name.toList) name used
  · exact fun name used => (by decide : ∀ name ∈ fixedSymbols.usedNames,
      ¬ "slot.".toList <+: name.toList) name used

lemma yields_make (settings : Settings) (accepted : IsAccepted program layout)
    (declared : IsDeclared program layout) :
    Emit.Yields (make program layout settings) .initial fun _ q => q.IsOrderly ∧
      q.labels.entryNames = Service.labels.entryNames ++ layout.agents.flatMap
      (routineNames program layout) := by
  obtain ⟨names, p1, run1, entries, same⟩ := yields_nameRoutines (p := .initial)
    (nodup_routineNames accepted declared)
  have begun : IsBegun [stateArena, heapCursor, heap] p1 := by
    rw [same]
    exact initial_isBegun p1.labels
  obtain ⟨sections, p2, run2, begun2, labels2⟩ := yields_layOutData declared begun
  obtain ⟨all, q, run3, orderly, labels3⟩ := yields_layOutStorage settings accepted sections begun2
  simp only [make, Emit.yields_bind, Emit.yields_pure]
  exact ⟨names, p1, run1, sections, p2, run2, all, q, run3,
    orderly, by rw [labels3, labels2, entries]; rfl⟩

end Plan

end AgentCompiler
