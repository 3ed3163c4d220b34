import AgentCompiler.Proofs.BoundLabels
import AgentCompiler.Proofs.LayoutFacts

/-!
Entry points. The routines that are written for the agents are exactly those that were named, so
that all labels of a program are bound, each of them once.
-/

namespace AgentCompiler

open Service List Option

section

variable {α β : Type} [BEq α] [LawfulBEq α] {entries : List (α × β)}

lemma lookup_of_mem (nodup : (entries.map (·.1)).Nodup) {a : α} {b : β}
    (h : (a, b) ∈ entries) : entries.lookup a = some b := by
  induction entries with
  | nil => simp at h
  | cons entry rest ih =>
    rw [map_cons, nodup_cons] at nodup
    rw [lookup_cons]
    rcases mem_cons.1 h with rfl | more
    · simp
    · have ne := fun eq => nodup.1 (List.mem_map.2 ⟨_, more, eq⟩)
      rw [beq_false_of_ne ne]
      exact ih nodup.2 more

lemma map_lookup_keys (nodup : (entries.map (·.1)).Nodup) :
    (entries.map (·.1)).map (fun a => entries.lookup a) = entries.map fun entry =>
        some entry.2 := by
  rw [List.map_map]
  exact map_congr_left fun entry starts => lookup_of_mem nodup starts

end

section

variable {program : Program} {layout : Layout} {settings : Settings} {plan : Plan} {q : Pool}
  {a : AgentLayout} {t : Template}

namespace Layout

lemma unit?_isSome {agent schema : String} :
    (layout.unit? agent schema).isSome = true ↔ ⟨agent, schema⟩ ∈ layout.units := by
  rw [unit?, find?_isSome]
  constructor
  · rintro ⟨⟨agent', schema'⟩, mem, matched⟩
    simp only [Bool.and_eq_true, beq_iff_eq] at matched
    obtain ⟨rfl, rfl⟩ := matched
    exact mem
  · intro mem
    exact ⟨_, mem, by simp⟩

lemma agentUnits_schemas (agent : String) : (layout.agentUnits agent).map (·.1) =
    layout.schemas.filter fun s => (layout.unit? agent s.name).isSome := by
  rw [agentUnits]
  induction layout.schemas with
  | nil => rfl
  | cons schema rest ih =>
    cases unit : layout.unit? agent schema.name with
    | none => simp [unit, ih]
    | some u => simp [unit, ih]

namespace IsAccepted

section

variable (h : IsAccepted program layout) (ha : a ∈ layout.agents)
include h ha

lemma agent_eq {b : AgentLayout} (mem : b ∈ layout.agents) (name : a.name = b.name) : a = b :=
  inj_on_of_nodup_map h.agents.nodup ha mem name

lemma template : ∃ t ∈ program.templates, program.template? a.template = some t ∧
      IsPlaced program.templates a t ∧ t.IsWellFormed (layout.schemas.map (·.name)) := by
  obtain ⟨⟨t, placed⟩, -⟩ := h.agents.placed a ha
  have mem := mem_of_find?_eq_some placed.found
  exact ⟨t, mem, placed.found, placed, h.templates t mem⟩

lemma mem_units (found : program.template? a.template = some t) (schema : String) :
    ⟨a.name, schema⟩ ∈ layout.units ↔ schema ∈ t.handlers.map (·.schema) := by
  rw [h.units, List.mem_map]
  constructor
  · rintro ⟨b, hb, t', ht', handler, handled, unit⟩
    obtain ⟨name, known⟩ := HandlerUnit.mk.inj unit
    obtain rfl := h.agent_eq ha hb name
    obtain rfl := some.inj (found.symm.trans ht')
    exact ⟨handler, handled, known.symm⟩
  · rintro ⟨handler, handled, rfl⟩
    exact ⟨a, ha, t, found, handler, handled, rfl⟩

lemma agentUnits_perm (found : program.template? a.template = some t)
    (haccepted : t.IsWellFormed (layout.schemas.map (·.name))) :
    ((layout.agentUnits a.name).map fun pair => pair.1.name).Perm (t.handlers.map (·.schema)) := by
  have names : ((layout.agentUnits a.name).map fun pair => pair.1.name) =
      (layout.schemas.filter fun s => (layout.unit? a.name s.name).isSome).map (·.name) := by
    rw [← agentUnits_schemas, List.map_map]
    rfl
  rw [names]
  refine (perm_ext_iff_of_nodup ?_ haccepted.handlers).2 fun schema => ?_
  · exact h.schemas.nodup.sublist ((filter_sublist).map _)
  · rw [← h.mem_units ha found, List.mem_map]
    constructor
    · rintro ⟨s, hs, rfl⟩
      exact unit?_isSome.1 (mem_filter.1 hs).2
    · intro unit
      have known := (h.mem_units ha found schema).1 unit
      obtain ⟨handler, handled, rfl⟩ := List.mem_map.1 known
      obtain ⟨s, hs, name⟩ := List.mem_map.1 (haccepted.handled handler handled)
      exact ⟨s, mem_filter.2 ⟨hs, unit?_isSome.2 (name ▸ unit)⟩, name⟩

end

end IsAccepted

end Layout

namespace Plan

lemma nodup_flatMap_keys {agents : List AgentLayout} {keys : AgentLayout → List (String × String)}
    (names : (agents.map (·.name)).Nodup) (agent : ∀ a, ∀ key ∈ keys a, key.1 = a.name)
    (hkeys : ∀ a ∈ agents, (keys a).Nodup) : (agents.flatMap keys).Nodup := by
  rw [nodup_flatMap]
  refine ⟨hkeys, (pairwise_map.1 names).imp fun {a b} ne key ha hb => ?_⟩
  exact ne ((agent a key ha).symm.trans (agent b key hb))

section

variable (h : Layout.IsAccepted program layout)
include h

lemma handlerKeys_perm (ha : a ∈ layout.agents) (found : program.template? a.template = some t) :
    (handlerKeys layout a).Perm (t.handlers.map fun handler => (a.name, handler.schema)) := by
  obtain ⟨t', -, ht', -, haccepted⟩ := h.template ha
  obtain rfl := some.inj (found.symm.trans ht')
  have perm := (h.agentUnits_perm ha found haccepted).map fun schema => (a.name, schema)
  rwa [List.map_map, List.map_map] at perm

lemma nodup_handlerKeys : (layout.agents.flatMap (handlerKeys layout)).Nodup := by
  refine nodup_flatMap_keys h.agents.nodup (fun a key keyed => ?_) fun a ha => ?_
  · obtain ⟨pair, -, rfl⟩ := List.mem_map.1 keyed
    rfl
  · obtain ⟨t, -, ht, -, haccepted⟩ := h.template ha
    rw [(handlerKeys_perm h ha ht).nodup_iff]
    have keys := haccepted.handlers.map (Prod.mk_right_injective a.name)
    rwa [List.map_map] at keys

lemma nodup_helperKeys : (layout.agents.flatMap (helperKeys program)).Nodup := by
  refine nodup_flatMap_keys h.agents.nodup (fun a key keyed => ?_) fun a ha => ?_
  · unfold helperKeys at keyed
    cases ht : program.template? a.template with
    | none => simp [ht] at keyed
    | some t =>
      simp only [ht, map_some, getD_some, List.mem_map] at keyed
      obtain ⟨helper, -, rfl⟩ := keyed
      rfl
  · obtain ⟨t, -, ht, -, haccepted⟩ := h.template ha
    simp only [helperKeys, ht, map_some, getD_some]
    have keys := haccepted.helperNames.map (Prod.mk_right_injective a.name)
    rwa [List.map_map] at keys

end

lemma IsMade.entries_perm (h : IsMade program layout settings plan q)
    (haccepted : Layout.IsAccepted program layout) : (layout.agents.flatMap plan.entries).Perm
      ((plan.handlers.map (·.2) ++ plan.helpers.map (·.2)).map some) := by
  have handlers : (layout.agents.flatMap fun a => (handlerKeys layout a).map
      fun key => plan.handler? key.1 key.2) = plan.handlers.map fun entry => some entry.2 := by
    rw [← map_flatMap, ← h.handlers]
    exact map_lookup_keys (h.handlers ▸ nodup_handlerKeys haccepted)
  have helpers : (layout.agents.flatMap fun a => (helperKeys program a).map
      fun key => plan.helper? key.1 key.2) = plan.helpers.map fun entry => some entry.2 := by
    rw [← map_flatMap, ← h.helpers]
    exact map_lookup_keys (h.helpers ▸ nodup_helperKeys haccepted)
  have agent : ∀ a ∈ layout.agents, (plan.entries a).Perm
      ((handlerKeys layout a).map (fun key => plan.handler? key.1 key.2) ++
        (helperKeys program a).map fun key => plan.helper? key.1 key.2) := by
    intro a ha
    obtain ⟨t, -, ht, -, -⟩ := haccepted.template ha
    have perm := (handlerKeys_perm haccepted ha ht).map fun key => plan.handler? key.1 key.2
    rw [List.map_map] at perm
    simp only [Plan.entries, h.program_eq, helperKeys, ht, map_some, getD_some, List.map_map]
    exact perm.symm.append_right _
  calc layout.agents.flatMap plan.entries
      _ |>.Perm _ := List.Perm.flatMap_left _ agent
      _ |>.Perm _ := (flatMap_append_perm _ _ _).symm
      _ |>.Perm _ := by rw [handlers, helpers, map_append, List.map_map, List.map_map]; rfl

end Plan

end

section

variable {program : Program} {layout : Layout} {settings : Settings} {object : ObjectCode}

lemma RoutineRuns.bound {plan : Plan} {p q : Pool} {routines : List PlacedRoutine}
    (h : RoutineRuns plan p routines q) (knows : plan.Knows p) :
      (boundLabels (routines.flatMap (·.code))).Perm (routines.map (·.entry) ++
      labelsFrom p.labels.size (q.labels.size - p.labels.size)) := by
  induction h with
  | nil p => simp
  | @cons p s q u rest routine runs ih =>
    have grows := routine.grows knows
    have hs := grows.knows knows
    rw [flatMap_cons, boundLabels_append,
      ← labelsFrom_split grows.labels_le (runs.grows hs).labels_le, map_cons, cons_append]
    refine ((routine.bound knows).append (ih hs)).trans ?_
    rw [cons_append]
    exact (perm_append_comm_assoc _ _ _).cons _

lemma ServiceRuns.bound {plan : Plan} {cap heapSize : Nat} {p q : Pool}
    {services : List PlacedService} (h : ServiceRuns plan cap heapSize p services q)
    (knows : plan.Knows p) :
    (boundLabels (services.flatMap (·.code))).Perm (services.map (·.service.label) ++
      labelsFrom p.labels.size (q.labels.size - p.labels.size)) := by
  obtain ⟨count, locals, size⟩ := h.labels
  have counted : q.labels.size - p.labels.size = count := by omega
  rw [counted, ← locals, boundLabels_flatMap, map_eq_flatMap]
  refine (List.Perm.flatMap_left _ fun u hu => (h.text knows u hu).bound).trans ?_
  exact (flatMap_append_perm services (fun u => [u.service.label]) (·.locals)).symm

lemma services_labels : (inImageOrder.map (·.label)).Perm (labelsFrom 0 labels.size) := by decide

section

variable (h : ProgramText program layout settings object)
  (haccepted : Layout.IsAccepted program layout)
include h haccepted

lemma ProgramText.bound : (boundLabels object.code).Perm (labelsFrom 0 object.labels.size) := by
  obtain ⟨planned, entry, main, written, hentries, -, served, order, rfl⟩ := h
  rename_i plan pool p0 p1 p2 q start front routines services
  have made := Plan.make_isMade planned
  have named := Pool.Names.entry entry
  have hk1 := main.knows (made.knows.names named)
  have grows := written.grows hk1
  have hk2 := grows.knows hk1
  have le2 := grows.labels_le
  have le3 := served.grows.labels_le
  have agents := written.bound hk1
  have support := served.bound hk2
  obtain ⟨ls, labelled, perm⟩ := made.entries
  have routineEntries : (routines.map (·.entry)).Perm ls := by
    have found : (routines.map fun u => some u.entry).Perm (ls.map some) := by
      rw [hentries]
      exact (made.entries_perm haccepted).trans (perm.symm.map some)
    have mapped := found.filterMap id
    simpa [filterMap_map, filterMap_eq_map] using mapped
  have begins : [start] = labelsFrom pool.labels.size (p0.labels.size - pool.labels.size) := by
    rw [named.size_eq, Nat.add_sub_cancel_left]
    exact named.labels_eq
  have namedAgents : ls = labelsFrom labels.size (pool.labels.size - labels.size) := by
    have count : pool.labels.size - labels.size = ls.length :=
      Nat.sub_eq_of_eq_add' labelled.size_eq
    rw [count]
    exact labelled.labels_eq
  have le : labels.size ≤ pool.labels.size := labelled.size_eq ▸ Nat.le_add_right _ _
  have le0 : pool.labels.size ≤ p0.labels.size := named.size_eq ▸ Nat.le_add_right _ _
  have le1 := main.labels_le
  have mainBound : (boundLabels (front ++ [Instruction.call exit.label])).Perm
      (labelsFrom p0.labels.size (p1.labels.size - p0.labels.size)) := by
    rw [← Multiset.coe_eq_coe]
    simpa using main.bound
  have servicesBound := services_labels
  rw [← order, List.map_map] at servicesBound
  have all : labelsFrom 0 q.labels.size = labelsFrom 0 labels.size ++ (ls ++ ([start] ++
      (labelsFrom p0.labels.size (p1.labels.size - p0.labels.size) ++
      (labelsFrom p1.labels.size (p2.labels.size - p1.labels.size) ++
      labelsFrom p2.labels.size (q.labels.size - p2.labels.size))))) := by
    rw [begins, namedAgents, labelsFrom_split le2 le3, labelsFrom_split le1 (le2.trans le3),
      labelsFrom_split le0 (le1.trans (le2.trans le3)),
      labelsFrom_split le (le0.trans (le1.trans (le2.trans le3)))]
    exact (labelsFrom_split (Nat.zero_le _) (le.trans (le0.trans (le1.trans (le2.trans le3))))).symm
  have head : boundLabels [Instruction.align 16, .label start, .arith .and Register.rsp
      (.imm (-16))] = [start] := rfl
  rw [all]
  simp only [boundLabels_append _ (services.flatMap _), boundLabels_append _ (routines.flatMap _),
    boundLabels_append _ (front ++ _), head]
  -- On both sides the same five lists are joined, in two orders.
  rw [← Multiset.coe_eq_coe] at mainBound agents support routineEntries servicesBound ⊢
  simp only [← Multiset.coe_add] at agents support ⊢
  rw [mainBound, agents, support, routineEntries, ← servicesBound]
  ac_rfl

lemma ProgramText.count_label {l : Label} (mem : .label l ∈ object.code) : object.code.count
    (.label l) = 1 := by
  have nodup : (boundLabels object.code).Nodup := by
    rw [(h.bound haccepted).nodup_iff]
    exact nodup_labelsFrom _ _
  rw [AgentCompiler.count_label]
  exact count_eq_one_of_mem nodup (mem_boundLabels.2 mem)

end

end

end AgentCompiler
