import AgentCompiler.Proofs.InitialArena

/-!
Where the storage of agents lies in the zero-initialised section: each agent has its queue and,
behind it, its slot; the agents follow each other, and the heap comes last. No two of these regions
share a byte.
-/

namespace AgentCompiler

namespace Plan

variable {program : Program} {layout : Layout} {settings : Settings} {plan : Plan} {p q : Pool}
  {cap : Nat} {sections : DataPlan} {due : List SymbolId}

def Occupies (symbols : SymbolTable) (cap : Nat) (st : Storage) (low high : Nat) : Prop :=
  ∃ queue slot, BoundAt symbols st.queue .bss queue ∧ BoundAt symbols st.slot .bss slot ∧
    low ≤ queue ∧ queue + queueSize cap ≤ slot ∧ slot + slotSize ≤ high

def LieApart (symbols : SymbolTable) (cap limit : Nat) (a b : Storage) : Prop :=
  ∃ middle, Occupies symbols cap a 0 middle ∧ Occupies symbols cap b middle limit ∨
    Occupies symbols cap b 0 middle ∧ Occupies symbols cap a middle limit

namespace Occupies

variable {t u : SymbolTable} {st : Storage} {low low' high high' : Nat}

lemma keeps (occupies : Occupies t cap st low high) (keeps : t.Keeps u) :
    Occupies u cap st low high := by
  obtain ⟨queue, slot, queueAt, slotAt, order⟩ := occupies
  exact ⟨queue, slot, queueAt.keeps keeps, slotAt.keeps keeps, order⟩

lemma mono (occupies : Occupies t cap st low high) (lower : low' ≤ low) (igher : high ≤ high') :
    Occupies t cap st low' high' := by
  obtain ⟨queue, slot, queueAt, slotAt, start, order, stop⟩ := occupies
  exact ⟨queue, slot, queueAt, slotAt, lower.trans start, order, stop.trans igher⟩

end Occupies

namespace LieApart

variable {t u : SymbolTable} {a b : Storage} {limit limit' : Nat} (apart : LieApart t cap limit a b)
include apart

lemma symm : LieApart t cap limit b a := apart.imp fun _ => Or.symm

lemma keeps (keeps : t.Keeps u) : LieApart u cap limit a b :=
  apart.imp fun _ => .imp (.imp (·.keeps keeps) (·.keeps keeps))
    (.imp (·.keeps keeps) (·.keeps keeps))

lemma mono (igher : limit ≤ limit') : LieApart t cap limit' a b :=
  apart.imp fun _ => .imp (.imp_right (·.mono le_rfl igher)) (.imp_right (·.mono le_rfl igher))

end LieApart

lemma reserve_behind {d : DataSection} (kind : d.kind = .bss) {count : Nat}
    (fits : d.size + 15 + count < UInt64.size) :
    d.size ≤ (d.reserve count 16).1 ∧ (d.reserve count 16).2.size =
        (d.reserve count 16).1 + count := by
  obtain ⟨-, offset, size⟩ := reserve_bss kind count
  have padded : (d.reserve count 16).1 = toWord (alignUp d.size 16) := by
    simp [DataSection.reserve, DataSection.nextOffset, kind]
  have near : alignUp d.size 16 < d.size + 16 := alignUp_lt (by decide)
  have whole : toWord (alignUp d.size 16) = alignUp d.size 16 := toWord_eq_self (by omega)
  refine ⟨?_, size.trans (toWord_eq_self (by omega))⟩
  rw [padded, whole]
  exact le_alignUp _ _

lemma addStorage_occupies {sections' : DataPlan} {agent : AgentLayout}
    (added : addStorage cap sections agent p = .ok (sections', q)) (lacks : p.Lacks due)
    (kind : sections.bss.kind = .bss)
    (fits : sections.bss.size + (queueSize cap + slotSize + 30) < UInt64.size) :
    ∃ st, sections'.storage = sections.storage ++ [(agent.name, st)] ∧
      Occupies q.symbols cap st sections.bss.size sections'.bss.size ∧ q.Lacks due ∧
      sections'.bss.kind = .bss ∧
      sections'.bss.size ≤ sections.bss.size + (queueSize cap + slotSize + 30) := by
  obtain ⟨_, queue, symbols, _, slot, symbols', rfl, queued, rfl, within, rfl, rfl⟩ :=
    addStorage_ok added
  obtain ⟨lacks', -⟩ := lacks.define (dotted _ (by decide)) queued
  obtain ⟨lacks'', -⟩ := lacks'.define (dotted _ (by decide)) within
  obtain ⟨kind1, offset1, -⟩ := reserve_bss kind (queueSize cap)
  obtain ⟨kind2, offset2, -⟩ := reserve_bss kind1 slotSize
  have fits1 : sections.bss.size + 15 + queueSize cap < UInt64.size := by omega
  obtain ⟨behind1, size1⟩ := reserve_behind kind fits1
  have fits2 : (sections.bss.reserve (queueSize cap) 16).2.size + 15 + slotSize <
      UInt64.size := by omega
  obtain ⟨behind2, size2⟩ := reserve_behind kind1 fits2
  have queueAt : BoundAt symbols queue .bss _ :=
    ⟨_, lacks.toLacks.get?_define (dotted _ (by decide)) queued, rfl, rfl, rfl⟩
  have slotAt : BoundAt symbols' slot .bss _ :=
    ⟨_, lacks'.toLacks.get?_define (dotted _ (by decide)) within, rfl, rfl, rfl⟩
  refine ⟨⟨queue, slot⟩, rfl, ⟨_, _, queueAt.keeps (.define within), slotAt, behind1, ?_, ?_⟩,
    lacks'', kind2, ?_⟩
  all_goals
    simp only
    omega

lemma StorageRun.regions {final : DataPlan} {agents : List AgentLayout}
    (run : StorageRun cap sections p agents final q) (lacks : p.Lacks due)
    (kind : sections.bss.kind = .bss) (fits : sections.bss.size + agents.length *
    (queueSize cap + slotSize + 30) < UInt64.size) :
    ∃ added, final.storage = sections.storage ++ added ∧
      added.Pairwise (fun a b => LieApart q.symbols cap final.bss.size a.2 b.2) ∧
      (∀ pair ∈ added, Occupies q.symbols cap pair.2 sections.bss.size final.bss.size) ∧
      sections.bss.size ≤ final.bss.size := by
  induction run with
  | nil => exact ⟨[], by simp, .nil, by simp, le_rfl⟩
  | @cons sections sections' final p s q agent rest first later ih =>
    rw [List.length_cons, Nat.succ_mul] at fits
    obtain ⟨st, storage, occupies, lacks', kind', size⟩ := addStorage_occupies first lacks kind
      (by omega)
    obtain ⟨added, storage', apart, inside, order⟩ := ih lacks' kind' (by omega)
    have own := occupies.keeps later.laid.keeps
    have order' : sections.bss.size ≤ sections'.bss.size := by
      obtain ⟨queue, slot, -, -, start, middle, stop⟩ := occupies
      omega
    refine ⟨(agent.name, st) :: added, by simp [storage', storage],
      List.pairwise_cons.2 ⟨?_, apart⟩, ?_, order'.trans order⟩
    · exact fun pair mem => ⟨_, .inl ⟨own.mono (Nat.zero_le _) le_rfl, inside pair mem⟩⟩
    · rw [List.forall_mem_cons]
      exact ⟨own.mono le_rfl order, fun pair mem => (inside pair mem).mono order' le_rfl⟩

section

variable (made : make program layout settings .initial = .ok (plan, q))
  (accepted : Layout.IsAccepted program layout)
include made accepted

lemma make_storageRun : ∃ sections p2 due sections' p' old,
      sections.bss = .empty .bss ∧ sections.storage = [] ∧ p2.Lacks due ∧
      StorageRun settings.queueCapacity.toNat sections p2 (receivers layout) sections' p' ∧
      p'.symbols.get? Pool.heap = some old ∧ old.kind = .bss ∧
      p'.symbols.bind Pool.heap (sections'.bss.reserve settings.heapSize.toNat 16).1 =
      .ok q.symbols ∧ plan.sections.bss = (sections'.bss.reserve settings.heapSize.toNat 16).2 ∧
      plan.sections.storage = sections'.storage ∧ q.symbols.size = p2.symbols.size + 2 *
      (receivers layout).length := by
  obtain ⟨handlers, helpers, p1, sections, p2, all, named, data, storage, rfl⟩ := make_ok made
  obtain ⟨⟨ls, labels, -⟩, -, -⟩ := nameRoutines_ok named
  obtain ⟨⟨lacks, sound'⟩, -, empty, -⟩ :=
    layOutData_facts data accepted (lacks_initial.grows (.names labels))
      (initial_isSound.names labels)
  obtain ⟨sections', p', symbols, run, last, rfl, rfl⟩ := layOutStorage_ok storage
  obtain ⟨laid, none⟩ := layOutData_laid data
  have first : p1.symbols.get? Pool.heap = some ⟨"heap", .bss, 0, false⟩ := by
    rw [labels.rest_eq]
    rfl
  obtain ⟨old, found, -, inBss, -⟩ := (laid.trans run.laid).keeps _ _ first
  obtain ⟨free, count⟩ := run.lacks lacks
  have same := (free.toLacks.bind last).2
  exact ⟨sections, p2, _, sections', p', old, empty, none, lacks, run, found, inBss, last, rfl, rfl,
    same.trans count⟩

lemma make_regions (valid : settings.validate = .ok ()) (few : q.symbols.size < 0x100000000) :
    ∃ heap, BoundAt q.symbols Pool.heap .bss heap ∧
      heap + settings.heapSize.toNat ≤ plan.sections.bss.size ∧ plan.sections.bss.size ≤
      0x1000000000000000 ∧ plan.sections.storage.Pairwise
      (fun a b => LieApart q.symbols settings.queueCapacity.toNat heap a.2 b.2) ∧
      ∀ pair ∈ plan.sections.storage, Occupies q.symbols settings.queueCapacity.toNat pair.2
      0 heap := by
  obtain ⟨sections, p2, due, sections', p', old, empty, none, lacks, run, found, inBss, last,
    bss, storage, count⟩ := make_storageRun made accepted
  obtain ⟨-, small, -, -⟩ := Settings.validate_ok valid
  simp only [Settings.maxHeapSize] at small
  have space := receivers_space (n := (receivers layout).length) valid (by omega)
  have start : sections.bss.size = 0 := by rw [empty]; rfl
  have kind : sections.bss.kind = .bss := by rw [empty]; rfl
  obtain ⟨-, -, kind', size⟩ := run.sections kind
  obtain ⟨added, all, apart, inside, -⟩ := run.regions lacks kind
    (by simp only [UInt64.size]; omega)
  have fits : sections'.bss.size + 15 + settings.heapSize.toNat < UInt64.size := by
    simp only [UInt64.size]
    omega
  obtain ⟨behind, final⟩ := reserve_behind kind' fits
  obtain ⟨-, near, -⟩ := reserve_bss kind' settings.heapSize.toNat
  rw [none, List.nil_append] at all
  rw [storage, all, bss]
  have keeps : p'.symbols.Keeps q.symbols := .bind last
  refine ⟨_, .of_bind found inBss last, Nat.le_of_eq final.symm, by omega,
    apart.imp fun order => (order.keeps keeps).mono behind,
    fun pair mem => ((inside pair mem).keeps keeps).mono (Nat.zero_le _) behind⟩

end

end Plan

end AgentCompiler
