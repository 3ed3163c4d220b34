import AgentCompiler.Proofs.SymbolBinding

/-!
Code that is ready to be assembled: every instruction has an encoding, and the labels and symbols
that it names are in the tables. Every body is, since each of its steps is; routines and services
put nothing around it that would not be. Only services have short branches.
-/

namespace AgentCompiler

open Instruction Service List

variable {routines : List PlacedRoutine}

lemma fitsInt32_ofNat {n : Nat} (h : n < 0x80000000) : fitsInt32 (Int64.ofNat n).toInt = true := by
  have value : (Int64.ofNat n).toInt = n := Int64.toInt_ofNat_of_lt (by omega)
  rw [value]
  simp only [fitsInt32, Bool.and_eq_true, decide_eq_true_eq]
  omega

def Instruction.shortTarget? : Instruction → Option Label
  | jmpShort l | jccShort _ l => some l
  | _ => none

/-- An instruction that can be assembled over the first `known` symbols and `named` labels, where
the numbers that it holds are `small`. It refers to symbols by distance. -/
structure Instruction.IsReady (small : Prop) (known named : Nat) (i : Instruction) : Prop where
  encodable : small → i.isEncodable = true
  symbols_lt : ∀ s ∈ i.symbols, s.index < known
  target_lt : ∀ l, i.target? = some l → l.id < named
  align_eq : ∀ n, i = .align n → n = 16
  relative : i.loadedSymbols = []

structure Instruction.IsSteady (small : Prop) (known named : Nat) (i : Instruction) : Prop
    extends i.IsReady small known named where
  far : i.shortTarget? = none

namespace Instruction

variable {small : Prop} {known named : Nat} {i : Instruction}

def isSilent : Instruction → Bool
  | align n => n == 16
  | i => i.symbols.isEmpty && i.target?.isNone

namespace IsSteady

lemma mono (h : i.IsSteady small known named) {known' named' : Nat} (knows : known ≤ known')
    (hnamed : named ≤ named') : i.IsSteady small known' named' :=
  ⟨⟨h.encodable, fun s hs => (h.symbols_lt s hs).trans_le knows,
    fun l hl => (h.target_lt l hl).trans_le hnamed, h.align_eq, h.relative⟩, h.far⟩

lemma of_silent (encodable : small → i.isEncodable = true) (silent : i.isSilent = true) :
    i.IsSteady small known named := by
  by_cases align : ∃ n, i = .align n
  · obtain ⟨n, rfl⟩ := align
    have same : n = 16 := by simpa [isSilent] using silent
    exact ⟨⟨encodable, by simp [symbols, memory, loadedSymbols], by simp [target?], by simp [same],
      rfl⟩, rfl⟩
  · rw [not_exists] at align
    have both : i.symbols = [] ∧ i.target? = none := by cases i <;> simp_all [isSilent]
    refine ⟨⟨encodable, by simp [both.1], by simp [both.2], fun n same => absurd same (align n),
      ?_⟩, ?_⟩
    · exact (append_eq_nil_iff.1 both.1).2
    · have target := both.2
      cases i <;> first | rfl | simp [target?] at target

lemma of_all {code : Code} (h : code.all (fun i => i.isEncodable && i.isSilent) = true) :
    ∀ i ∈ code, i.IsSteady small known named := by
  intro i hi
  have both := all_eq_true.1 h i hi
  rw [Bool.and_eq_true] at both
  exact .of_silent (fun _ => both.1) both.2

lemma of_isPlain (h : i.IsPlain small known) : i.IsSteady small known named where
  encodable := h.encodable
  symbols_lt := h.symbols_lt
  target_lt l hl := by
    have straight := h.straight
    cases i <;> simp [isStraight, target?] at straight hl
  align_eq n hn := by
    have straight := h.straight
    simp [hn, isStraight] at straight
  relative := h.relative
  far := by
    have straight := h.straight
    cases i <;> first | rfl | simp [isStraight] at straight

end IsSteady

end Instruction

section

variable {small : Prop} {known named : Nat} {plan : Plan} {source : Endpoint}

lemma isSteady_pushes (rs : List Register) : ∀ i ∈ rs.map push, i.IsSteady small known named := by
  rw [forall_mem_map]
  exact fun r _ => .of_silent (fun _ => rfl) rfl

lemma isSteady_pops (rs : List Register) : ∀ i ∈ rs.map pop, i.IsSteady small known named := by
  rw [forall_mem_map]
  exact fun r _ => .of_silent (fun _ => rfl) rfl

lemma isSteady_callSequence {live : List Register} {target : Label} {args : List Argument}
    (aimed : target.id < named) (h : ∀ s d, Argument.address s d ∈ args → s.index < known) :
    ∀ i ∈ callSequence live target args, i.IsSteady small known named := by
  intro i hi
  cases callPart_of_mem hi with
  | push | pop => exact .of_silent (fun _ => rfl) rfl
  | adjust op => exact .of_silent (fun _ => rfl) rfl
  | reg | imm => exact .of_silent (fun _ => rfl) rfl
  | @address dst s addend _ arg =>
    have lt := h s addend arg
    exact ⟨⟨fun _ => rfl, by simpa [symbols, memory, loadedSymbols, Address.symbol, Address.symbol?]
      using lt,
      by simp [target?], by simp, rfl⟩, rfl⟩
  | call =>
    exact ⟨⟨fun _ => rfl, by simp [symbols, memory, loadedSymbols], by simpa [target?]
      using aimed, by simp, rfl⟩, rfl⟩

def Plan.CallsBelow (plan : Plan) (source : Endpoint) (named : Nat) : Prop :=
  ∀ target args, plan.Permits source target args → target.id < named

lemma Written.steady {lo : Nat} {p q : Pool} {P Q : Multiset Label} {code : Code}
    (h : Written plan source lo p P code q Q) (short : small → plan.HasSmallNumbers)
    (calls : plan.CallsBelow source p.labels.size) : ∀ i ∈ code, i.IsSteady small q.symbols.size
    q.labels.size := by
  induction h with
  | plain simple =>
    intro i hi
    obtain ⟨encodable, straight, resolved, relative⟩ := simple i hi
    exact .of_isPlain ⟨fun h => encodable (short h), straight, resolved, relative⟩
  | interns | fresh => simp
  | bind binds =>
    rw [forall_mem_singleton]
    exact .of_silent (fun _ => rfl) rfl
  | jump _ lt | branch _ lt =>
    rw [forall_mem_singleton]
    exact ⟨⟨fun _ => rfl, by simp [symbols, memory, loadedSymbols], by simpa [target?]
      using lt, by simp, rfl⟩, rfl⟩
  | call _ permits address => exact isSteady_callSequence (calls _ _ permits) address
  | append h1 h2 ih1 ih2 =>
    rw [forall_mem_append]
    exact ⟨fun i hi => (ih1 calls i hi).mono h2.keeps.size_le h2.labels_le,
      ih2 fun target args hp => (calls target args hp).trans_le h1.labels_le⟩

end

section

variable {small : Prop} {known named params : Nat} {plan : Plan} {entry : Label} {frame : Frame}

lemma isSteady_prologue
    (slots : small → frame.slots < 0x8000000) : ∀ i ∈ prologue entry frame params,
    i.IsSteady small known named := by
  have size : small → frame.size < 0x80000000 := by
    intro h
    have few := slots h
    unfold Frame.size
    split <;> omega
  have reserve : ∀ i ∈ (if frame.size = 0 then [] else
      [arith .sub Register.rsp (Int64.ofNat frame.size)] : Code), i.IsSteady small known named := by
    intro i hi
    split at hi
    · simp at hi
    · rw [mem_singleton.1 hi]
      exact .of_silent (fun h => fitsInt32_ofNat (size h)) rfl
  have stores : ∀ pairs : List (Register × Nat), ∀ i ∈ pairs.map fun pair =>
      move (Variable.address pair.2) pair.1, i.IsSteady small known named := by
    intro pairs
    rw [forall_mem_map]
    exact fun pair _ => .of_silent (fun _ => rfl) rfl
  simp only [prologue, forall_mem_append]
  exact ⟨⟨⟨⟨.of_all rfl, reserve⟩, isSteady_pushes _⟩, .of_all rfl⟩, stores _⟩

lemma isSteady_epilogue {leave : Label} : ∀ i ∈ epilogue leave frame,
    i.IsSteady small known named := by
  simp only [epilogue, forall_mem_append]
  exact ⟨⟨.of_all rfl, isSteady_pops _⟩, .of_all rfl⟩

lemma Emit.IsRoutine.steady {agent : AgentLayout} {slots : Nat} {p q : Pool}
    {code : Code} (h : IsRoutine plan agent entry params slots p code q) (knows : plan.Knows p)
    (short : small → plan.HasSmallNumbers) (hslots : small → slots < 0x8000000)
    (calls : plan.CallsBelow (.agent agent.name) p.labels.size) :
    ∀ i ∈ code, i.IsSteady small q.symbols.size q.labels.size := by
  obtain ⟨leave, rfl, body⟩ := h
  have size := (fresh_facts leave).2.1
  have written := body (by omega) (knows.fresh leave) 0
  simp only [forall_mem_append]
  exact ⟨⟨isSteady_prologue hslots, written.steady short fun target args hp =>
    (calls target args hp).trans (by omega)⟩, isSteady_epilogue⟩

lemma RoutineRuns.steady {p q : Pool} (h : RoutineRuns plan p routines q) (knows : plan.Knows p)
    (short : small → plan.HasSmallNumbers) (slots : ∀ u ∈ routines, small → u.slots < 0x8000000)
    (calls : ∀ source, plan.CallsBelow source p.labels.size) :
    ∀ i ∈ routines.flatMap (·.code), i.IsSteady small q.symbols.size q.labels.size := by
  induction h with
  | nil p => simp
  | cons routine runs ih =>
    have grows := routine.grows knows
    have grows' := runs.grows (grows.knows knows)
    rw [forall_mem_cons] at slots
    rw [flatMap_cons, forall_mem_append]
    exact ⟨fun i hi => (routine.steady knows short slots.1 (calls _) i hi).mono
        grows'.keeps.size_le grows'.labels_le, ih (grows.knows knows) slots.2 fun source target
        args hp =>
        (calls source target args hp).trans_le grows.labels_le⟩

end

section

variable {small : Prop} {cap heapSize known named : Nat} {s : Service} {locals : List Label}
  {code : Code}

section

variable (h : ServiceText cap heapSize known s locals code)
include h

lemma ServiceText.encodable (hcapacity : fitsInt32 (Int64.ofNat cap).toInt = true)
    (heap : fitsInt32 (Int64.ofNat heapSize).toInt = true) : code.all isEncodable = true := by
  cases h
  case allocate =>
    calc List.all _ isEncodable = (fitsInt32 (Int64.ofNat heapSize).toInt && true) := rfl
      _ = true := by rw [heap, Bool.and_self]
  case enqueue =>
    calc List.all _ isEncodable = (fitsInt32 (Int64.ofNat cap).toInt &&
          (fitsInt32 (Int64.ofNat cap).toInt && (fitsInt32 (Int64.ofNat cap).toInt && true))) := rfl
      _ = true := by rw [hcapacity, Bool.and_self, Bool.and_self, Bool.and_self]
  case dequeue =>
    calc List.all _ isEncodable = (fitsInt32 (Int64.ofNat cap).toInt && true) := rfl
      _ = true := by rw [hcapacity, Bool.and_self]
  all_goals rfl

lemma ServiceText.symbols_lt : ∀ x ∈ code.flatMap symbols, x.index < known := by
  cases h
  all_goals
    conv in List.flatMap _ _ => cbv
    simp only [mem_cons, not_mem_nil, or_false, forall_eq_or_imp, forall_eq, false_implies,
      implies_true]
  all_goals omega

lemma ServiceText.targets_lt (fresh : ∀ l ∈ locals, l.id < named)
    (services : labels.size ≤ named) : ∀ l ∈ code.filterMap target?, l.id < named := by
  have size : labels.size = 18 := rfl
  cases h
  all_goals
    conv in List.filterMap _ _ => cbv
    simp only [mem_cons, not_mem_nil, or_false, forall_eq_or_imp, forall_eq,
      false_implies, implies_true] at fresh ⊢
  all_goals omega

lemma ServiceText.aligns : code.filter isAlign = [align 16] := by
  cases h <;> rfl

lemma ServiceText.relative : code.all (fun i => i.loadedSymbols.isEmpty) = true := by
  cases h <;> rfl

lemma ServiceText.ready (few : small → cap < 0x80000000 ∧ heapSize < 0x80000000)
    (fresh : ∀ l ∈ locals, l.id < named) (services : labels.size ≤ named) :
    ∀ i ∈ code, i.IsReady small known named := by
  intro i hi
  refine ⟨fun short => ?_, ?_, ?_, ?_, List.isEmpty_iff.1 (all_eq_true.1 h.relative i hi)⟩
  · have encodable := h.encodable (fitsInt32_ofNat (few short).1) (fitsInt32_ofNat (few short).2)
    exact all_eq_true.1 encodable i hi
  · exact fun x hx => h.symbols_lt x (mem_flatMap.2 ⟨i, hi, hx⟩)
  · exact fun l hl => h.targets_lt fresh services l (mem_filterMap.2 ⟨i, hi, hl⟩)
  · rintro n rfl
    have mem : align n ∈ code.filter isAlign := mem_filter.2 ⟨hi, rfl⟩
    rw [h.aligns] at mem
    simpa using mem

end

end

section

variable {small : Prop} {program : Program} {layout : Layout} {settings : Settings} {plan : Plan}
  {q : Pool}

lemma Layout.IsAccepted.hasSmallNumbers (h : IsAccepted program layout)
    (count : program.schemas.length < 0x80000000) (planned : plan.layout = layout) :
    plan.HasSmallNumbers := by
  intro schema found
  rw [planned] at found
  obtain ⟨k, hk⟩ := getElem?_of_mem found
  have length : layout.schemas.length = program.schemas.length := by
    simpa using congrArg List.length h.schemaNames
  have lt := (List.getElem?_eq_some_iff.1 hk).1
  rw [h.schemas.id_eq hk]
  exact fitsInt32_ofNat (by omega)

lemma Plan.IsMade.callsBelow (h : plan.IsMade program layout settings q) (source : Endpoint) :
    plan.CallsBelow source q.labels.size := by
  have services : labels.size ≤ q.labels.size := by
    obtain ⟨ls, labelled, -⟩ := h.entries
    exact le_self_add.trans_eq labelled.size_eq.symm
  intro target args permits
  cases permits with
  | service => exact (label_id_lt _).trans_le services
  | delivery => exact (label_id_lt _).trans_le services
  | helper lookup => exact (h.label_bounds (.inr (mem_of_lookup_eq_some lookup))).2
  | handler lookup => exact (h.label_bounds (.inl (mem_of_lookup_eq_some lookup))).2

lemma Plan.IsMade.slots_lt {limit : Nat} (h : plan.IsMade program layout settings q)
    (accepted : Layout.IsAccepted program layout)
    (counts : routines.map (·.slots) = layout.agents.flatMap plan.slotCounts)
    (slots : ∀ agent ∈ layout.agents, ∀ t, program.template? agent.template = some t →
      ∀ n ∈ t.slotCounts, n < limit) : ∀ u ∈ routines, u.slots < limit := by
  intro u hu
  have mem := counts ▸ mem_map_of_mem hu
  obtain ⟨agent, owner, count⟩ := mem_flatMap.1 mem
  obtain ⟨t, -, ht, -, -⟩ := accepted.template owner
  simp only [Plan.slotCounts, h.program_eq, ht, Option.map_some, Option.getD_some] at count
  exact slots agent owner t ht _ count

lemma ServiceRuns.ready {cap heapSize : Nat} {p : Pool} {services : List PlacedService}
    (h : ServiceRuns plan cap heapSize p services q) (knows : plan.Knows p)
    (few : small → cap < 0x80000000 ∧ heapSize < 0x80000000)
    (names : Service.labels.size ≤ q.labels.size) :
    ∀ i ∈ services.flatMap (·.code), i.IsReady small q.symbols.size q.labels.size := by
  obtain ⟨count, fresh, size⟩ := h.labels
  intro i hi
  obtain ⟨u, hu, hi⟩ := mem_flatMap.1 hi
  refine (h.text knows u hu).ready few (fun l hl => ?_) names i hi
  have mem := fresh ▸ mem_flatMap.2 ⟨u, hu, hl⟩
  have lt := (mem_labelsFrom.1 mem).2
  omega

structure HasModestNumbers (program : Program) (layout : Layout) (settings : Settings) : Prop where
  accepted : Layout.IsAccepted program layout
  valid : settings.validate = .ok ()
  slots : ∀ agent ∈ layout.agents, ∀ t, program.template? agent.template = some t →
    ∀ n ∈ t.slotCounts, n < 0x8000000
  schemas : program.schemas.length < 0x80000000

lemma ProgramText.ready {object : ObjectCode} (h : ProgramText program layout settings object)
    (short : small → HasModestNumbers program layout settings) :
    ∀ i ∈ object.code, i.IsReady small object.symbols.size object.labels.size := by
  obtain ⟨planned, starts, main, written, -, counts, served, -, rfl⟩ := h
  rename_i plan pool p0 p1 p2 q start front routines services
  have made := Plan.make_isMade planned
  have grows0 : pool.Grows p0 := .names (.entry starts)
  have grows1 := grows0.trans main.grows
  have hk1 := grows1.knows made.knows
  have grows2 := written.grows hk1
  have grows3 := served.grows
  have calls : ∀ source, plan.CallsBelow source pool.labels.size := made.callsBelow
  have names : labels.size ≤ q.labels.size := by
    obtain ⟨ls, labelled, -⟩ := made.entries
    have hpool : labels.size ≤ pool.labels.size := le_self_add.trans_eq labelled.size_eq.symm
    exact hpool.trans (grows1.trans (grows2.trans grows3)).labels_le
  have numbers (h : small) := (short h).accepted.hasSmallNumbers (short h).schemas made.layout_eq
  have coded : ∀ u ∈ routines, small → u.slots < 0x8000000 := fun u hu h =>
    made.slots_lt (short h).accepted counts (short h).slots u hu
  have few : small → settings.queueCapacity.toNat < 0x80000000 ∧
      settings.heapSize.toNat < 0x80000000 := by
    intro h
    obtain ⟨-, heap, queue, -⟩ := Settings.validate_ok (short h).valid
    simp only [Settings.maxHeapSize, Settings.maxQueueCapacity] at heap queue
    omega
  have later := grows2.trans grows3
  refine forall_mem_append.2 ⟨forall_mem_append.2 ⟨forall_mem_append.2
    ⟨fun i hi => (IsSteady.of_all rfl i hi).toIsReady, fun i hi => ?_⟩, fun i hi => ?_⟩, ?_⟩
  · exact ((main.steady numbers (fun t args hp =>
      (calls _ t args hp).trans_le grows0.labels_le) i hi).mono later.keeps.size_le
        later.labels_le).toIsReady
  · exact ((written.steady hk1 numbers coded (fun source t args hp =>
      (calls source t args hp).trans_le grows1.labels_le) i hi).mono grows3.keeps.size_le
      grows3.labels_le).toIsReady
  · exact served.ready (grows2.knows hk1) few names

end

end AgentCompiler
