import AgentCompiler.Proofs.Linking

/-!
Generated code is complete: every label is bound at one place, every symbol in a section that the
image has, and every instruction can be encoded with its short branches in reach. So the only thing
that can stop a build after code generation is a distance that does not fit four bytes.
-/

namespace AgentCompiler

open Blueprint List Assembly Instruction

namespace ObjectCode

variable {o : ObjectCode} {loadAddress : Nat}

/-- What generated code guarantees to assembler and linker. -/
structure IsSound (o : ObjectCode) : Prop where
  bound : (boundLabels o.code).Perm (labelsFrom 0 o.labels.size)
  ready : ∀ i ∈ o.code, i.IsReady True o.symbols.size o.labels.size
  near : HasNearShorts [] o.code
  entry : .label o.entry ∈ o.code
  lacks : o.symbols.Lacks []
  rodata_kind : o.rodata.kind = .rodata
  rodata : ∀ id s, o.symbols.get? id = some s → s.kind = .rodata → o.rodata.isEmpty = false
  data_kind : o.data.kind = .data
  bss_kind : o.bss.kind = .bss
  data_full : o.data.isEmpty = false
  bss_full : o.bss.isEmpty = false
  pointers : ∀ r ∈ o.dataRelocations, Plan.IsPointer o.data o.symbols r

def blueprint (o : ObjectCode) (a : Assembly) (loadAddress entryOffset : Nat) : Blueprint :=
  [o.rodata, o.data, o.bss].foldl withSection {
    loadAddress
    text := a.bytes
    relocations := a.relocations ++ o.dataRelocations
    entryOffset
    rodata_kind := (rfl : SectionKind.rodata = _)
    data_kind := (rfl : SectionKind.data = _)
    bss_kind := (rfl : SectionKind.bss = _) }

lemma blueprint_of_kinds {a : Assembly} {entryOffset : Nat} (constant : o.rodata.kind = .rodata)
    (stored : o.data.kind = .data) (reserved : o.bss.kind = .bss) :
    o.blueprint a loadAddress entryOffset = {
      loadAddress
      text := a.bytes
      rodata := o.rodata
      data := o.data
      bss := o.bss
      relocations := a.relocations ++ o.dataRelocations
      entryOffset
      rodata_kind := constant
      data_kind := stored
      bss_kind := reserved } := by
  simp only [blueprint, foldl_cons, foldl_nil, withSection_rodata constant,
    withSection_data stored, withSection_bss reserved]

lemma link_ok {image : Image} (h : o.link loadAddress = .ok image) :
    ∃ a entryOffset, assemble o.names o.code = .ok a ∧ a.offset? o.entry = some entryOffset ∧
      (o.blueprint a loadAddress entryOffset).build o.symbols = .ok image := by
  obtain ⟨a, assembled, h⟩ := bind_ok.1 h
  cases entry : a.offset? o.entry with
  | none => simp [entry] at h
  | some entryOffset =>
    rw [entry] at h
    exact ⟨a, entryOffset, assembled, entry, h⟩

def Resolves (o : ObjectCode) (id : SymbolId) : Prop := ∃ s, o.symbols.get? id = some s ∧
    s.isBound = true ∧ ∀ a loadAddress entryOffset,
    ∃ part ∈ (o.blueprint a loadAddress entryOffset).sections, part.kind = s.kind

inductive Overflows (o : ObjectCode) (loadAddress : Nat) : Diagnostic → Prop
  | branch {placed : List Placed} {bound : LabelOffsets} {p : Placed} {l : Label} {goal : Nat}
      {text : String} :
      place o.names 0 [] o.code = .ok (placed, bound) → p ∈ placed →
      p.encoding.imm.target? = some (l, 32) → bound.lookup l = some goal →
      fitsInt32 (goal - p.next) = false → p.instruction.render o.names = .ok text →
      Overflows o loadAddress (.range text (goal - p.next) 32)
  | reference {a : Assembly} {entryOffset : Nat} {r : Relocation} {d : Diagnostic} :
      assemble o.names o.code = .ok a → r ∈ a.relocations →
      (o.blueprint a loadAddress entryOffset).DistanceOverflow o.symbols r d →
      Overflows o loadAddress d

lemma Overflows.range {d : Diagnostic} (h : o.Overflows loadAddress d) :
    ∃ item value, d = .range item value 32 ∧ fitsInt32 value = false := by
  cases h with
  | branch _ _ _ _ fits _ => exact ⟨_, _, rfl, fits⟩
  | reference _ _ overflow =>
    cases overflow with
    | intro _ _ _ _ fits => exact ⟨_, _, rfl, fits⟩

namespace IsSound

variable {o : ObjectCode} {a : Assembly} {loadAddress entryOffset : Nat} {d : Diagnostic}
  {placed : List Placed} {bound : LabelOffsets}

section

variable (h : o.IsSound) {id : SymbolId} {l : Label}
include h

lemma nodup_boundLabels : (boundLabels o.code).Nodup := by
  rw [h.bound.nodup_iff]
  exact nodup_labelsFrom _ _

lemma label_mem : .label l ∈ o.code ↔ l.id < o.labels.size := by
  rw [← mem_boundLabels, h.bound.mem_iff, mem_labelsFrom]
  omega

lemma exists_place : ∃ placed bound, place o.names 0 [] o.code = .ok (placed, bound) := by
  have reports : Reports (IsFlawed o.names [] o.code) (place o.names 0 [] o.code) :=
    place_reports (by simp)
  cases result : place o.names 0 [] o.code with
  | ok pair => exact ⟨_, _, rfl⟩
  | error d =>
    rw [result] at reports
    obtain ⟨k, ⟨i, message, hk, flaw, -⟩, -⟩ := reports
    have ready := h.ready i (mem_of_getElem? hk)
    cases flaw with
    | @twice l htwice =>
      obtain ⟨lt, label⟩ := List.getElem?_eq_some_iff.1 hk
      have nodup := h.nodup_boundLabels
      rw [← take_append_drop k o.code, drop_eq_getElem_cons lt, label, boundLabels_append,
        nodup_append'] at nodup
      exact absurd (by simp [boundLabel?]) (nodup.2.2 (mem_boundLabels.2 htwice))
    | boundary odd =>
      rw [ready.align_eq _ rfl] at odd
      exact absurd ⟨4, rfl⟩ odd
    | refused refuses =>
      obtain ⟨e, encode⟩ := exists_encode_iff.2 (ready.encodable trivial)
      simp [encode] at refuses

section

variable (hplace : place o.names 0 [] o.code = .ok (placed, bound))
include hplace

lemma lookup_place (found : l.id < o.labels.size) : ∃ goal, bound.lookup l = some goal := by
  have code := h.label_mem.2 found
  rw [← (place_sound hplace).1, mem_map] at code
  obtain ⟨p, hp, label⟩ := code
  exact ⟨p.offset, (Assembly.lookup_place hplace l _).2 (.inr ⟨p, hp, label, rfl⟩)⟩

lemma short_distances : ∀ p ∈ placed, ∀ l, p.instruction.shortTarget? = some l →
      ∃ goal : Nat, bound.lookup l = some goal ∧ fitsInt8 (goal - p.next) = true :=
  Assembly.short_distances hplace h.near fun count l hl => by simp [nearLabels] at hl

end

lemma assemble_eq_error (loadAddress : Nat) (error : assemble o.names o.code = .error d) :
    o.Overflows loadAddress d := by
  obtain ⟨placed, bound, hplace⟩ := h.exists_place
  obtain ⟨k, ⟨p, hk, error⟩, -⟩ := (Assembly.assemble_eq_error hplace).1 error
  have hp := mem_of_getElem? hk
  obtain ⟨code, -, sound⟩ := place_sound hplace
  have hi := code ▸ mem_map_of_mem hp
  obtain ⟨l, goal, target, leads, fits, text, shown, rfl⟩ := long_distance (sound p hp)
    (fun l hl => h.lookup_place hplace ((h.ready _ hi).target_lt l hl))
    (h.short_distances hplace p hp) error
  exact .branch hplace hp target leads fits shown

lemma relocations_eq : (o.blueprint a loadAddress entryOffset).relocations = a.relocations ++
    o.dataRelocations := by
  rw [blueprint_of_kinds h.rodata_kind h.data_kind h.bss_kind]

lemma contents_eq :
    (o.blueprint a loadAddress entryOffset).contents = ⟨a.bytes, o.rodata.bytes, o.data.bytes⟩ := by
  rw [blueprint_of_kinds h.rodata_kind h.data_kind h.bss_kind]
  rfl

lemma symbol_facts (named : id.index < o.symbols.size) :
    ∃ s, o.symbols.get? id = some s ∧ s.isBound = true ∧ ((s.kind = .rodata ∧
      o.rodata.isEmpty = false) ∨ s.kind = .data ∨ s.kind = .bss) := by
  obtain ⟨s, hs⟩ : ∃ s, o.symbols.get? id = some s := ⟨_, getElem?_eq_getElem named⟩
  refine ⟨s, hs, ?_, ?_⟩
  · by_contra free
    exact absurd (h.lacks.due id s hs (Bool.eq_false_iff.2 free)).1 not_mem_nil
  · have code := h.lacks.kinds id s hs
    cases kind : s.kind with
    | text => exact absurd kind code
    | rodata => exact .inl ⟨rfl, h.rodata id s hs kind⟩
    | data => exact .inr (.inl rfl)
    | bss => exact .inr (.inr rfl)

lemma hasSection {kind : SectionKind}
    (typed : kind = .text ∨ (kind = .rodata ∧ o.rodata.isEmpty = false) ∨ kind = .data ∨
    kind = .bss) :
    ∃ part ∈ (o.blueprint a loadAddress entryOffset).sections, part.kind = kind := by
  rw [blueprint_of_kinds h.rodata_kind h.data_kind h.bss_kind]
  apply exists_section
  obtain rfl | ⟨rfl, full⟩ | rfl | rfl := typed
  · exact .inl rfl
  · exact .inr (.inl ⟨rfl, full⟩)
  · exact .inr (.inr (.inl ⟨rfl, h.data_full⟩))
  · exact .inr (.inr (.inr ⟨rfl, h.bss_full⟩))

lemma resolves (named : id.index < o.symbols.size) : o.Resolves id := by
  obtain ⟨s, hs, below, kind⟩ := h.symbol_facts named
  exact ⟨s, hs, below, fun a loadAddress entryOffset => h.hasSection (.inr kind)⟩

lemma canApply (assembled : assemble o.names o.code = .ok a) :
    ∀ r ∈ (o.blueprint a loadAddress entryOffset).relocations,
      (o.blueprint a loadAddress entryOffset).CanApply o.symbols r := by
  have goal : ∀ {id : SymbolId}, id.index < o.symbols.size → ∃ s address,
        o.symbols.get? id = some s ∧ (o.blueprint a loadAddress entryOffset).symbolAddress s =
        .ok address := by
    intro id named
    obtain ⟨s, hs, below, kept⟩ := h.resolves named
    obtain ⟨address, addressed⟩ := sectionAddress?_isSome (kept a loadAddress entryOffset)
    refine ⟨s, toWord (address + s.offset), hs, ?_⟩
    simp only [symbolAddress, addressed, below]
    rfl
  rw [h.relocations_eq, forall_mem_append]
  constructor
  · intro r hr
    obtain ⟨site, inside, i, hi, symbol⟩ := relocation_facts assembled hr
    refine ⟨goal ((h.ready i hi).symbols_lt _ symbol), ?_, by simp [site], ?_⟩
    · exact sectionAddress?_isSome (site ▸ h.hasSection (.inl rfl))
    · rw [h.contents_eq, site]
      exact inside
  · intro r hr
    obtain ⟨site, -, named, inside⟩ := h.pointers r hr
    refine ⟨goal named, ?_, by simp [site], ?_⟩
    · exact sectionAddress?_isSome (site ▸ h.hasSection (.inr (.inr (.inl rfl))))
    · rw [h.contents_eq, site]
      exact inside

lemma build_eq_error (assembled : assemble o.names o.code = .ok a)
    (error : (o.blueprint a loadAddress entryOffset).build o.symbols = .error d) :
    o.Overflows loadAddress d := by
  obtain ⟨r, hr, overflow⟩ := Blueprint.build_eq_error (h.canApply assembled) error
  rw [h.relocations_eq, mem_append] at hr
  obtain hr | hr := hr
  · exact .reference assembled hr overflow
  · -- An address is stored in full.
    obtain ⟨-, absolute, -, -⟩ := h.pointers r hr
    cases overflow with
    | intro relative _ _ _ _ => simp [absolute] at relative

lemma link_eq_error (error : o.link loadAddress = .error d) : o.Overflows loadAddress d := by
  obtain error | ⟨a, assemble, error⟩ := bind_eq_error.1 error
  · exact h.assemble_eq_error loadAddress error
  obtain ⟨k, hk⟩ := getElem?_of_mem h.entry
  have offset := (offset?_eq_some assemble _ _).2 ⟨k, hk, rfl⟩
  simp only [offset] at error
  exact h.build_eq_error assemble error

end

end IsSound

structure IsComplete (o : ObjectCode) : Prop where
  labels : ∀ l : Label, l.id < o.labels.size → o.code.count (.label l) = 1
  targets : ∀ i ∈ o.code, ∀ l, i.target? = some l → l.id < o.labels.size
  symbols : ∀ i ∈ o.code, ∀ id ∈ i.symbols, o.Resolves id
  pointers : ∀ r ∈ o.dataRelocations, o.Resolves r.symbol
  encodable : ∀ i ∈ o.code, ∃ e, i.encode = .ok e
  /-- The code can be laid out, and then every short branch reaches its label. -/
  reach : ∃ placed bound, place o.names 0 [] o.code = .ok (placed, bound) ∧
    ∀ p ∈ placed, ∀ l, p.instruction.shortTarget? = some l →
      ∃ goal : Nat, bound.lookup l = some goal ∧ fitsInt8 (goal - p.next) = true

lemma IsSound.isComplete (h : o.IsSound) : o.IsComplete where
  labels l hl := by
    rw [count_label]
    exact count_eq_one_of_mem h.nodup_boundLabels (mem_boundLabels.2 (h.label_mem.2 hl))
  targets i hi := (h.ready i hi).target_lt
  symbols i hi id named := h.resolves ((h.ready i hi).symbols_lt id named)
  pointers r hr := h.resolves (h.pointers r hr).2.2.1
  encodable i hi := exists_encode_iff.2 ((h.ready i hi).encodable trivial)
  reach := by
    obtain ⟨placed, bound, hplace⟩ := h.exists_place
    exact ⟨placed, bound, hplace, h.short_distances hplace⟩

end ObjectCode

section

variable {program : Program} {layout : Layout} {settings : Settings} {object : ObjectCode}

lemma generate_isSound (valid : settings.validate = .ok ())
    (hlayout : Layout.analyze program settings = .ok layout)
    (made : generate program layout settings = .ok object) (slots : ∀ agent ∈ layout.agents, ∀ t,
      program.template? agent.template = some t → ∀ n ∈ t.slotCounts, n < 0x8000000) (schemas :
      program.schemas.length < 0x80000000)
    (symbols : object.symbols.size < 0x100000000) : object.IsSound := by
  have accepted := Layout.analyze_isAccepted hlayout
  have text := generate_text made
  obtain ⟨plan, pool, start, main, _, _, _, _, _, planned, started, -, -, -, code⟩ :=
    generate_ok made
  obtain ⟨q, grows, same, constant⟩ := generate_grows planned made
  have size := same ▸ grows.keeps.size_le
  have laid := Plan.make_isLaidOut planned accepted valid (size.trans_lt symbols)
  have hlacks := laid.lacks.grows grows
  have starts : .label object.entry ∈ object.code := by
    obtain ⟨p0, body, -, -, inner, -, -⟩ := Emit.mainRoutine_written started
    simp [code, inner]
  have data : object.data = plan.sections.data ∧ object.bss = plan.sections.bss ∧
      object.dataRelocations = plan.sections.relocations := by
    rw [code]
    exact ⟨rfl, rfl, rfl⟩
  exact {
    bound := text.bound accepted
    ready := text.ready fun _ => ⟨accepted, valid, slots, schemas⟩
    near := text.hasNearShorts
    entry := starts
    lacks := same ▸ hlacks.toLacks
    rodata_kind := constant ▸ hlacks.rodata_kind
    rodata := same ▸ constant ▸ hlacks.rodata
    data_kind := data.1 ▸ laid.data_kind
    bss_kind := data.2.1 ▸ laid.bss_kind
    data_full := data.1 ▸ laid.data_full
    bss_full := data.2.1 ▸ laid.bss_full
    pointers := fun r hr => by
      obtain ⟨site, kind, named, inside⟩ := laid.pointers r (data.2.2 ▸ hr)
      exact ⟨site, kind, named.trans_le size, data.1 ▸ inside⟩ }

/-- After code generation only a distance that does not fit four bytes can stop a build: the code is
complete, so that assembler and linker fail on nothing else. -/
theorem generate_isComplete (valid : settings.validate = .ok ())
    (laid : Layout.analyze program settings = .ok layout)
    (made : generate program layout settings = .ok object)
    (slots : ∀ agent ∈ layout.agents, ∀ t, program.template? agent.template = some t →
      ∀ n ∈ t.slotCounts, n < 0x8000000)
    (schemas : program.schemas.length < 0x80000000)
    (symbols : object.symbols.size < 0x100000000) :
    object.IsComplete ∧
      (∀ d, assemble object.names object.code = .error d →
        object.Overflows settings.loadAddress.toNat d) ∧
      (∀ a entryOffset d, assemble object.names object.code = .ok a →
        (object.blueprint a settings.loadAddress.toNat entryOffset).build object.symbols =
        .error d → object.Overflows settings.loadAddress.toNat d) ∧
      ((∃ image, compile program settings = .ok image) ∨
        ∃ d, compile program settings = .error d ∧
          object.Overflows settings.loadAddress.toNat d) ∧
      ∀ d, object.Overflows settings.loadAddress.toNat d →
        ∃ item value, d = .range item value 32 ∧ fitsInt32 value = false := by
  have sound := generate_isSound valid laid made slots schemas symbols
  have lowered : lower program settings = .ok object := by
    simp only [lower, describeLayout, bind_ok]
    exact ⟨layout, ⟨(), valid, laid⟩, made⟩
  have compiled : compile program settings = object.link settings.loadAddress.toNat := by
    rw [compile, lowered]
    rfl
  refine ⟨sound.isComplete, fun d => sound.assemble_eq_error _,
    fun a entryOffset d => sound.build_eq_error, ?_, fun d => ObjectCode.Overflows.range⟩
  rw [compiled]
  cases link : object.link settings.loadAddress.toNat with
  | ok image => exact .inl ⟨image, rfl⟩
  | error d => exact .inr ⟨d, rfl, sound.link_eq_error link⟩

end

section

set_option maxRecDepth 100000 in
lemma counterProgram_symbols : ((lower counterProgram {}).toOption.all fun object =>
    decide (object.symbols.size < 0x100000000)) = true := by decide +kernel

theorem generate_isComplete_counter : ∃ layout object,
    Layout.analyze counterProgram {} = .ok layout ∧
      generate counterProgram layout {} = .ok object ∧ object.IsComplete ∧
      ((∃ image, compile counterProgram {} = .ok image) ∨
        ∃ d, compile counterProgram {} = .error d ∧
          object.Overflows ({} : Settings).loadAddress.toNat d) := by
  obtain ⟨layout, object, valid, laid, made⟩ := counterProgram_generates
  have symbols := counterProgram_symbols
  simp only [lower, describeLayout, valid, laid, made, bind, Except.bind, Except.toOption,
    Option.all_some, decide_eq_true_eq] at symbols
  have slots : ∀ agent ∈ layout.agents, ∀ t, counterProgram.template? agent.template = some t →
      ∀ n ∈ t.slotCounts, n < 0x8000000 := by
    intro agent _ t ht
    have mem : t ∈ counterProgram.templates := List.mem_of_find?_eq_some ht
    obtain rfl := List.mem_singleton.1 mem
    decide
  obtain ⟨complete, -, -, compiled, -⟩ :=
    generate_isComplete valid laid made slots (by decide) symbols
  exact ⟨layout, object, laid, made, complete, compiled⟩

end

end AgentCompiler
