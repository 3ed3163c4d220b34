import AgentCompiler.Proofs.DeclaredNames

/-!
Records are packed as tightly as declaration order allows, and the records of agents stand side by
side in the state arena.

A field starts at the least multiple of its alignment behind the field before it, and a record ends
at the least multiple of its widest alignment behind its last field. An agent's region starts at a
multiple of sixteen behind the region before it. So no byte belongs to two fields, of one agent or
of two.
-/

namespace AgentCompiler

variable {slot : Slot}

lemma ValueType.isPowerOfTwo_align (type : ValueType) : isPowerOfTwo type.align = true := by
  cases type <;> decide

lemma ValueType.align_dvd_sixteen (type : ValueType) : type.align ∣ 16 := by
  cases type <;> decide

namespace Record

def endOf (start : Nat) (slots : List Slot) : Nat :=
  (slots.getLast?.map fun slot => slot.offset + slot.type.size).getD start

lemma endOf_cons (start : Nat) (slot : Slot) (rest : List Slot) :
    endOf start (slot :: rest) = endOf (slot.offset + slot.type.size) rest := by
  rw [endOf, endOf, List.getLast?_cons]
  cases rest.getLast? <;> rfl

structure IsTight (fields : List FieldDecl) (r : Record) : Prop where
  declares : r.slots.map Slot.decl = fields
  offset : ∀ k slot, r.slots[k]? = some slot →
    IsLeast {o | slot.type.align ∣ o ∧ endOf 0 (r.slots.take k) ≤ o} slot.offset
  /-- Every record is aligned to bytes at least. -/
  align : IsGreatest {n | n = 1 ∨ ∃ field ∈ fields, n = field.type.align} r.align
  size : IsLeast {n | r.align ∣ n ∧ ∀ slot ∈ r.slots, slot.offset + slot.type.size ≤ n} r.size

variable {fields : List FieldDecl} {offset : Nat}

lemma placeFields_end : (placeFields offset fields).2 = endOf offset
    (placeFields offset fields).1 := by
  induction fields generalizing offset with
  | nil => rfl
  | cons field rest ih =>
    simp only [placeFields, endOf_cons]
    exact ih

lemma placeFields_offset {k : Nat} (at_k : (placeFields offset fields).1[k]? = some slot) :
    IsLeast {o | slot.type.align ∣ o ∧ endOf offset ((placeFields offset fields).1.take k) ≤ o}
        slot.offset := by
  induction fields generalizing offset k with
  | nil => simp [placeFields] at at_k
  | cons field rest ih =>
    simp only [placeFields] at at_k ⊢
    cases k with
    | zero =>
      obtain rfl := Option.some.inj at_k
      exact isLeast_alignUp field.type.isPowerOfTwo_align
    | succ k =>
      rw [List.take_succ_cons, endOf_cons]
      exact ih at_k

lemma placeFields_apart : (placeFields offset fields).1.Pairwise fun a b => a.offset + a.type.size ≤
    b.offset := by
  induction fields generalizing offset with
  | nil => exact .nil
  | cons field rest ih =>
    simp only [placeFields, List.pairwise_cons]
    exact ⟨fun slot mem => (placeFields_bounds slot mem).1, ih⟩

lemma isGreatest_foldl_align (fields : List FieldDecl) (widest : Nat) :
    IsGreatest {n | n = widest ∨ ∃ field ∈ fields, n = field.type.align}
      (fields.foldl (fun widest field => max widest field.type.align) widest) := by
  induction fields generalizing widest with
  | nil => exact ⟨.inl rfl, by rintro n (rfl | ⟨_, mem, -⟩) <;> simp_all⟩
  | cons field rest ih =>
    obtain ⟨mem, bound⟩ := ih (max widest field.type.align)
    have first := bound (.inl rfl)
    rw [List.foldl_cons]
    constructor
    · rcases mem with same | ⟨other, inside, same⟩
      · rcases max_choice widest field.type.align with left | right
        · exact .inl (same.trans left)
        · exact .inr ⟨field, List.mem_cons_self .., same.trans right⟩
      · exact .inr ⟨other, List.mem_cons_of_mem _ inside, same⟩
    · rintro n (rfl | ⟨other, inside, rfl⟩)
      · exact (le_max_left _ _).trans first
      · rcases List.mem_cons.1 inside with rfl | later
        · exact (le_max_right _ _).trans first
        · exact bound (.inr ⟨other, later, rfl⟩)

lemma isPowerOfTwo_alignment (fields : List FieldDecl) :
    isPowerOfTwo (alignment fields) = true := by
  rcases (isGreatest_foldl_align fields 1).1 with one | ⟨field, -, same⟩
  · rw [alignment, one]
    decide
  · rw [alignment, same]
    exact field.type.isPowerOfTwo_align

lemma pack_isTight (fields : List FieldDecl) : IsTight fields (pack fields) where
  declares := map_placeFields
  offset _ _ := placeFields_offset
  align := isGreatest_foldl_align fields 1
  size := by
    -- The last field ends behind all others.
    have covers : ∀ n, (∀ slot ∈ (pack fields).slots, slot.offset + slot.type.size ≤ n) ↔
        (placeFields 0 fields).2 ≤ n := by
      intro n
      refine ⟨fun all => ?_, fun final slot mem => (placeFields_bounds slot mem).2.trans final⟩
      rw [placeFields_end, endOf]
      cases last : (placeFields 0 fields).1.getLast? with
      | none => exact Nat.zero_le _
      | some slot => exact all slot (List.mem_of_getLast? last)
    simp only [covers]
    exact isLeast_alignUp (isPowerOfTwo_alignment fields)

lemma pack_apart (fields : List FieldDecl) :
    (pack fields).slots.Pairwise fun a b => a.offset + a.type.size ≤ b.offset := placeFields_apart

lemma IsTight.dvd_offset {r : Record} (tight : IsTight fields r) (mem : slot ∈ r.slots) :
    slot.type.align ∣ slot.offset := by
  obtain ⟨k, at_k⟩ := List.mem_iff_getElem?.1 mem
  exact (tight.offset k slot at_k).1.1

end Record

namespace AgentLayout

def region (a : AgentLayout) : Set Nat := Set.Ico a.base (a.base + a.size)

def fieldBytes (a : AgentLayout) (slot : Slot) : Set Nat :=
  Set.Ico (a.base + slot.offset) (a.base + slot.offset + slot.type.size)

end AgentLayout

namespace Layout

variable {templates : List Template}

def locations (l : Layout) : List (AgentLayout × Slot) := l.agents.flatMap fun a =>
    a.state.slots.map (a, ·)

/-- What is declared is laid out, in declaration order and as tightly as can be, and no two things
share a byte. -/
structure IsSeparated (program : Program) (settings : Settings) (layout : Layout) : Prop where
  schemas : List.Forall₂ (fun schema (s : SchemaLayout) => s.name = schema.name ∧
    s.payload.IsTight schema.fields) program.schemas layout.schemas
  agents : List.Forall₂ (fun declared (a : AgentLayout) => a.name = declared.name ∧
    ∃ template, program.template? declared.template = some template ∧
      a.state.IsTight (template.state.map (·.decl))) program.instances layout.agents
  aligned : ∀ a ∈ layout.agents, 16 ∣ a.base ∧ ∀ slot ∈ a.state.slots, slot.type.size ∣ a.base +
    slot.offset
  inside : ∀ a ∈ layout.agents, a.region ⊆ Set.Iio layout.stateSize ∧
    ∀ slot ∈ a.state.slots, a.fieldBytes slot ⊆ a.region
  limit : layout.stateSize ≤ settings.maxStateBytes.toNat
  regions : layout.agents.Pairwise fun a b => a.base ≠ b.base ∧ Disjoint a.region b.region
  fields : layout.locations.Pairwise fun x y => Disjoint (x.1.fieldBytes x.2) (y.1.fieldBytes y.2)

variable {program : Program} {settings : Settings} {layout : Layout}

lemma IsDeclared.forall₂_schemas (declared : IsDeclared program layout) :
    List.Forall₂ (fun schema (s : SchemaLayout) => s.name = schema.name ∧
      s.payload = Record.pack schema.fields) program.schemas layout.schemas := by
  have same := declared.schemas.symm
  rw [← List.forall₂_eq_eq_eq, List.forall₂_map_left_iff, List.forall₂_map_right_iff] at same
  exact same.imp fun schema s equal => ⟨(Prod.mk.inj equal).1.symm, (Prod.mk.inj equal).2.symm⟩

lemma forall₂_agents (analyzed : analyze program settings = .ok layout) :
    List.Forall₂ (fun declared (a : AgentLayout) => a.name = declared.name ∧
      ∃ template, program.template? declared.template = some template ∧
        IsPlaced program.templates a template) program.instances layout.agents := by
  have accepted := analyze_isAccepted analyzed
  rw [← (analyze_isDeclared analyzed).instances, List.forall₂_map_left_iff, List.forall₂_same]
  intro a mem
  obtain ⟨⟨template, placed⟩, -⟩ := accepted.agents.placed a mem
  exact ⟨rfl, template, placed.found, placed⟩

lemma fieldBytes_subset {a : AgentLayout} {template : Template}
    (placed : IsPlaced templates a template) (mem : slot ∈ a.state.slots) :
    a.fieldBytes slot ⊆ a.region := by
  have bound : slot.offset + slot.type.size ≤ a.state.size := by
    rw [placed.state] at mem ⊢
    exact Record.pack_bounds mem
  have room := placed.size ▸ le_max_left _ _
  exact Set.Ico_subset_Ico le_self_add (by omega)

lemma disjoint_locations {agents : List AgentLayout}
    (placed : ∀ a ∈ agents, ∃ templates template, IsPlaced templates a template)
    (apart : agents.Pairwise fun a b => Disjoint a.region b.region) :
    (agents.flatMap fun a => a.state.slots.map (a, ·)).Pairwise fun x y =>
      Disjoint (x.1.fieldBytes x.2) (y.1.fieldBytes y.2) := by
  rw [List.pairwise_flatMap]
  constructor
  · intro a mem
    obtain ⟨templates, template, made⟩ := placed a mem
    rw [List.pairwise_map, made.state]
    refine (Record.pack_apart _).imp fun {s t} order => ?_
    change Disjoint (a.fieldBytes s) (a.fieldBytes t)
    exact Set.Ico_disjoint_Ico.2 (by omega)
  · refine apart.imp_of_mem fun {a b} first second regions x among y among' => ?_
    obtain ⟨s, inside, rfl⟩ := List.mem_map.1 among
    obtain ⟨t, inside', rfl⟩ := List.mem_map.1 among'
    obtain ⟨_, _, made⟩ := placed a first
    obtain ⟨_, _, made'⟩ := placed b second
    exact regions.mono (fieldBytes_subset made inside) (fieldBytes_subset made' inside')

section

variable (analyzed : analyze program settings = .ok layout)
include analyzed

lemma analyze_placed : ∀ a ∈ layout.agents, ∃ templates template,
    IsPlaced templates a template := by
  intro a mem
  obtain ⟨⟨template, made⟩, -⟩ := (analyze_isAccepted analyzed).agents.placed a mem
  exact ⟨_, template, made⟩

lemma separate_regions : layout.agents.Pairwise fun a b => a.base ≠ b.base ∧
    Disjoint a.region b.region := by
  refine (analyze_isAccepted analyzed).agents.apart.imp_of_mem fun {a b} first _ order => ?_
  obtain ⟨_, _, made⟩ := analyze_placed analyzed a first
  have size : 8 ≤ a.size := made.size ▸ le_max_right _ _
  exact ⟨by omega, Set.Ico_disjoint_Ico.2 (by omega)⟩

lemma disjoint_fields : layout.locations.Pairwise fun x y => Disjoint (x.1.fieldBytes x.2)
    (y.1.fieldBytes y.2) :=
  disjoint_locations (analyze_placed analyzed) ((separate_regions analyzed).imp And.right)

end

/-- No two declared places of an accepted program overlap. -/
theorem analyze_isSeparated (analyzed : analyze program settings = .ok layout) :
    layout.IsSeparated program settings := by
  have accepted := analyze_isAccepted analyzed
  have aligned := accepted.agents.aligned
  have placed := analyze_placed analyzed
  refine ⟨?_, ?_, fun a mem => ⟨aligned a mem, fun slot among => ?_⟩, fun a mem => ⟨?_, ?_⟩,
    analyze_stateSize_le analyzed, separate_regions analyzed, disjoint_fields analyzed⟩
  · exact (analyze_isDeclared analyzed).forall₂_schemas.imp fun schema s same =>
      ⟨same.1, same.2 ▸ Record.pack_isTight _⟩
  · exact (forall₂_agents analyzed).imp fun declared a same => by
      obtain ⟨name, template, found, made⟩ := same
      exact ⟨name, template, found, made.state ▸ Record.pack_isTight _⟩
  · obtain ⟨_, _, made⟩ := placed a mem
    rw [made.state] at among
    have inner : slot.type.align ∣ slot.offset := (Record.pack_isTight _).dvd_offset among
    exact Nat.dvd_add (Nat.dvd_trans slot.type.align_dvd_sixteen (aligned a mem)) inner
  · intro x inside
    exact Nat.lt_of_lt_of_le inside.2 (accepted.agents.placed a mem).2
  · intro slot among
    obtain ⟨_, _, made⟩ := placed a mem
    exact fieldBytes_subset made among

/-- Fields of all widths in two agents of one template, with an agent without state between them. -/
def mixedProgram : Program where
  schemas := [⟨"Tick", [⟨"last", .bool⟩, ⟨"time", .i64⟩, ⟨"step", .i32⟩]⟩]
  templates := [⟨"Meter", [⟨"on", .bool, none⟩, ⟨"count", .i32, none⟩, ⟨"off", .bool, none⟩,
      ⟨"sum", .i64, none⟩, ⟨"unit", .str, none⟩, ⟨"done", .bool, none⟩], [⟨"Tick", []⟩], []⟩,
      ⟨"Idle", [], [⟨"Tick", []⟩], []⟩]
  instances := [⟨"first", "Meter"⟩, ⟨"idle", "Idle"⟩, ⟨"second", "Meter"⟩]
  routes := [⟨.external, "Tick", ["first", "idle", "second"]⟩]
  seed := ⟨"Tick", []⟩

theorem analyze_isSeparated_mixedProgram : ∃ layout, analyze mixedProgram {} = .ok layout ∧
    layout.agents.map (fun a => (a.base, a.size, a.state.slots.map (·.offset))) =
      [(0, 40, [0, 4, 8, 16, 24, 32]), (48, 8, []), (64, 40, [0, 4, 8, 16, 24, 32])] ∧
    layout.IsSeparated mixedProgram {} := by
  have facts : (analyze mixedProgram {}).toOption.any (fun layout => layout.agents.map
      (fun a => (a.base, a.size, a.state.slots.map (·.offset))) =
      [(0, 40, [0, 4, 8, 16, 24, 32]), (48, 8, []), (64, 40, [0, 4, 8, 16, 24, 32])]) = true := by
    decide +kernel
  cases analyzed : analyze mixedProgram {} with
  | error fault => simp [analyzed, Except.toOption] at facts
  | ok layout => exact ⟨layout, rfl, by simpa [analyzed, Except.toOption] using facts,
      analyze_isSeparated analyzed⟩

end Layout

end AgentCompiler
