import AgentCompiler.Lowering.Plan
import AgentCompiler.Proofs.PackedRecords

/-!
The bytes of the state arena. It holds the initial number of every field at the place of the field,
room for an address at the place of every string, and zeros between them.
-/

namespace AgentCompiler

open Layout Option

namespace StateField

def initialNumber (f : StateField) : Int :=
  match f.init with
  | some (.int value) => value.toInt
  | some (.bool true) => 1
  | _ => 0

def initialText (f : StateField) : String :=
  match f.init with
  | some (.str text) => text
  | _ => ""

end StateField

namespace Plan

namespace InitialValue

def start : InitialValue → Nat
  | bytes offset _ | text offset _ => offset

def size : InitialValue → Nat
  | bytes _ content => content.length
  | text _ _ => ValueType.size .str

def span (v : InitialValue) : Set Nat := Set.Ico v.start (v.start + v.size)

def store (arena : Bytes) : InitialValue → Bytes
  | bytes offset content => overwrite arena offset content
  | text _ _ => arena

def IsInside (bound : Nat) (v : InitialValue) : Prop := v.start + v.size ≤ bound

variable {v : InitialValue} {values : List InitialValue} {arena content : Bytes} {offset x : Nat}

lemma length_store (inside : v.IsInside arena.length) : (store arena v).length = arena.length := by
  cases v with
  | bytes offset content => exact length_overwrite inside
  | text offset content => rfl

lemma getElem?_store (inside : v.IsInside arena.length) (outside : x ∉ v.span) :
    (store arena v)[x]? = arena[x]? := by
  cases v with
  | bytes offset content =>
    refine getElem?_overwrite_outside inside ?_
    simp only [span, start, size, Set.mem_Ico, not_and, not_lt] at outside
    omega
  | text offset content => rfl

section

variable (inside : ∀ v ∈ values, v.IsInside arena.length)
include inside

lemma length_foldl_store : (values.foldl store arena).length = arena.length := by
  induction values generalizing arena with
  | nil => rfl
  | cons v rest ih =>
    rw [List.forall_mem_cons] at inside
    have length := length_store inside.1
    rw [List.foldl_cons, ih (length ▸ inside.2), length]

lemma getElem?_foldl_store (outside : ∀ v ∈ values, x ∉ v.span) : (values.foldl store arena)[x]? =
    arena[x]? := by
  induction values generalizing arena with
  | nil => rfl
  | cons v rest ih =>
    rw [List.forall_mem_cons] at inside outside
    have length := length_store inside.1
    rw [List.foldl_cons, ih (length ▸ inside.2) outside.2, getElem?_store inside.1 outside.1]

lemma slice_foldl_store
    (apart : values.Pairwise fun v w => Disjoint v.span w.span)
    (mem : bytes offset content ∈ values) :
    slice (values.foldl store arena) offset (offset + content.length) = content := by
  induction values generalizing arena with
  | nil => simp at mem
  | cons v rest ih =>
    rw [List.forall_mem_cons] at inside
    rw [List.pairwise_cons] at apart
    have length := length_store inside.1
    rw [List.foldl_cons]
    rcases List.mem_cons.1 mem with rfl | later
    · have kept : slice (rest.foldl store (store arena (bytes offset content))) offset
          (offset + content.length) = slice (store arena (bytes offset content)) offset
          (offset + content.length) := by
        apply slice_congr
        intro x low high
        refine getElem?_foldl_store (length ▸ inside.2) fun w among => ?_
        exact Set.disjoint_left.1 (apart.1 w among) ⟨low, high⟩
      rw [kept]
      exact slice_overwrite inside.1
    · exact ih (length ▸ inside.2) apart.2 later

end

end InitialValue

lemma initialArena_eq (size : Nat) (values : List InitialValue) : initialArena size values =
    values.foldl InitialValue.store (List.replicate (if size = 0 then 8 else size) 0) := rfl

section

variable {program : Program} {layout : Layout} {settings : Settings} {a b : AgentLayout}
  {f g : StateField} {slot other : Slot} {x : Nat} {v : InitialValue}

structure IsField (program : Program) (layout : Layout) (a : AgentLayout) (f : StateField)
    (slot : Slot) :
    Prop where
  agent : a ∈ layout.agents
  declared : ∃ t, program.template? a.template = some t ∧ f ∈ t.state
  place : a.state.slot? f.name = some slot

/-- What is stored for a field: its address for a string, and its number for everything else that is
given. -/
lemma initialValue?_eq (place : a.state.slot? f.name = some slot) : initialValue? a f =
    if f.type = .str then some (.text (a.base + slot.offset) f.initialText) else if f.init =
      none then none
    else some (.bytes (a.base + slot.offset) (littleEndianInt f.type.size f.initialNumber)) := by
  obtain ⟨name, type, init⟩ := f
  simp only [initialValue?, place]
  cases type <;> rcases init with _ | (_ | _) | _ | _ <;> rfl

section

variable (accepted : IsAccepted program layout) (field : IsField program layout a f slot)
include accepted field

lemma IsField.placed : ∃ t, IsPlaced program.templates a t ∧ f ∈ t.state := by
  obtain ⟨t, found, mem⟩ := field.declared
  obtain ⟨⟨t', made⟩, -⟩ := accepted.agents.placed a field.agent
  obtain rfl := some.inj (made.found.symm.trans found)
  exact ⟨t', made, mem⟩

lemma IsField.type_eq : slot.type = f.type := by
  obtain ⟨t, made, mem⟩ := field.placed accepted
  have nodup : ((t.state.map (·.decl)).map (·.name)).Nodup := by
    rw [List.map_map]
    exact made.nodup
  have place := field.place
  rw [made.state] at place
  exact Record.type_of_slot? nodup (List.mem_map_of_mem mem) place

lemma IsField.bounds : a.base + slot.offset + slot.type.size ≤ layout.stateSize := by
  obtain ⟨t, made, -⟩ := field.placed accepted
  have mem := List.mem_of_find?_eq_some field.place
  have state : slot.offset + slot.type.size ≤ a.state.size := by
    rw [made.state] at mem ⊢
    exact Record.pack_bounds mem
  have size := made.size
  have region := (accepted.agents.placed a field.agent).2
  omega

lemma IsField.extent (value : initialValue? a f = some v) :
    v.start = a.base + slot.offset ∧ v.size = slot.type.size := by
  rw [initialValue?_eq field.place] at value
  rw [field.type_eq accepted]
  split at value
  next str =>
    obtain rfl := some.inj value
    exact ⟨rfl, congrArg ValueType.size str.symm⟩
  next =>
    split at value
    next => simp at value
    next =>
      obtain rfl := some.inj value
      exact ⟨rfl, length_littleEndianInt _ _⟩

lemma IsField.span_eq (value : initialValue? a f = some v) : v.span = a.fieldBytes slot := by
  obtain ⟨start, size⟩ := field.extent accepted value
  rw [InitialValue.span, start, size]
  rfl

end

lemma IsField.unique (analyzed : analyze program settings = .ok layout)
    (first : IsField program layout a f slot) (second : IsField program layout b g other)
    (inside : x ∈ a.fieldBytes slot) (inside' : x ∈ b.fieldBytes other) : a = b ∧ f = g := by
  have accepted := analyze_isAccepted analyzed
  have apart := disjoint_fields analyzed
  have symmetric : Std.Symm fun y z : AgentLayout × Slot =>
      Disjoint (y.1.fieldBytes y.2) (z.1.fieldBytes z.2) := ⟨fun _ _ apart => apart.symm⟩
  have listed {a f slot} (field : IsField program layout a f slot) : (a, slot) ∈ layout.locations :=
    List.mem_flatMap.2 ⟨a, field.agent, List.mem_map_of_mem (List.mem_of_find?_eq_some field.place)⟩
  have same : (a, slot) = (b, other) := by
    by_contra differ
    exact Set.disjoint_left.1 (apart.forall (listed first) (listed second) differ) inside inside'
  obtain ⟨rfl, rfl⟩ := Prod.mk.inj same
  obtain ⟨t, made, mem⟩ := first.placed accepted
  obtain ⟨t', made', member'⟩ := second.placed accepted
  obtain rfl : t = t' := some.inj (made.found.symm.trans made'.found)
  have named : f.name = g.name := by
    have one : slot.name = f.name := by simpa using List.find?_some first.place
    have two : slot.name = g.name := by simpa using List.find?_some second.place
    exact one.symm.trans two
  exact ⟨rfl, List.inj_on_of_nodup_map made.nodup mem member' named⟩

def agentValues (program : Program) (a : AgentLayout) : List InitialValue :=
  ((program.template? a.template).map fun t => t.state.filterMap (initialValue? a)).getD []

lemma initialValues_eq (program : Program) (layout : Layout) :
    initialValues program layout = layout.agents.flatMap (agentValues program) := by
  unfold initialValues
  congr 1
  funext a
  rw [agentValues]
  cases program.template? a.template <;> rfl

lemma IsField.of_value {t : Template} (agent : a ∈ layout.agents)
    (found : program.template? a.template = some t) (mem : f ∈ t.state)
    (value : initialValue? a f = some v) : ∃ slot, IsField program layout a f slot := by
  cases place : a.state.slot? f.name with
  | none => simp [initialValue?, place] at value
  | some slot => exact ⟨slot, agent, ⟨t, found, mem⟩, place⟩

lemma mem_agentValues (agent : a ∈ layout.agents) : v ∈ agentValues program a ↔
    ∃ f slot, IsField program layout a f slot ∧ initialValue? a f = some v := by
  rw [agentValues]
  constructor
  · intro mem
    cases found : program.template? a.template with
    | none => simp [found] at mem
    | some t =>
      simp only [found, map_some, getD_some, List.mem_filterMap] at mem
      obtain ⟨f, declared, value⟩ := mem
      obtain ⟨slot, field⟩ := IsField.of_value agent found declared value
      exact ⟨f, slot, field, value⟩
  · rintro ⟨f, slot, ⟨-, ⟨t, found, field⟩, -⟩, value⟩
    rw [found]
    exact List.mem_filterMap.2 ⟨f, field, value⟩

lemma mem_initialValues : v ∈ initialValues program layout ↔
    ∃ a f slot, IsField program layout a f slot ∧ initialValue? a f = some v := by
  rw [initialValues_eq, List.mem_flatMap]
  constructor
  · rintro ⟨a, agent, mem⟩
    exact ⟨a, (mem_agentValues agent).1 mem⟩
  · rintro ⟨a, f, slot, field, value⟩
    exact ⟨a, field.agent, (mem_agentValues field.agent).2 ⟨f, slot, field, value⟩⟩

lemma field_of_text {offset : Nat} {content : String}
    (mem : .text offset content ∈ initialValues program layout) :
    ∃ a f slot, IsField program layout a f slot ∧ f.type = .str ∧ offset = a.base + slot.offset ∧
      content = f.initialText := by
  obtain ⟨a, f, slot, field, value⟩ := mem_initialValues.1 mem
  rw [initialValue?_eq field.place] at value
  split at value
  next text =>
    obtain ⟨rfl, rfl⟩ := InitialValue.text.inj (some.inj value)
    exact ⟨a, f, slot, field, text, rfl, rfl⟩
  next => split at value <;> simp at value

lemma initialValues_apart (analyzed : analyze program settings = .ok layout) :
    (initialValues program layout).Pairwise fun v w => Disjoint v.span w.span := by
  have accepted := analyze_isAccepted analyzed
  have only {a b f g slot other v w} (first : IsField program layout a f slot)
      (second : IsField program layout b g other) (value : initialValue? a f = some v)
      (value' : initialValue? b g = some w) (differ : ¬ (a = b ∧ f = g)) :
      Disjoint v.span w.span := by
    rw [first.span_eq accepted value, second.span_eq accepted value', Set.disjoint_left]
    exact fun x inside inside' => differ (first.unique analyzed second inside inside')
  rw [initialValues_eq, List.pairwise_flatMap]
  constructor
  · intro a agent
    obtain ⟨⟨t, made⟩, -⟩ := accepted.agents.placed a agent
    have found : program.template? a.template = some t := made.found
    rw [agentValues, found, map_some, getD_some, List.pairwise_filterMap]
    refine (List.pairwise_map.1 made.nodup).imp_of_mem fun {f g} mem member' named v value w
      value' => ?_
    obtain ⟨slot, field⟩ := IsField.of_value agent found mem value
    obtain ⟨other, field'⟩ := IsField.of_value agent found member' value'
    exact only field field' value value' fun same => named (congrArg StateField.name same.2)
  · refine (List.pairwise_map.1 accepted.agents.nodup).imp_of_mem fun {a b} agent agent' named v mem
      w member' => ?_
    obtain ⟨f, slot, field, value⟩ := (mem_agentValues agent).1 mem
    obtain ⟨g, other, field', value'⟩ := (mem_agentValues agent').1 member'
    exact only field field' value value' fun same => named (congrArg AgentLayout.name same.1)

section

variable (accepted : IsAccepted program layout)
include accepted

lemma initialValues_inside : ∀ v ∈ initialValues program layout, v.IsInside layout.stateSize := by
  intro v mem
  obtain ⟨a, f, slot, field, value⟩ := mem_initialValues.1 mem
  obtain ⟨start, size⟩ := field.extent accepted value
  rw [InitialValue.IsInside, start, size]
  exact field.bounds accepted

lemma initialValues_fit : ∀ v ∈ initialValues program layout, v.IsInside (List.replicate
    (if layout.stateSize = 0 then 8 else layout.stateSize) (0 : UInt8)).length := by
  intro v mem
  refine (initialValues_inside accepted v mem).trans ?_
  rw [List.length_replicate]
  split <;> omega

lemma stateSize_le_length :
    layout.stateSize ≤ (initialArena layout.stateSize (initialValues program layout)).length := by
  rw [initialArena_eq, InitialValue.length_foldl_store (initialValues_fit accepted),
    List.length_replicate]
  split <;> omega

lemma getElem?_initialArena (inside : x < layout.stateSize)
    (free : ∀ v ∈ initialValues program layout, x ∉ v.span) :
    (initialArena layout.stateSize (initialValues program layout))[x]? = some 0 := by
  rw [initialArena_eq, InitialValue.getElem?_foldl_store (initialValues_fit accepted) free]
  apply List.getElem?_replicate_of_lt
  split <;> omega

end

lemma slice_initialArena (analyzed : analyze program settings = .ok layout)
    (field : IsField program layout a f slot) (number : f.type ≠ .str) :
    slice (initialArena layout.stateSize (initialValues program layout)) (a.base + slot.offset)
      (a.base + slot.offset + slot.type.size) = littleEndianInt f.type.size f.initialNumber := by
  have accepted := analyze_isAccepted analyzed
  have type := field.type_eq accepted
  by_cases absent : f.init = none
  · have zeros : littleEndianInt f.type.size f.initialNumber = List.replicate f.type.size 0 := by
      rw [StateField.initialNumber, absent]
      cases f.type <;> rfl
    have none : initialValue? a f = none := by
      rw [initialValue?_eq field.place, if_neg number, if_pos absent]
    rw [zeros]
    apply List.ext_getElem?
    intro j
    rw [getElem?_slice, List.getElem?_replicate, type, Nat.add_sub_cancel_left]
    split
    next inside =>
      have bounds := field.bounds accepted
      rw [type] at bounds
      refine getElem?_initialArena accepted (by omega) fun v mem spanned => ?_
      obtain ⟨b, g, other, field', value⟩ := mem_initialValues.1 mem
      rw [field'.span_eq accepted value] at spanned
      have own : a.base + slot.offset + j ∈ a.fieldBytes slot := by
        rw [AgentLayout.fieldBytes, type]
        exact ⟨by omega, by omega⟩
      obtain ⟨rfl, rfl⟩ := field.unique analyzed field' own spanned
      simp [none] at value
    next => rfl
  · have value : initialValue? a f = some (.bytes (a.base + slot.offset)
        (littleEndianInt f.type.size f.initialNumber)) := by
      rw [initialValue?_eq field.place, if_neg number, if_neg absent]
    have stored := InitialValue.slice_foldl_store (initialValues_fit accepted)
      (initialValues_apart analyzed) (mem_initialValues.2 ⟨a, f, slot, field, value⟩)
    rw [length_littleEndianInt] at stored
    rw [type, initialArena_eq]
    exact stored

end

end Plan

end AgentCompiler
