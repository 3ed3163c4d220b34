import AgentCompiler.Proofs.RoutineFrames
import AgentCompiler.Proofs.Territory
import AgentCompiler.Proofs.WordOperators

/-!
Records and variables in memory. A record holds the bytes of each of its fields at the offset of the
field, a frame holds the word of each variable in its slot. Reading an operand gives the value that
is held there, and storing to one field or slot changes that value and no other.
-/

namespace AgentCompiler

open Stored
open BitVec (ofNat)

variable {d : Datum} {type : ValueType}

lemma Stored.bits_lt (v : Stored) : v.bits < Nat.pow 256 v.type.size := by
  cases v with
  | bool value => cases value <;> decide
  | i32 value => exact value.toBitVec.isLt
  | i64 value => exact value.toBitVec.isLt
  | str address => exact address.toNat_lt

def Slot.address (slot : Slot) (base : Word) : Word := base + ofNat 64 slot.offset

def Slot.cells (slot : Slot) (base : Word) : Set Word := AgentCompiler.cells (slot.address base)
    slot.type.size

namespace Record

def cells (r : Record) (base : Word) : Set Word := {a | ∃ slot ∈ r.slots, a ∈ slot.cells base}

def IsInReach (r : Record) : Prop := ∀ slot ∈ r.slots, slot.offset < 0x80000000

/-- The fields of a record are in reach, have different names and share no byte. -/
structure IsSound (r : Record) : Prop where
  near : r.IsInReach
  names : (r.slots.map (·.name)).Nodup
  apart : r.slots.Pairwise fun a b => a.offset + a.type.size ≤ b.offset

variable {r : Record} {a b slot : Slot} {base : Word}

lemma cells_subset (mem : slot ∈ r.slots) : slot.cells base ⊆ r.cells base :=
  fun _ inside => ⟨slot, mem, inside⟩

lemma IsSound.disjoint (sound : r.IsSound) (base : Word) (first : a ∈ r.slots)
    (second : b ∈ r.slots) (other : a ≠ b) : Disjoint (a.cells base) (b.cells base) := by
  have pairwise : r.slots.Pairwise fun a b => Disjoint (a.cells base) (b.cells base) := by
    refine sound.apart.imp_of_mem fun {a b} _ second order => ?_
    have near := sound.near b second
    have small : b.type.size ≤ 8 := by cases b.type <;> decide
    exact disjoint_cells order (by simp only [UInt64.size]; omega)
  have symmetric : Std.Symm fun a b : Slot => Disjoint (a.cells base) (b.cells base) :=
    ⟨fun _ _ apart => apart.symm⟩
  exact pairwise.forall first second other

end Record

lemma Process.address_field {P : Process} {r : Record} {slot : Slot} (near : r.IsInReach)
    (mem : slot ∈ r.slots) (s : Machine) (base : Register) :
    P.address s (.near base (Int32.ofNat slot.offset)) = slot.address (s.regs base) := by
  have distance := Int32.toInt_ofNat_of_lt (near slot mem)
  rw [Process.address_near, distance, BitVec.ofInt_natCast, Slot.address]

namespace Memory

variable {m n : Memory} {base : Word} {r : Record} {fields : Fields} {slot : Slot} {name : String}

def HoldsRecord (m : Memory) (base : Word) (r : Record) (fields : Fields) : Prop :=
  ∀ slot ∈ r.slots, ∃ v, fields slot.name = some v ∧ v.type = slot.type ∧
    m.bytes (slot.address base) slot.type.size = v.bytes

lemma HoldsRecord.congr (holds : m.HoldsRecord base r fields)
    (same : Set.EqOn n m (r.cells base)) : n.HoldsRecord base r fields := by
  intro slot mem
  obtain ⟨v, known, type, bytes⟩ := holds slot mem
  exact ⟨v, known, type, (bytes_congr (same.mono (r.cells_subset mem))).trans bytes⟩

lemma HoldsRecord.get (holds : m.HoldsRecord base r fields) (found : r.slot? name = some slot) :
    slot ∈ r.slots ∧ ∃ v, fields name = some v ∧ v.type = slot.type ∧
      m.bytes (slot.address base) slot.type.size = v.bytes := by
  have mem := List.mem_of_find?_eq_some found
  have named : slot.name = name := by simpa using List.find?_some found
  exact ⟨mem, named ▸ holds slot mem⟩

lemma bytes_store_field {v : Stored} (a : Word) (keeps : ofDatum? type d = some v) :
    (m.store a type.width d.word).bytes a type.size = v.bytes := by
  have stored := bytes_store_self m a type.width d.word
  rw [type.bytes_width] at stored
  rw [stored]
  cases type <;> cases d <;> simp only [ofDatum?, Option.some.injEq, reduceCtorEq] at keeps <;>
    subst keeps
  case bool.bool value => cases value <;> rfl
  case i32.int value =>
    have low : value.toInt32.toBitVec.toNat = value.toBitVec.toNat % Nat.pow 256 4 := by
      rw [Int64.toBitVec_toInt32, BitVec.signExtend_eq_setWidth_of_le _ (by decide),
        BitVec.toNat_setWidth]
    rw [Stored.bytes, bits, low]
    exact (littleEndian_mod 4 _).symm
  case i64.int value => rfl
  case str.str address => rfl

lemma HoldsRecord.store (holds : m.HoldsRecord base r fields) (sound : r.IsSound)
    (found : r.slot? name = some slot) {v : Stored} (keeps : ofDatum? slot.type d = some v) :
    (m.store (slot.address base) slot.type.width d.word).HoldsRecord base r
        (Function.update fields name (some v)) := by
  obtain ⟨mem, -⟩ := holds.get found
  have named : slot.name = name := by simpa using List.find?_some found
  intro other inside
  by_cases same : other = slot
  · subst same
    refine ⟨v, by rw [named, Function.update_self], type_of_ofDatum? keeps, ?_⟩
    exact bytes_store_field _ keeps
  · obtain ⟨w, known, type, bytes⟩ := holds other inside
    have renamed : other.name ≠ name := fun equal =>
      same (List.inj_on_of_nodup_map sound.names inside mem (equal.trans named.symm))
    refine ⟨w, by rw [Function.update_of_ne renamed, known], type, ?_⟩
    have apart := sound.disjoint base mem inside (Ne.symm same)
    rw [Slot.cells, ← slot.type.bytes_width] at apart
    rw [bytes_store_of_disjoint apart, bytes]

end Memory

section

variable {m n : Memory} {frame : Word} {names : List (String × Variable)}
  {locals : List (String × Datum)} {name : String} {x y : Variable} {slots : Nat}

def Variable.place (x : Variable) (frame : Word) : Word := frame - ofNat 64 (8 * (x.slot + 1))

def slotCells (frame : Word) (slots : Nat) : Set Word := cells (frame - ofNat 64 (8 * slots))
    (8 * slots)

lemma Variable.cells_subset (inside : x.slot < slots) (few : slots ≤ 0x10000000) :
    cells (x.place frame) Width.qword.bytes ⊆ slotCells frame slots :=
  cells_below_subset (by omega) (by simp only [Width.bytes]; omega)
    (by simp only [UInt64.size]; omega)

lemma Variable.disjoint (other : x.slot ≠ y.slot) (first : x.slot < 0x10000000)
    (second : y.slot < 0x10000000) :
    Disjoint (cells (x.place frame) Width.qword.bytes)
        (cells (y.place frame) Width.qword.bytes) := by
  rcases Nat.lt_or_gt_of_ne other with below | above
  · exact (disjoint_cells_below (by simp only [Width.bytes]; omega)
      (by simp only [Width.bytes, UInt64.size]; omega)).symm
  · exact disjoint_cells_below (by simp only [Width.bytes]; omega)
      (by simp only [Width.bytes, UInt64.size]; omega)

structure Memory.HoldsVariable (m : Memory) (frame : Word) (declared : String × Variable)
    (value : String × Datum) : Prop where
  name : declared.1 = value.1
  kind : declared.2.kind = value.2.kind
  word : m.load (declared.2.place frame) .qword = value.2.word

def Memory.HoldsLocals (m : Memory) (frame : Word) (names : List (String × Variable))
    (locals : List (String × Datum)) : Prop := List.Forall₂ (m.HoldsVariable frame) names locals

namespace Memory.HoldsLocals

section

variable (holds : m.HoldsLocals frame names locals)
include holds

lemma congr (lt : ∀ pair ∈ names, pair.2.slot < slots) (few : slots ≤ 0x10000000)
    (same : Set.EqOn n m (slotCells frame slots)) : n.HoldsLocals frame names locals := by
  induction holds with
  | nil => exact .nil
  | cons first rest ih =>
    rw [List.forall_mem_cons] at lt
    refine .cons ⟨first.name, first.kind, ?_⟩ (ih lt.2)
    exact (load_congr (same.mono (Variable.cells_subset lt.1 few))).trans first.word

lemma lookup (found : names.lookup name = some x) (known : locals.lookup name = some d) :
    x.kind = d.kind ∧ m.load (x.place frame) .qword = d.word := by
  induction holds with
  | nil => simp at found
  | @cons declared value names locals first rest ih =>
    rw [List.lookup_cons] at found known
    rw [← first.name] at known
    by_cases same : name == declared.1
    · simp only [same, Option.some.injEq] at found known
      rw [← found, ← known]
      exact ⟨first.kind, first.word⟩
    · simp only [same] at found known
      exact ih found known

section

variable (few : ∀ pair ∈ names, pair.2.slot < 0x10000000)
include few

lemma store_other {w : Word} (small : x.slot < 0x10000000)
    (other : ∀ pair ∈ names, pair.2.slot ≠ x.slot) :
    (m.store (x.place frame) .qword w).HoldsLocals frame names locals := by
  induction holds with
  | nil => exact .nil
  | cons first rest ih =>
    rw [List.forall_mem_cons] at few other
    refine .cons ⟨first.name, first.kind, ?_⟩ (ih few.2 other.2)
    rw [load_store_of_disjoint (Variable.disjoint (Ne.symm other.1) small few.1), first.word]

lemma store {locals' : List (String × Datum)}
    (nodup : (names.map (·.2.slot)).Nodup) (found : names.lookup name = some x)
    (kind : x.kind = d.kind) (replaced : Store.replace name d locals = some locals') :
    (m.store (x.place frame) .qword d.word).HoldsLocals frame names locals' := by
  induction holds generalizing locals' with
  | nil => simp at found
  | @cons declared value names locals first rest ih =>
    rw [List.forall_mem_cons] at few
    rw [List.map_cons, List.nodup_cons, List.mem_map, not_exists] at nodup
    rw [List.lookup_cons] at found
    rw [Store.replace, ← first.name] at replaced
    by_cases same : name == declared.1
    · simp only [same, if_true, Option.some.injEq] at found replaced
      subst found replaced
      refine .cons ⟨rfl, kind, load_store_qword ..⟩ (store_other rest few.2 few.1 ?_)
      exact fun pair mem taken => nodup.1 pair ⟨mem, taken⟩
    · simp only [same, Bool.false_eq_true, if_false, Option.map_eq_some_iff] at found replaced
      obtain ⟨others, replaced, rfl⟩ := replaced
      refine .cons ⟨first.name, first.kind, ?_⟩ (ih few.2 nodup.2 found replaced)
      have mem : (name, x) ∈ names := by
        obtain ⟨before, after, split, -⟩ := List.lookup_eq_some_iff.1 found
        rw [split]
        simp
      have other := fun taken => nodup.1 (name, x) ⟨mem, taken⟩
      rw [load_store_of_disjoint (Variable.disjoint other (few.2 _ mem) few.1), first.word]

end

lemma drop {older : List (String × Variable)} (suffix : older <:+ names) :
    m.HoldsLocals frame older (locals.drop (locals.length - older.length)) := by
  obtain ⟨newer, rfl⟩ := suffix
  have length := holds.length_eq
  rw [List.length_append] at length
  rw [← length, Nat.add_sub_cancel]
  have older := List.forall₂_drop newer.length holds
  rwa [List.drop_left] at older

end

end Memory.HoldsLocals

end

namespace Process

variable {P : Process} {s : Machine} {reg : Register} {src dst : Address} {a : Word} {v : Stored}

lemma effect_loadValue (mapped : ∀ x ∈ cells a v.type.size, P.mapped x)
    (place : P.address s src = a) (bytes : s.memory.bytes a v.type.size = v.bytes)
    (reg : Register) :
    P.effect (loadValue v.type reg src) s = some (s.set reg v.read.word) := by
  have content : s.memory.load a v.type.width = ofNat 64 v.bits := by
    rw [Memory.load, v.type.bytes_width, bytes, Stored.bytes, ofLittleEndian_littleEndian,
      Nat.mod_eq_of_lt v.bits_lt]
  rw [← v.type.bytes_width] at mapped
  have reads : P.value s v.type.width (.mem src) = some (ofNat 64 v.bits) := by
    rw [value_mem, place, read_of_mapped mapped, content]
  cases v with
  | bool value =>
    change (P.value s (Stored.bool value).type.width (.mem src)).map _ = _
    rw [reads]
    cases value <;> rfl
  | i32 value =>
    change (P.value s (Stored.i32 value).type.width (.mem src)).map _ = _
    rw [reads, Option.map_some, Stored.bits, BitVec.ofNat_toNat,
      BitVec.setWidth_setWidth_of_le _ (by decide), BitVec.setWidth_eq]
    exact congrArg (fun w => some (s.set reg w)) (Int32.toBitVec_toInt64 value).symm
  | i64 value =>
    change (P.value s (Stored.i64 value).type.width (.mem src)).bind _ = _
    rw [reads, Stored.bits, BitVec.ofNat_toNat, BitVec.setWidth_eq]
    rfl
  | str address =>
    change (P.value s (Stored.str address).type.width (.mem src)).bind _ = _
    rw [reads, Stored.bits, ← UInt64.toNat_toBitVec, BitVec.ofNat_toNat, BitVec.setWidth_eq]
    rfl

lemma effect_storeValue (mapped : ∀ x ∈ cells a type.size, P.mapped x)
    (place : P.address s dst = a) (reg : Register) : P.effect (storeValue type dst reg) s =
      some { s with memory := s.memory.store a type.width (s.regs reg) } := by
  rw [← type.bytes_width] at mapped
  rw [storeValue, effect]
  change P.write s (P.address s dst) type.width (s.regs reg) = _
  rw [place, write_of_mapped mapped]

end Process

end AgentCompiler
