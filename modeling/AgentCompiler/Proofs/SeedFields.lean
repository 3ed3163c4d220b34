import AgentCompiler.Proofs.DataInMemory
import AgentCompiler.Proofs.InitialArena
import AgentCompiler.Proofs.QueueRing
import AgentCompiler.Proofs.WellFormedPrograms

/-!
The fields of the seed. The code for a field stores what the program declares for it: the bytes of a
number, or the address of a text that stands in the read-only section. A number that is not given is
left as it is in the new block, which is zero; a text that is not given is empty.
-/

namespace AgentCompiler

open List Record Memory

open Register (rax r14)

structure Seed.Suits (seed : Seed) (r : Record) : Prop where
  inside : ∀ slot ∈ r.slots, slot.offset + slot.type.size ≤ r.size
  apart : r.slots.Pairwise fun a b => a.offset + a.type.size ≤ b.offset
  given : ∀ slot ∈ r.slots, ∀ value, seed.fields.lookup slot.name = some value →
    value.Fits slot.type

lemma Layout.seed_suits {program : Program} {settings : Settings} {layout : Layout}
    {schema : SchemaLayout} (analyzed : analyze program settings = .ok layout)
    (found : layout.schema? program.seed.schema = some schema) :
    program.seed.Suits schema.payload := by
  have wellFormed := isWellFormed_of_analyze analyzed
  have inside := mem_of_find?_eq_some found
  have named : schema.name = program.seed.schema := by simpa using find?_some found
  have pair : (schema.name, schema.payload) ∈ program.schemas.map fun s =>
      (s.name, pack s.fields) := by
    rw [← (analyze_isDeclared analyzed).schemas]
    exact mem_map_of_mem (f := fun s : SchemaLayout => (s.name, s.payload)) inside
  obtain ⟨source, listed, same⟩ := mem_map.1 pair
  obtain ⟨sameName, payload⟩ := Prod.mk.inj same
  rw [← payload]
  refine ⟨fun slot mem => pack_bounds mem, pack_apart _, fun slot mem value given => ?_⟩
  obtain ⟨other, listed', named', all⟩ := wellFormed.seed
  obtain rfl :=
    inj_on_of_nodup_map wellFormed.schemaNames listed' listed
      ((named'.trans named.symm).trans sameName.symm)
  obtain ⟨field, isField, sameField, fits⟩ := all _ (mem_of_lookup_eq_some given)
  have isDecl : slot.decl ∈ other.fields := by
    have slots : (pack other.fields).slots.map Slot.decl = other.fields := map_placeFields
    exact slots ▸ mem_map_of_mem mem
  obtain rfl := inj_on_of_nodup_map (wellFormed.schemas other listed).fields isDecl isField
    sameField.symm
  exact fits

def Seed.field (seed : Seed) (slot : Slot) : StateField :=
  ⟨slot.name, slot.type, seed.fields.lookup slot.name⟩

structure Process.HoldsField (P : Process) (symbols : SymbolTable) (rodata : DataSection)
    (m : Memory)
    (a : Word) (f : StateField) : Prop where
  number : f.type ≠ .str → m.bytes a f.type.size = littleEndianInt f.type.size f.initialNumber
  text : f.type = .str → ∃ id, HoldsConstant symbols rodata id (terminated f.initialText) ∧
    m.load a .qword = P.symbolAt id

def Process.HoldsSeed (P : Process) (symbols : SymbolTable) (rodata : DataSection) (seed : Seed)
    (r : Record) (base : Word) (m : Memory) : Prop :=
  ∀ slot ∈ r.slots, P.HoldsField symbols rodata m (slot.address base) (seed.field slot)

namespace Process.HoldsField

variable {P : Process} {symbols : SymbolTable} {rodata : DataSection} {m n : Memory} {a : Word}
  {f : StateField} {p q : Pool}

lemma congr (holds : P.HoldsField symbols rodata m a f)
    (same : Set.EqOn n m (cells a f.type.size)) :
    P.HoldsField symbols rodata n a f where
  number other := (bytes_congr same).trans (holds.number other)
  text isText := by
    obtain ⟨id, stands, word⟩ := holds.text isText
    rw [isText] at same
    exact ⟨id, stands, (load_congr same).trans word⟩

lemma grown (holds : P.HoldsField p.symbols p.rodata m a f) (extended : p.Extends q)
    (kind : p.rodata.kind = .rodata) : P.HoldsField q.symbols q.rodata m a f where
  number := holds.number
  text isText := by
    obtain ⟨id, stands, word⟩ := holds.text isText
    exact ⟨id, extended.holds kind stands, word⟩

end Process.HoldsField

lemma littleEndian_toBitVec (type : ValueType) (value : Int64) :
    littleEndian type.size value.toBitVec.toNat = littleEndianInt type.size value.toInt := by
  have word : value.toInt = if 2 * value.toBitVec.toNat < 2 ^ 64 then (value.toBitVec.toNat : Int)
      else value.toBitVec.toNat - (2 ^ 64 : Nat) := BitVec.toInt_eq_toNat_cond _
  rw [littleEndianInt, ← littleEndian_mod type.size value.toBitVec.toNat]
  congr 1
  have width : Nat.pow 256 type.size = 256 ∨ Nat.pow 256 type.size = 4294967296 ∨
      Nat.pow 256 type.size = 18446744073709551616 := by cases type <;> decide
  rcases width with width | width | width <;> rw [width, word] <;> split <;> omega

section

variable {P : Process} {size : Nat} {s : Machine} {code : Code} {p q : Pool} {slot : Slot}
  {seed : Seed} {due : List SymbolId} {slots : List Slot} {parts : List Code}

lemma Emit.seedField_ok (run : seedField seed.fields slot p = .ok (code, q))
    (given : ∀ value, seed.fields.lookup slot.name = some value → value.Fits slot.type) :
    (slot.type = .str ∧ ∃ id, p.internText (seed.field slot).initialText = .ok (id, q) ∧
      code = [.lea rax (.symbol id 0), .mov slot.type.width
      (Address.near r14 (Int32.ofNat slot.offset)) rax]) ∨
    slot.type ≠ .str ∧ p = q ∧ (code = [] ∧ (seed.field slot).initialNumber = 0 ∨
      ∃ value : Int64, value.toInt = (seed.field slot).initialNumber ∧
        code = storeConstant (Address.near r14 (Int32.ofNat slot.offset)) slot.type value) := by
  unfold seedField at run
  cases literal : seed.fields.lookup slot.name with
  | none =>
    have number : (seed.field slot).initialNumber = 0 := by
      simp [Seed.field, StateField.initialNumber, literal]
    have text : (seed.field slot).initialText = "" := by
      simp [Seed.field, StateField.initialText, literal]
    cases type : slot.type <;> simp only [literal, type] at run
    case str =>
      simp only [storeText, bind_ok, pure_ok] at run
      obtain ⟨id, _, interned, rfl, rfl⟩ := run
      exact .inl ⟨rfl, id, text ▸ interned, rfl⟩
    all_goals
      obtain ⟨rfl, rfl⟩ := pure_ok.1 run
      exact .inr ⟨by simp, rfl, .inl ⟨rfl, number⟩⟩
  | some value =>
    have fits := given value literal
    cases value <;> simp only [literal] at run
    case str content =>
      have text : (seed.field slot).initialText = content := by
        simp [Seed.field, StateField.initialText, literal]
      simp only [storeText, bind_ok, pure_ok] at run
      obtain ⟨id, _, interned, rfl, rfl⟩ := run
      exact .inl ⟨fits.1, id, text ▸ interned, by rw [fits.1]; rfl⟩
    case int number =>
      obtain ⟨rfl, rfl⟩ := pure_ok.1 run
      refine .inr ⟨?_, rfl, .inr ⟨number, ?_, rfl⟩⟩
      · rcases fits with type | ⟨type, -⟩ <;> simp [type]
      · simp [Seed.field, StateField.initialNumber, literal]
    case bool flag =>
      obtain ⟨rfl, rfl⟩ := pure_ok.1 run
      refine .inr ⟨?_, rfl, .inr ⟨_, ?_, rfl⟩⟩
      · have type : slot.type = .bool := fits
        simp [type]
      · cases flag <;> simp [Seed.field, StateField.initialNumber, literal]

lemma seedField_pool (run : Emit.seedField seed.fields slot p = .ok (code, q))
    (given : ∀ value, seed.fields.lookup slot.name = some value → value.Fits slot.type)
    (stores : p.Stores) (lacks : p.Lacks due) : p.Extends q ∧ q.Stores ∧ q.Lacks due := by
  obtain ⟨-, id, interned, -⟩ | ⟨-, rfl, -⟩ := Emit.seedField_ok run given
  · exact ⟨.interns (.text interned), (stores.interns lacks (.text interned)).1,
      lacks.interns (.text interned)⟩
  · exact ⟨.refl p, stores, lacks⟩

lemma store_executes (slot : Slot) {load : Instruction} {t : Machine}
    (loads : P.effect load s = some t) (memory : t.memory = s.memory)
    (changes : s.ChangesOnly [rax] t) (narrow : size ≤ maxInt32)
    (inside : slot.offset + slot.type.size ≤ size) (mapped : ∀ x ∈ cells (s.regs r14) size,
    P.mapped x) :
    ∃ u, P.execute [load, .mov slot.type.width (Address.near r14 (Int32.ofNat slot.offset)) rax]
      s = some u ∧ s.ChangesOnly [rax] u ∧ u.memory =
        s.memory.store (slot.address (s.regs r14)) slot.type.width (t.regs rax) := by
  have fits : size ≤ UInt64.size := by
    simp only [maxInt32, UInt64.size] at narrow ⊢
    omega
  have block := changes r14 (by decide)
  have address : P.address t (.near r14 (Int32.ofNat slot.offset)) = slot.address (s.regs r14) := by
    rw [P.address_near, block, ofInt_toInt_ofNat (by omega), Slot.address]
  have reached : ∀ x ∈ cells (P.address t (.near r14 (Int32.ofNat slot.offset)))
      slot.type.width.bytes, P.mapped x := by
    intro x touched
    rw [address, slot.type.bytes_width] at touched
    exact mapped x (cells_subset inside fits touched)
  obtain ⟨u, stores, regs, stored⟩ : ∃ u,
      P.effect (.mov slot.type.width (Address.near r14 (Int32.ofNat slot.offset)) rax) t = some u ∧
      u.regs = t.regs ∧ u.memory =
        t.memory.store (P.address t (.near r14 (Int32.ofNat slot.offset))) slot.type.width
        (t.regs rax) :=
    ⟨_, P.write_of_mapped reached t _, rfl, rfl⟩
  rw [address, memory] at stored
  refine ⟨u, ?_, fun r other => by rw [regs, changes r other], stored⟩
  rw [P.execute_cons, loads, Option.bind_some, P.execute_cons, stores, Option.bind_some,
    P.execute_nil]

lemma seedField_executes (run : Emit.seedField seed.fields slot p = .ok (code, q))
    (given : ∀ value, seed.fields.lookup slot.name = some value → value.Fits slot.type)
    (narrow : size ≤ maxInt32) (inside : slot.offset + slot.type.size ≤ size)
    (mapped : ∀ x ∈ cells (s.regs r14) size, P.mapped x)
    (zeros : ∀ x ∈ slot.cells (s.regs r14), s.memory x = 0) (stores : p.Stores)
    (lacks : p.Lacks due) :
    ∃ t, P.execute code s = some t ∧ s.ChangesOnly [rax] t ∧
      Set.EqOn t.memory s.memory (slot.cells (s.regs r14))ᶜ ∧
      P.HoldsField q.symbols q.rodata t.memory (slot.address (s.regs r14)) (seed.field slot) := by
  have away (m : Memory) (value : Word) :
    Set.EqOn (m.store (slot.address (s.regs r14)) slot.type.width value) m
        (slot.cells (s.regs r14))ᶜ := by
    rw [Slot.cells, ← slot.type.bytes_width]
    exact store_eqOn _ _ _ _
  have kind : (seed.field slot).type = slot.type := rfl
  obtain ⟨isText, id, interned, rfl⟩ | ⟨isNumber, rfl, ⟨rfl, zero⟩ | ⟨value, number, rfl⟩⟩ :=
    Emit.seedField_ok run given
  · obtain ⟨t, executes, changes, memory⟩ := store_executes slot (P.effect_lea rax (.symbol id 0) s)
      rfl (by simp +contextual [Machine.ChangesOnly]) narrow inside mapped
    refine ⟨t, executes, changes, memory ▸ away _ _, fun other => absurd isText other, fun _ => ?_⟩
    refine ⟨id, (stores.interns lacks (.text interned)).2, ?_⟩
    rw [memory, isText]
    simp [ValueType.width]
  · refine ⟨s, rfl, fun _ _ => rfl, fun _ _ => rfl, fun _ => ?_, fun isText =>
      absurd isText isNumber⟩
    have blank : Set.EqOn s.memory (fun _ => 0) (slot.cells (s.regs r14)) := zeros
    rw [zero, kind, bytes_congr blank]
    cases slot.type <;> rfl
  · obtain ⟨t, executes, changes, memory⟩ := store_executes slot (P.effect_move rax value s) rfl
      (by simp +contextual [Machine.ChangesOnly]) narrow inside mapped
    refine ⟨t, executes, changes, memory ▸ away _ _, fun _ => ?_, fun isText =>
      absurd isText isNumber⟩
    have stored := bytes_store_self s.memory (slot.address (s.regs r14)) slot.type.width
      value.toBitVec
    rw [slot.type.bytes_width, littleEndian_toBitVec, number] at stored
    rw [memory, kind]
    simpa using stored

section

variable (run : Emit.MapRun (Emit.seedField seed.fields) p slots parts q)
  (given : ∀ slot ∈ slots, ∀ value, seed.fields.lookup slot.name = some value →
  value.Fits slot.type)
include run given

lemma seedFields_pool (stores : p.Stores) (lacks : p.Lacks due) : p.Extends q := by
  induction run with
  | nil p => exact .refl p
  | cons first _ ih =>
    rw [forall_mem_cons] at given
    obtain ⟨extended, stores, lacks⟩ := seedField_pool first given.1 stores lacks
    exact extended.trans (ih given.2 stores lacks)

lemma seedFields_execute (narrow : size ≤ maxInt32)
    (inside : ∀ slot ∈ slots, slot.offset + slot.type.size ≤ size)
    (apart : slots.Pairwise fun a b => a.offset + a.type.size ≤ b.offset)
    (mapped : ∀ x ∈ cells (s.regs r14) size, P.mapped x)
    (zeros : ∀ slot ∈ slots, ∀ x ∈ slot.cells (s.regs r14), s.memory x = 0)
    (stores : p.Stores) (lacks : p.Lacks due) : ∃ t, P.execute parts.flatten s = some t ∧
      s.ChangesOnly [rax] t ∧ Set.EqOn t.memory s.memory
      {x | ∃ slot ∈ slots, x ∈ slot.cells (s.regs r14)}ᶜ ∧ ∀ slot ∈ slots,
      P.HoldsField q.symbols q.rodata t.memory (slot.address (s.regs r14)) (seed.field slot) := by
  induction run generalizing s with
  | nil => exact ⟨s, rfl, fun _ _ => rfl, fun _ _ => rfl, by simp⟩
  | @cons p p' q slot code slots parts first rest ih =>
    rw [forall_mem_cons] at given inside zeros
    rw [pairwise_cons] at apart
    obtain ⟨extended, stores', lacks'⟩ := seedField_pool first given.1 stores lacks
    obtain ⟨t, executes, changes, same, holds⟩ :=
      seedField_executes first given.1 narrow inside.1 mapped zeros.1 stores lacks
    have block := changes r14 (by decide)
    have disjoint : ∀ other ∈ slots, Disjoint (slot.cells (s.regs r14))
        (other.cells (s.regs r14)) := by
      intro other mem
      have last := inside.2 other mem
      exact disjoint_cells (apart.1 other mem)
        (by simp only [maxInt32, UInt64.size] at narrow ⊢; omega)
    have zeros' : ∀ other ∈ slots, ∀ x ∈ other.cells (t.regs r14), t.memory x = 0 := by
      intro other mem x near
      rw [block] at near
      rw [same (Set.disjoint_right.1 (disjoint other mem) near)]
      exact zeros.2 other mem x near
    obtain ⟨u, later, changes', same', holds'⟩ := ih given.2 inside.2 apart.2 (block ▸ mapped)
      zeros' stores' lacks'
    rw [block] at same' holds'
    refine ⟨u, ?_, changes.trans changes' (by decide), fun x away => ?_,
      forall_mem_cons.2 ⟨?_, holds'⟩⟩
    · rw [flatten_cons, P.execute_append, executes]
      exact later
    · rw [same', same fun near => away ⟨slot, mem_cons_self, near⟩]
      rintro ⟨other, mem, near⟩
      exact away ⟨other, mem_cons_of_mem _ mem, near⟩
    · have kept : Set.EqOn u.memory t.memory (slot.cells (s.regs r14)) := by
        refine fun x near => same' ?_
        rintro ⟨other, mem, near'⟩
        exact Set.disjoint_left.1 (disjoint other mem) near near'
      exact (holds.congr kept).grown (seedFields_pool rest given.2 stores' lacks')
        lacks'.rodata_kind

end

end

end AgentCompiler
