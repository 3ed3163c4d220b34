import AgentCompiler.Proofs.BodyAcceptance
import AgentCompiler.Proofs.MemoryOperands
import AgentCompiler.Proofs.StackWalk

/-!
The memory that the code of a routine may touch: the fields of its agent's state, the fields of the
message that it handles, the slots of its variables, the integers of the pool, and the payloads that
it has just allocated itself.

A body falls into pieces. Most of them compute, with the routine's own operands only; the others
build a message, from the call that allocates its payload to the store of its last field; nothing
else allocates. No jump leads into the middle of a message from outside, so that every store of a
field finds the address of the new payload in its register.
-/

namespace AgentCompiler

open Instruction List Register
open Register (rbx rbp)

structure Territory where
  state : Record
  message : Option Record
  slots : Nat
  constants : SymbolId → Prop
  helpers : Label → Prop
  emits : List String
  sent : String → List Record

/-- The payloads of the messages that a routine builds, in the order of its text. -/
def Territory.messages (T : Territory) : List Record := T.emits.flatMap T.sent

lemma ValueType.bytes_width (type : ValueType) : type.width.bytes =
    type.size := by cases type <;> rfl

/-- A record whose fields lie inside it, at distances that an operand can hold. -/
structure Record.IsSmall (r : Record) : Prop where
  size : r.size < 0x80000000
  inside : ∀ slot ∈ r.slots, slot.offset + slot.type.size ≤ r.size

lemma Record.IsSmall.offset {r : Record} (h : r.IsSmall) {slot : Slot} (field : slot ∈ r.slots) :
    slot.offset < 0x80000000 := by
  have inside := h.inside slot field
  have size := h.size
  omega

structure Territory.IsSmall (T : Territory) : Prop where
  state : T.state.IsSmall
  message : ∀ record, T.message = some record → record.IsSmall
  slots : T.slots < 0x8000000

def jumpTargets (code : Code) : List Label := code.filterMap jump?

@[simp] lemma jumpTargets_append (first second : Code) :
    jumpTargets (first ++ second) = jumpTargets first ++ jumpTargets second := filterMap_append

structure Access.IsAt (a : Access) (base : Register) (distance : Int) (size : Nat) : Prop where
  base : a.address.base = .reg base
  index : a.address.index = none
  disp : a.address.disp.toInt = distance
  size : a.width.bytes = size

/-- The registers that stay as they are in the whole body of a routine. -/
def fixedRegisters : List Register := [.stateBase, .message, rbp]

namespace Territory

variable {T : Territory}

inductive Owns (T : Territory) : Access → Prop
  | state {a : Access} {slot : Slot} (field : slot ∈ T.state.slots)
      (here : a.IsAt .stateBase slot.offset slot.type.size) : Owns T a
  | message {a : Access} {record : Record} {slot : Slot} (handled : T.message = some record)
      (field : slot ∈ record.slots) (here : a.IsAt .message slot.offset slot.type.size)
      (reads : a.isStore = false) : Owns T a
  | slot {a : Access} {s : Nat} (handed : s < T.slots) (here : a.IsAt rbp (-8 * (s + 1)) 8) :
      Owns T a
  | constant {a : Access} {s : SymbolId} (pooled : T.constants s) (here : a.address = .symbol s 0)
      (whole : a.width = .qword) (reads : a.isStore = false) : Owns T a

structure Permits (T : Territory) (kept : List Register) (i : Instruction) : Prop where
  owns : ∀ a ∈ i.accesses, T.Owns a
  keeps : ∀ reg ∈ kept, reg ∉ i.changed
  calls : ∀ l, i = .call l → ∃ s : Service, s ≠ .allocate ∧ l = s.label

inductive Computes (T : Territory) (kept : List Register) : Code → Prop
  | plain {code : Code} (permits : ∀ i ∈ code, T.Permits kept i) : Computes T kept code
  | helper {live : List Register} {target : Label} {args : List Argument} (own : T.helpers target) :
      Computes T kept (callSequence live target ([.reg .stateBase, .reg .message] ++ args))
  | append {first second : Code} (before : Computes T kept first)
      (behind : Computes T kept second) :
      Computes T kept (first ++ second)

end Territory

structure Fill where
  slot : Slot
  compute : Code
  store : Instruction

namespace Fill

def code (fill : Fill) : Code := fill.compute ++ [fill.store]

/-- The value is computed without leaving the computation and without touching the payload's
register, and goes to the field's own place. -/
structure IsSound (T : Territory) (fill : Fill) : Prop where
  computes : T.Computes (rbx :: fixedRegisters) fill.compute
  closed : jumpTargets fill.compute ⊆ boundLabels fill.compute
  store : ∃ a, fill.store.accesses = [a] ∧ a.isStore = true ∧ a.IsAt rbx fill.slot.offset
    fill.slot.type.size
  keeps : fill.store.changed = []

end Fill

inductive Piece
  | own (code : Code)
  | message (record : Record) (fills : List Fill)

namespace Piece

def inner : Piece → Code
  | own _ => []
  | message _ fills => fills.flatMap Fill.code

def code : Piece → Code
  | own code => code
  | message record fills =>
    [move rdi (Int64.ofNat record.size), .call Service.allocate.label,
      .move rbx rax] ++ fills.flatMap Fill.code

def IsSound (T : Territory) : Piece → Prop
  | own code => T.Computes fixedRegisters code
  | message record fills =>
    record.IsSmall ∧ fills.map (·.slot) = record.slots ∧ ∀ fill ∈ fills, fill.IsSound T

def record? : Piece → Option Record
  | own _ => none
  | message record _ => some record

def Spares (a b : Piece) : Prop := ∀ l ∈ jumpTargets a.code, l ∉ boundLabels b.inner

end Piece

namespace Territory

variable {T : Territory}

/-- A body that falls into pieces, none of which reaches beyond the territory. A payload is
allocated only at the start of a message, and the messages are those with the given payloads. -/
def Confines (T : Territory) (records : List Record) (code : Code) : Prop :=
  ∃ pieces : List Piece, code = pieces.flatMap Piece.code ∧ pieces.filterMap Piece.record? =
    records ∧ (∀ piece ∈ pieces, piece.IsSound T) ∧ pieces.Pairwise fun a b => a.Spares b ∧
    b.Spares a

section

variable {kept live : List Register} {code first second : Code} {i : Instruction}
  {target : Label} {args : List Argument} {a : Access}

lemma straight_of_accesses (accesses : i.accesses = [a]) :
    i.jump? = none ∧ i.boundLabel? = none ∧ ∀ l, i ≠ .call l := by
  cases i <;> first | (simp [Instruction.accesses] at accesses; done) | exact ⟨rfl, rfl, by simp⟩

/-- An instruction of a call sequence. It has no operand in memory, and changes no register that
callees keep. -/
structure ServesCall (target : Label) (i : Instruction) : Prop where
  accesses : i.accesses = []
  changed : ∀ reg ∈ i.changed, reg.isCalleeSaved = false
  jump : i.jump? = none
  label : i.boundLabel? = none
  call : ∀ l, i = .call l → l = target

lemma servesCall_arith (target : Label) (op : AluOp) : ServesCall target
    (.arith op rsp (.imm 8)) := by
  refine ⟨by cases op <;> rfl, fun reg mem => ?_, rfl, rfl, by simp [arith]⟩
  have stack : reg = .rsp := by
    revert mem
    cases op <;> simp [arith, changed]
  rw [stack]
  rfl

lemma servesCall_of_mem (mem : i ∈ callSequence live target args) : ServesCall target i := by
  have argument : ∀ dst ∈ arguments, dst.isCalleeSaved = false := by decide
  have callerSaved : ∀ reg : Register, reg.isCallerSaved = true → reg.isCalleeSaved = false := by
    intro reg
    cases reg <;> decide
  cases callPart_of_mem mem with
  | push r => exact ⟨rfl, forall_mem_singleton.2 rfl, rfl, rfl, by simp⟩
  | pop scratch =>
    exact ⟨rfl, forall_mem_cons.2 ⟨callerSaved _ scratch, forall_mem_singleton.2 rfl⟩, rfl,
      rfl, by simp⟩
  | adjust op => exact servesCall_arith target op
  | reg passes | imm passes =>
    exact ⟨rfl, forall_mem_singleton.2 (argument _ passes), rfl, rfl, by simp [move]⟩
  | address passes => exact ⟨rfl, forall_mem_singleton.2 (argument _ passes), rfl, rfl, by simp⟩
  | call => exact ⟨rfl, fun reg mem => callerSaved reg (mem_filter.1 mem).2, rfl, rfl, by simp⟩

lemma Computes.owns (h : T.Computes kept code) : ∀ i ∈ code, ∀ a ∈ i.accesses, T.Owns a := by
  induction h with
  | plain permits => exact fun i mem => (permits i mem).owns
  | helper own =>
    intro i mem
    simp [(servesCall_of_mem mem).accesses]
  | append _ _ first second => exact forall_mem_append.2 ⟨first, second⟩

lemma Computes.keeps (h : T.Computes kept code) (saved : ∀ reg ∈ kept, reg.isCalleeSaved = true) :
    ∀ i ∈ code, ∀ reg ∈ kept, reg ∉ i.changed := by
  induction h with
  | plain permits => exact fun i mem => (permits i mem).keeps
  | helper own =>
    intro i mem reg inside changed
    have callerSaved := (servesCall_of_mem mem).changed reg changed
    rw [saved reg inside] at callerSaved
    cases callerSaved
  | append _ _ first second => exact forall_mem_append.2 ⟨first, second⟩

lemma Computes.keeping {few : List Register} (h : T.Computes few code)
    (apart : ∀ i ∈ code, ∀ reg ∈ kept, reg ∉ i.changed) : T.Computes kept code := by
  induction h with
  | plain permits =>
    exact .plain fun i mem => ⟨(permits i mem).owns, apart i mem, (permits i mem).calls⟩
  | helper own => exact .helper own
  | append _ _ first second =>
    rw [forall_mem_append] at apart
    exact (first apart.1).append (second apart.2)

lemma Computes.silent (each : ∀ i ∈ code, i.accesses = [] ∧ (∀ reg ∈ i.changed, reg ∉ kept) ∧
    ∀ l, i ≠ .call l) : T.Computes kept code := by
  refine .plain fun i mem => ?_
  obtain ⟨accesses, frees, calls⟩ := each i mem
  exact ⟨by simp [accesses], fun reg inside changed => frees reg changed inside,
    fun l same => absurd same (calls l)⟩

lemma Computes.access (accesses : i.accesses = [a]) (owns : T.Owns a)
    (frees : ∀ reg ∈ i.changed, reg ∉ kept) : T.Computes kept [i] := by
  refine .plain (forall_mem_singleton.2 ⟨?_, fun reg inside changed => frees reg changed inside,
    fun l same => absurd same ((straight_of_accesses accesses).2.2 l)⟩)
  rw [accesses]
  exact forall_mem_singleton.2 owns

lemma Computes.of_call (saved : ∀ reg ∈ kept, reg.isCalleeSaved = true)
    (allowed : (∃ s : Service, s ≠ .allocate ∧ target = s.label) ∨
      T.helpers target ∧ ∃ rest, args = [.reg .stateBase, .reg .message] ++ rest) :
    T.Computes kept (callSequence live target args) := by
  rcases allowed with ⟨s, other, rfl⟩ | ⟨own, rest, rfl⟩
  · refine .plain fun i mem => ?_
    have serves := servesCall_of_mem mem
    refine ⟨by simp [serves.accesses], fun reg inside changed => ?_, fun l call =>
      ⟨s, other, serves.call l call⟩⟩
    have callerSaved := serves.changed reg changed
    rw [saved reg inside] at callerSaved
    cases callerSaved
  · exact .helper own

lemma jumpTargets_callSequence : jumpTargets (callSequence live target args) = [] :=
  filterMap_eq_nil_iff.2 fun _ mem => (servesCall_of_mem mem).jump

end

end Territory

section

variable {plan : Plan} {source : Endpoint} {lo : Nat} {p q : Pool} {P Q : Multiset Label}
  {code : Code}

lemma Written.jumps (h : Written plan source lo p P code q Q) :
    ∀ l ∈ jumpTargets code, lo ≤ l.id ∧ l.id < q.labels.size := by
  induction h with
  | plain plain =>
    intro l jump
    obtain ⟨i, mem, target⟩ := mem_filterMap.1 jump
    have straight := (plain i mem).straight
    cases i <;> simp_all [jump?, isStraight]
  | interns | fresh | bind => simp [jumpTargets, jump?]
  | jump low high | branch low high => simpa [jumpTargets, jump?] using ⟨low, high⟩
  | call => simp [Territory.jumpTargets_callSequence]
  | append _ second ih1 ih2 =>
    simp only [jumpTargets_append, forall_mem_append]
    exact ⟨fun l jump => ⟨(ih1 l jump).1, (ih1 l jump).2.trans_le second.labels_le⟩, ih2⟩

/-- Code that leaves no label open binds those that it names, and may jump to no others. -/
lemma Written.closed (h : Written plan source p.labels.size p 0 code q 0) :
    (∀ l ∈ boundLabels code, p.labels.size ≤ l.id ∧ l.id < q.labels.size) ∧
        jumpTargets code ⊆ boundLabels code := by
  have le := h.labels_le
  have bound : (boundLabels code).Perm (labelsFrom p.labels.size
      (q.labels.size - p.labels.size)) := by
    rw [← Multiset.coe_eq_coe]
    simpa using h.bound
  refine ⟨fun l mem => ?_, fun l jump => ?_⟩
  · have named := mem_labelsFrom.1 (bound.mem_iff.1 mem)
    omega
  · have range := h.jumps l jump
    exact bound.mem_iff.2 (mem_labelsFrom.2 (by omega))

end

end AgentCompiler
