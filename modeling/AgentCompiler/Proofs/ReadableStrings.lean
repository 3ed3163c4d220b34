import AgentCompiler.Proofs.StringsInMemory
import AgentCompiler.Proofs.WordOperators

/-!
Strings that are read byte by byte. A loop that looks for the end of a string touches its bytes and
the zero behind them, and nothing else.
-/

namespace AgentCompiler

open Process
open BitVec (ofNat ofNat_add)

/-- A string that may be read, up to the zero behind it. -/
structure Process.Shows (P : Process) (m : Memory) (a : Word) (text : Bytes) :
    Prop extends m.HoldsText a text where
  mapped : ∀ i ≤ text.length, P.mapped (a + ofNat 64 i)

variable {P : Process} {a : Word} {text : Bytes} {s : Machine} {m : Memory}

namespace Process.Shows

lemma first (shows : P.Shows m a text) : P.mapped a ∧ m a = text.headD 0 := by
  have mapped := shows.mapped 0 (Nat.zero_le _)
  have byte := shows.filled 0 (Nat.succ_pos _)
  cases text <;> simp_all

lemma rest {byte : UInt8} (shows : P.Shows m a (byte :: text)) : byte ≠ 0 ∧
    P.Shows m (a + 1) text := by
  have next (i : Nat) : a + 1 + ofNat 64 i = a + ofNat 64 (i + 1) := by
    rw [Nat.add_comm i, ofNat_add, ← BitVec.add_assoc]
    rfl
  have plain := shows.plain
  rw [List.mem_cons, not_or] at plain
  refine ⟨Ne.symm plain.1, ⟨fun i inside => ?_, plain.2⟩, fun i inside => ?_⟩
  · rw [next, shows.filled (i + 1) (Nat.succ_lt_succ inside)]
    rfl
  · rw [next]
    exact shows.mapped (i + 1) (Nat.succ_le_succ inside)

end Process.Shows

section

variable {source : Address} (here : P.address s source = a) (mapped : P.mapped a)
include here mapped

lemma value_byte : P.value s .byte (.mem source) = some ((s.memory a).toBitVec.setWidth 64) := by
  have read : P.read s a .byte = some (ofNat 64 (s.memory a).toNat) := by
    simp [Process.read, allows, Width.bytes, mapped, Memory.load, Memory.bytes, ofLittleEndian]
  rw [value_mem, here, read]
  exact congrArg some (BitVec.ofNat_toNat 64 _)

lemma effect_checkByte :
    P.effect (Service.checkByte source) s = some
        { s with flags := AluOp.cmp.flags (s.memory a).toBitVec 0 } := by
  simp [Service.checkByte, effect, AluOp.compute, value_byte here mapped]

end

/-- Counts the bytes of a string. -/
def scanCode (scan found : Label) (base index : Register) : Code :=
  [.label scan, Service.checkByte (.indexed base index 0), .jccShort .e found,
    .arith .add index (.imm 1), .jmpShort scan]

lemma Leads.memory_eq {R : Config → Config → Prop} {kept : Register → Prop} {c d : Config}
    (leads : Leads R kept ∅ c d) : d.machine.memory = c.machine.memory :=
  funext fun z => leads.memory (Set.notMem_empty z)

section

variable {R : Config → Config → Prop} [P.Paces R] {kept : Register → Prop} {written : Set Word}
  {c : Config} {k : Nat} {scan found : Label} {base index : Register}
  (placed : P.Holds k (scanCode scan found base index)) (leads : Leads R kept written c ⟨k, s⟩)
  (shows : P.Shows s.memory (s.regs base + s.regs index) text)
include placed leads shows

lemma Leads.looks : ∃ t, Leads R kept written c ⟨k + 2, t⟩ ∧ t.memory = s.memory ∧ t.regs = s.regs ∧
    Condition.e.holds t.flags = some (decide (text = [])) := by
  obtain ⟨mapped, byte⟩ := shows.first
  have ended : ((s.memory (s.regs base + s.regs index)).toBitVec == 0) = decide (text = []) := by
    rw [byte, beq_eq_decide, decide_eq_decide]
    cases text with
    | nil => exact ⟨fun _ => rfl, fun _ => rfl⟩
    | cons byte text =>
      exact ⟨fun zero => absurd (UInt8.toBitVec_inj.1 zero) shows.rest.1,
        fun empty => by cases empty⟩
  refine leads.stores placed (i := 0) (Q := fun flags => Condition.e.holds flags = _)
    [.label scan, Service.checkByte (.indexed base index 0)] [] _ rfl rfl (by simp)
    (fun _ _ => rfl) ?_
  rw [execute_cons, effect_label, Option.bind_some, execute_cons, effect_checkByte (by simp) mapped]
  simpa using ended

/-- The bytes are passed one by one. -/
lemma Leads.scans (distinct : P.HasDistinctLabels) (other : base ≠ index) (free : ¬kept index)
    {j : Nat} (target : P.labelPosition found = some j) : ∃ t, Leads R kept written c ⟨j, t⟩ ∧
      t.memory = s.memory ∧ t.regs = Function.update s.regs index
      (s.regs index + ofNat 64 text.length) := by
  induction text generalizing s with
  | nil =>
    obtain ⟨t, leads, memory, regs, flags⟩ := leads.looks placed shows
    exact ⟨t, leads.branches placed (i := 2) rfl (.inr rfl) flags target, memory, by simp [regs]⟩
  | cons byte text ih =>
    obtain ⟨t, leads, memory, regs, flags⟩ := leads.looks placed shows
    obtain ⟨u, leads, memory', regs'⟩ := (leads.passes placed (i := 2) rfl (.inr rfl) flags).turns
      placed [.arith .add index (.imm 1)] [(index, s.regs index + 1)] rfl rfl (by simp [free])
      (by simp [regs])
    have again := leads.jumps placed (i := 4) rfl (.inr rfl)
        (labelPosition_of_at distinct (placed.get (i := 0) rfl))
    obtain ⟨v, leads, memory'', regs''⟩ := ih again (by
      simpa [memory', memory, regs', regs, other, BitVec.add_assoc] using shows.rest.2)
    refine ⟨v, leads, by rw [memory'', memory', memory], ?_⟩
    rw [regs'', regs', regs]
    simp [Nat.add_comm text.length, ofNat_add, BitVec.add_assoc]

end

end AgentCompiler
