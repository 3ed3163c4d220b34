import AgentCompiler.Lowering.Routine
import AgentCompiler.Proofs.MemoryOperands

/-!
The stack frame of a routine, as its entry sets it up: the frame pointer of the caller at the top,
the slots of the variables below it, and below them the registers that are kept for the caller. The
three parts share no byte, so storing to a variable never destroys what has to be handed back.
-/

namespace AgentCompiler

open Process Memory Option List Register
open Register (rbp rsp rdi rsi)
open BitVec (ofNat)

section

variable {top : Word} {a b n m : Nat}

lemma sub_add_distance (order : b ≤ a) :
    top - ofNat 64 a + ofNat 64 (a - b) = top - ofNat 64 b := by
  have split : ofNat 64 a = ofNat 64 b + ofNat 64 (a - b) := by
    rw [← BitVec.ofNat_add, Nat.add_sub_cancel' order]
  rw [split]
  bv_omega

lemma cells_below_subset (order : b ≤ a) (inside : a - b + n ≤ m) (fits : m ≤ UInt64.size) :
    cells (top - ofNat 64 b) n ⊆ cells (top - ofNat 64 a) m := by
  rw [← sub_add_distance order]
  exact cells_subset inside fits

lemma disjoint_cells_below (order : b + n ≤ a) (fits : a - b + m ≤ UInt64.size) :
    Disjoint (cells (top - ofNat 64 a) n) (cells (top - ofNat 64 b) m) := by
  have apart : Disjoint (cells (top - ofNat 64 a + ofNat 64 0) n)
      (cells (top - ofNat 64 a + ofNat 64 (a - b)) m) :=
    disjoint_cells (by omega) fits
  rwa [sub_add_distance (by omega), BitVec.add_zero] at apart

end

namespace Process

variable {P : Process} {s t : Machine} {regs : List Register}

lemma effect_push {r : Register} (runs : P.effect (.push r) s = some t) :
    t = ({ s with memory := s.memory.store (s.regs rsp - 8) .qword (s.regs r) } :
      Machine).set rsp (s.regs rsp - 8) := by
  obtain ⟨u, written, rfl⟩ := map_eq_some_iff.1 runs
  simp only [write] at written
  split at written
  · rw [← some.inj written]
  · simp at written

lemma execute_pushes (plain : rsp ∉ regs) (few : regs.length < 0x1000000)
    (runs : P.execute (regs.map Instruction.push) s = some t) :
    t.regs rsp = s.regs rsp - ofNat 64 (8 * regs.length) ∧ s.ChangesOnly [rsp] t ∧
      (∀ i r, regs[i]? = some r →
        t.memory.load (s.regs rsp - ofNat 64 (8 * (i + 1))) .qword = s.regs r) ∧
      Set.EqOn t.memory s.memory (cells (s.regs rsp - ofNat 64 (8 * regs.length))
          (8 * regs.length))ᶜ := by
  induction regs generalizing s with
  | nil =>
    obtain rfl := some.inj runs
    exact ⟨by simp, fun _ _ => rfl, by simp, fun _ _ => rfl⟩
  | cons r rest ih =>
    obtain ⟨u, first, runs⟩ := bind_eq_some_iff.1 runs
    rw [mem_cons, not_or] at plain
    rw [length_cons] at few
    obtain ⟨bottom, changes, stored, same⟩ := ih plain.2 (by omega) runs
    have pushed := effect_push first
    have stack : u.regs rsp = s.regs rsp - ofNat 64 8 := by simp [pushed]
    have others : ∀ reg, reg ≠ rsp → u.regs reg = s.regs reg := by
      intro reg other
      simp [pushed, other]
    have deeper : ∀ n, u.regs rsp - ofNat 64 n = s.regs rsp - ofNat 64 (8 + n) := by
      intro n
      rw [stack, BitVec.ofNat_add]
      bv_omega
    simp only [deeper] at bottom stored same
    have length : 8 + 8 * rest.length = 8 * (rest.length + 1) := by omega
    rw [length] at bottom same
    have memory : u.memory = s.memory.store (s.regs rsp - ofNat 64 8) .qword (s.regs r) := by
      simp [pushed]
    rw [length_cons]
    refine ⟨bottom, fun reg outside => (changes reg outside).trans
      (others reg (by simpa using outside)), ?_, fun x outside => ?_⟩
    · intro i reg found
      cases i with
      | zero =>
        obtain rfl := some.inj found
        have apart : Disjoint (cells (s.regs rsp - ofNat 64 (8 * (rest.length + 1)))
            (8 * rest.length)) (cells (s.regs rsp - ofNat 64 8) Width.qword.bytes) :=
          disjoint_cells_below (by omega) (by simp only [UInt64.size, Width.bytes]; omega)
        rw [load_congr (same.mono (Set.disjoint_right.1 apart)), memory]
        exact load_store_qword _ _ _
      | succ i =>
        have inside : reg ∈ rest := mem_of_getElem? found
        rw [← others reg fun same => plain.2 (same ▸ inside), ← stored i reg found]
        congr 3
        omega
    · have low : x ∉ cells (s.regs rsp - ofNat 64 (8 * (rest.length + 1))) (8 * rest.length) :=
        fun near => outside (cells_mono (by omega) near)
      have high : x ∉ cells (s.regs rsp - ofNat 64 8) Width.qword.bytes := fun near =>
        outside (cells_below_subset (by omega) (by rw [Width.bytes]; omega)
          (by simp only [UInt64.size]; omega) near)
      rw [same low, memory]
      exact store_eqOn _ _ _ _ high

lemma exists_pushes (few : regs.length < 0x1000000)
    (mapped : ∀ a ∈ cells (s.regs rsp - ofNat 64 (8 * regs.length)) (8 * regs.length),
      P.mapped a) : ∃ t, P.execute (regs.map Instruction.push) s = some t := by
  induction regs generalizing s with
  | nil => exact ⟨s, rfl⟩
  | cons r rest ih =>
    rw [length_cons] at few mapped
    let pushed : Machine := ({ s with
      memory := s.memory.store (s.regs rsp - 8) .qword (s.regs r) } : Machine).set rsp
        (s.regs rsp - 8)
    have first : P.effect (.push r) s = some pushed := by
      have inside : ∀ a ∈ cells (s.regs rsp - 8) Width.qword.bytes, P.mapped a := fun a near =>
        mapped a (cells_below_subset (b := 8) (by omega) (by simp only [Width.bytes]; omega)
          (by simp only [UInt64.size]; omega) near)
      simp only [effect, push, write_of_mapped inside, map_some]
      rfl
    have stack : pushed.regs rsp - ofNat 64 (8 * rest.length) =
        s.regs rsp - ofNat 64 (8 * (rest.length + 1)) := by
      have moved : pushed.regs rsp = s.regs rsp - ofNat 64 8 := by simp [pushed]
      rw [moved, mul_add, BitVec.ofNat_add]
      bv_omega
    obtain ⟨t, runs⟩ := ih (s := pushed) (by omega) fun a near =>
      mapped a (cells_mono (by omega) (stack ▸ near))
    exact ⟨t, by rw [map_cons, execute_cons, first, bind_some, runs]⟩

lemma address_slot {slot : Nat} (few : slot < 0x10000000) (s : Machine) :
    P.address s (Variable.address slot) = s.regs rbp - ofNat 64 (8 * (slot + 1)) := by
  have distance : (Int32.ofInt (-8 * (slot + 1))).toInt = -(8 * (slot + 1) : Nat) := by
    rw [Int32.toInt_ofInt_of_le (by omega) (by omega)]
    push_cast
    omega
  rw [Variable.address, address_near, distance, BitVec.ofInt_neg, BitVec.ofInt_natCast,
    ← BitVec.sub_eq_add_neg]

lemma execute_parameters {pairs : List (Register × Nat)} {n : Nat} (few : n < 0x8000000)
    (small : ∀ pair ∈ pairs, pair.2 < n)
    (runs : P.execute (pairs.map fun (reg, slot) => Instruction.move (Variable.address slot) reg)
    s = some t) :
    t.regs = s.regs ∧
      Set.EqOn t.memory s.memory (cells (s.regs rbp - ofNat 64 (8 * n)) (8 * n))ᶜ := by
  induction pairs generalizing s with
  | nil =>
    obtain rfl := some.inj runs
    exact ⟨rfl, fun _ _ => rfl⟩
  | cons pair rest ih =>
    rw [forall_mem_cons] at small
    have inside := small.1
    obtain ⟨u, stores, runs⟩ := bind_eq_some_iff.1 runs
    simp only [effect_move, value_reg, bind_some, assign_mem, write,
      address_slot (inside.trans (Nat.lt_trans few (by decide)))] at stores
    split at stores
    · obtain rfl := some.inj stores
      obtain ⟨regs, same⟩ := ih small.2 runs
      refine ⟨regs, fun x outside => (same outside).trans (store_eqOn _ _ _ _ fun near => ?_)⟩
      exact outside (cells_below_subset (by omega) (by simp only [Width.bytes]; omega)
        (by simp only [UInt64.size]; omega) near)
    · simp at stores

lemma execute_reserve {size : Nat}
    (runs : P.execute (if size = 0 then [] else [Instruction.arith .sub rsp (Int64.ofNat size)]) s =
    some t) :
    t.regs = Function.update s.regs rsp (s.regs rsp - ofNat 64 size) ∧ t.memory = s.memory := by
  split at runs
  next empty =>
    obtain rfl := some.inj runs
    simp [empty]
  next =>
    simp only [execute_cons, effect_sub, value_imm, map_some, bind_some, execute_nil,
      some.injEq] at runs
    rw [← runs]
    exact ⟨rfl, rfl⟩

end Process

namespace Frame

variable {f : Frame}

lemma saved_facts (f : Frame) : rsp ∉ f.saved ∧ rbp ∉ f.saved ∧ f.saved.length < 0x1000000 := by
  have part : f.clobbered.Sublist Register.scratch := filter_sublist.trans (take_sublist _ _)
  have outside : ∀ reg, reg ∉ [stateBase, .message] ++ Register.scratch → reg ∉ f.saved :=
    fun reg outside inside => outside ((part.append_left _).subset inside)
  have length := part.length_le
  refine ⟨outside rsp (by decide), outside rbp (by decide), ?_⟩
  simp only [saved, length_append, length_cons, length_nil]
  have scratch : Register.scratch.length = 5 := rfl
  omega

lemma slots_le_size (f : Frame) : 8 * f.slots ≤ f.size := le_self_add

lemma size_le (f : Frame) : f.size ≤ 8 * f.slots + 8 := by
  rw [size]
  split <;> omega

/-- The slots of the variables lie in the reserved part of the frame, which shares no byte with what
is kept for the caller. -/
lemma parts_apart (few : f.slots < 0x8000000) (top : Word) :
    (∀ slot < f.slots, cells (top - ofNat 64 (8 * (slot + 1))) 8 ⊆ cells (top - ofNat 64 f.size)
      f.size) ∧
    (∀ i < f.saved.length, Disjoint (cells (top - ofNat 64 (f.size + 8 * (i + 1))) 8)
      (cells (top - ofNat 64 f.size) f.size)) ∧
    Disjoint (cells (top - ofNat 64 f.size) f.size) (cells top 8) := by
  obtain ⟨-, -, short⟩ := f.saved_facts
  have room := f.slots_le_size
  have size := f.size_le
  refine ⟨fun slot handed => cells_below_subset (by omega) (by omega)
    (by simp only [UInt64.size]; omega), fun i kept => disjoint_cells_below (by omega)
    (by simp only [UInt64.size]; omega), ?_⟩
  have apart : Disjoint (cells (top - ofNat 64 f.size) f.size) (cells (top - ofNat 64 0) 8) :=
    disjoint_cells_below (by omega) (by simp only [UInt64.size]; omega)
  rwa [BitVec.sub_zero] at apart

/-- Behind its entry a routine has its frame: the frame pointer of the caller at the top, room for
the variables below it, and below them what is kept for the caller. -/
lemma of_prologue {P : Process} {s t : Machine} {entry : Label} {params : Nat}
    (few : f.slots < 0x8000000) (given : params ≤ f.slots)
    (runs : P.execute (prologue entry f params) s = some t) :
    t.regs rbp = s.regs rsp - ofNat 64 8 ∧
      t.regs .stateBase = s.regs rdi ∧ t.regs .message = s.regs rsi ∧
      t.memory.load (t.regs rbp) .qword = s.regs rbp ∧
      ∀ i r, f.saved[i]? = some r →
        t.memory.load (t.regs rbp - ofNat 64 (f.size + 8 * (i + 1))) .qword = s.regs r := by
  obtain ⟨noStack, noFrame, short⟩ := f.saved_facts
  simp only [prologue, execute_append, bind_eq_some_iff] at runs
  obtain ⟨s4, ⟨s3, ⟨s2, ⟨s1, first, reserve⟩, pushes⟩, moves⟩, parameters⟩ := runs
  simp only [execute_cons, effect_align, effect_label, bind_some] at first
  obtain ⟨u, pushed, moved⟩ := bind_eq_some_iff.1 first
  have pushed := effect_push pushed
  simp only [effect_move, value_reg, bind_some, assign_reg, execute_cons, execute_nil,
    some.injEq] at moved moves
  have base : s1.regs rbp = s.regs rsp - ofNat 64 8 := by simp [← moved, pushed]
  have stack : s1.regs rsp = s1.regs rbp := by simp [← moved, pushed]
  have others : ∀ r, r ≠ rsp → r ≠ rbp → s1.regs r = s.regs r := by
    intro r noStack noFrame
    simp [← moved, pushed, noStack, noFrame]
  have memory1 : s1.memory = s.memory.store (s1.regs rbp) .qword (s.regs rbp) := by
    rw [base, ← moved, pushed]
    rfl
  obtain ⟨regs2, memory2⟩ := execute_reserve reserve
  have others2 : ∀ r, r ≠ rsp → s2.regs r = s1.regs r := by
    intro r other
    simp [regs2, other]
  have stack2 : ∀ n, s2.regs rsp - ofNat 64 n = s1.regs rbp - ofNat 64 (f.size + n) := by
    intro n
    rw [regs2, Function.update_self, stack, BitVec.ofNat_add]
    bv_omega
  obtain ⟨-, changes, stored, same3⟩ := execute_pushes noStack short pushes
  simp only [stack2] at stored same3
  have kept : ∀ r, r ≠ rsp → r ≠ rbp → s3.regs r = s.regs r := fun r noStack noFrame => by
    rw [changes r (by simpa using noStack), others2 r noStack, others r noStack noFrame]
  have base3 : s3.regs rbp = s1.regs rbp := by
    rw [changes rbp (by simp), others2 rbp (by simp)]
  have small : ∀ pair ∈ (parameterRegisters.take params).zipIdx, pair.2 < f.slots := by
    intro pair mem
    have index := (mem_zipIdx' mem).1
    rw [length_take] at index
    omega
  obtain ⟨regs, same⟩ := execute_parameters few small parameters
  have base4 : t.regs rbp = s1.regs rbp := by
    rw [regs, ← moves]
    simp [stateBase, message, base3]
  have memory4 : s4.memory = s3.memory := by rw [← moves]; rfl
  have same4 : Set.EqOn t.memory s3.memory
      (cells (s1.regs rbp - ofNat 64 (8 * f.slots)) (8 * f.slots))ᶜ := by
    rwa [← regs, base4, memory4] at same
  have room := f.slots_le_size
  have size := f.size_le
  refine ⟨base4.trans base, ?_, ?_, ?_, fun i r found => ?_⟩
  · rw [regs, ← moves]
    simp [stateBase, message, kept]
  · rw [regs, ← moves]
    simp [stateBase, message, kept]
  · have above : ∀ a n : Nat, n ≤ a → a < 0x80000000 → Disjoint (cells (s1.regs rbp - ofNat 64 a) n)
        (cells (s1.regs rbp) Width.qword.bytes) := by
      intro a n order fits
      have apart : Disjoint (cells (s1.regs rbp - ofNat 64 a) n)
          (cells (s1.regs rbp - ofNat 64 0) Width.qword.bytes) :=
        disjoint_cells_below (by omega) (by simp only [UInt64.size, Width.bytes]; omega)
      rwa [BitVec.sub_zero] at apart
    rw [base4, load_congr (same4.mono (Set.disjoint_right.1 (above _ _ (by omega) (by omega)))),
      load_congr (same3.mono (Set.disjoint_right.1 (above _ _ (by omega) (by omega)))),
      memory2, memory1]
    exact load_store_qword _ _ _
  · have inside : r ∈ f.saved := mem_of_getElem? found
    have index : i < f.saved.length := (List.getElem?_eq_some_iff.1 found).1
    have apart : Disjoint (cells (s1.regs rbp - ofNat 64 (f.size + 8 * (i + 1))) Width.qword.bytes)
        (cells (s1.regs rbp - ofNat 64 (8 * f.slots)) (8 * f.slots)) :=
      disjoint_cells_below (by simp only [Width.bytes]; omega) (by simp only [UInt64.size]; omega)
    rw [base4, load_congr (same4.mono (Set.disjoint_left.1 apart)), stored i r found,
      others2 r fun same => noStack (same ▸ inside)]
    exact others r (fun same => noStack (same ▸ inside)) fun same => noFrame (same ▸ inside)

end Frame

end AgentCompiler
