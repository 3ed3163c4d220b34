import AgentCompiler.Proofs.StringsInMemory

/-!
The decimal digits of a number. They are written from the end of a block towards its start, the last
one first, and a minus sign is put in front of them.
-/

namespace AgentCompiler

open Service Process BitVec
open Register (rax rcx rdx rdi r8 r12 r13)
open BitVec (ofNat)

def textBytes (s : String) : Bytes := s.toUTF8.data.toList

lemma textBytes_append (s t : String) : textBytes (s ++ t) = textBytes s ++ textBytes t := by
  simp [textBytes]

lemma textBytes_nat (n : Nat) : textBytes (toString n) =
    (if n < 10 then [] else textBytes (toString (n / 10))) ++ [UInt8.ofNat (48 + n % 10)] := by
  have digit : ∀ d < 10, (String.ofList [Nat.digitChar d]).toUTF8.data.toList =
      [UInt8.ofNat (48 + d)] := by
    decide
  change textBytes (Nat.repr n) = (if n < 10 then [] else textBytes (Nat.repr (n / 10))) ++ _
  rw [Nat.repr_eq_ofList_toDigits, Nat.repr_eq_ofList_toDigits, Nat.toDigits_eq_if (by decide)]
  split
  next small =>
    rw [List.nil_append, Nat.mod_eq_of_lt small]
    exact digit n small
  next =>
    rw [String.ofList_append, textBytes_append]
    congr 1
    exact digit _ (Nat.mod_lt _ (by decide))

lemma textBytes_length {n width : Nat} (some : 0 < width) (fits : n < Nat.pow 10 width) :
    (textBytes (toString n)).length ≤ width := by
  induction width generalizing n with
  | zero => contradiction
  | succ width ih =>
    rw [textBytes_nat, List.length_append, List.length_singleton, Nat.succ_le_succ_iff]
    split
    next => exact Nat.zero_le _
    next large =>
      have below : n < Nat.pow 10 width * 10 := fits
      have some : width ≠ 0 := by
        rintro rfl
        exact large below
      exact ih (Nat.pos_of_ne_zero some) (Nat.div_lt_of_lt_mul (by omega))

lemma textBytes_signed (n : Word) : textBytes (toString n.toInt) =
    (if n.msb then [45] else []) ++ textBytes (toString n.toInt.natAbs) := by
  change textBytes n.toInt.repr = _
  rw [Int.repr_eq_if, msb_eq_toInt]
  by_cases sign : n.toInt < 0
  · have magnitude : (-n.toInt).toNat = n.toInt.natAbs := by omega
    rw [if_neg (by omega), if_pos (decide_eq_true sign), textBytes_append, magnitude]
    rfl
  · have magnitude : n.toInt.toNat = n.toInt.natAbs := by omega
    rw [if_pos (by omega), if_neg (by simpa using sign), magnitude]
    rfl

lemma Memory.HoldsText.cons {m : Memory} {a : Word} {text : Bytes} {byte : UInt8}
    (holds : m.HoldsText (a + BitVec.ofNat 64 1) text) (visible : byte ≠ 0)
    (short : text.length + 1 < UInt64.size) :
    (m.write a [byte]).HoldsText a (byte :: text) := by
  refine ⟨fun i inside => ?_, by simp [holds.plain, visible.symm]⟩
  cases i with
  | zero => simp [Memory.write]
  | succ i =>
    have away : a + BitVec.ofNat 64 (i + 1) ∉ cells a [byte].length := by
      simp only [mem_cells, UInt64.size, List.length_cons, List.length_nil] at short inside ⊢
      bv_omega
    have next : a + BitVec.ofNat 64 (i + 1) = a + BitVec.ofNat 64 1 + BitVec.ofNat 64 i := by
      rw [Nat.add_comm, ofNat_add, ← BitVec.add_assoc]
    rw [Memory.write_eqOn m a [byte] away, next]
    exact holds.filled i (by simpa using inside)

lemma Process.effect_div {P : Process} {s : Machine} {n : Nat} (small : n < UInt64.size)
    (low : s.regs rax = ofNat 64 n) (high : s.regs rdx = 0) (ten : s.regs r8 = 10) :
    P.effect (.unary .div (.reg r8)) s = some { (s.set rax (ofNat 64 (n / 10))).set rdx
      (ofNat 64 (n % 10)) with flags := .undefined } := by
  have dividend : (s.regs rdx ++ s.regs rax).toNat = n := by
    rw [low, high, toNat_append, toNat_ofNat_of_lt small]
    exact Nat.zero_or n
  have quotient : ((n : Nat) : Int).tdiv ((10 : Word).toNat : Nat) = (n / 10 : Nat) :=
    Int.ofNat_tdiv n 10
  have remainder : ((n : Nat) : Int).tmod ((10 : Word).toNat : Nat) = (n % 10 : Nat) :=
    Int.ofNat_tmod n 10
  simp only [UInt64.size] at small
  change divide s _ _ 0 0xFFFFFFFFFFFFFFFF = _
  rw [dividend, ten, divide, quotient, remainder]
  rw [if_neg (by simp; omega), ofInt_natCast, ofInt_natCast]

lemma ofNat_beq_zero {n : Nat} (small : n < UInt64.size) : (ofNat 64 n == 0#64) = decide
    (n = 0) := by
  rw [beq_eq_decide, decide_eq_decide, ← BitVec.toNat_inj, toNat_ofNat_of_lt small]
  rfl

lemma Process.effect_mov {P : Process} (width : Width) (dst src : Operand) (s : Machine) :
    P.effect (.mov width dst src) s = (P.value s width src).bind (P.assign s width dst) := rfl

section

variable {P : Process} {heapSize used k j back place : Nat} {s v w : Machine} {text : Bytes}
  {n : Word} {positive digit done : Label} (distinct : P.HasDistinctLabels)
  (placed : P.Holds k (formatIntCode positive digit done))

lemma Process.IsFresh.write_byte (fresh : P.IsFresh heapSize used w 32) (inside : place < 32) :
    P.blockAt used + ofNat 64 (place + 1) - 1#64 = P.blockAt used + ofNat 64 place ∧
    ∀ (u : Machine) (v : Word), P.write u (P.blockAt used + ofNat 64 place) .byte v = some
      { u with memory := u.memory.write (P.blockAt used + ofNat 64 place) [UInt8.ofNat v.toNat]
          } := by
  refine ⟨?_, fun u v => write_of_mapped (fun x near =>
    fresh.mapped x (cells_subset inside (by decide) near)) u v⟩
  rw [ofNat_add, ← BitVec.add_assoc]
  exact BitVec.add_sub_cancel _ _

include distinct placed

lemma formatInt_loops {n : Nat} (fresh : P.IsFresh heapSize used w 32) (small : n < UInt64.size)
    (inside : place < 32) (room : (textBytes (toString n)).length ≤ place)
    (short : place + text.length < 32) (comes : P.Comes [r12, r13]
    (w.ownCells ∪ cells (P.blockAt used) 32) ⟨j, w⟩ ⟨k + 16, s⟩)
    (left : s.regs rax = ofNat 64 n) (ten : s.regs r8 = 10)
    (here : s.regs rcx = P.blockAt used + ofNat 64 place)
    (holds : s.memory.HoldsText (P.blockAt used + ofNat 64 place) text) :
    ∃ t start, P.Comes [r12, r13] (w.ownCells ∪ cells (P.blockAt used) 32) ⟨j, w⟩ ⟨k + 24, t⟩ ∧
      start + (textBytes (toString n)).length = place ∧ t.regs r12 = s.regs r12 ∧
      t.regs rcx = P.blockAt used + ofNat 64 start ∧
      t.memory.HoldsText (P.blockAt used + ofNat 64 start) (textBytes (toString n) ++ text) := by
  induction n using Nat.strong_induction_on generalizing s place text with
  | _ n ih =>
    rw [textBytes_nat] at room ⊢
    rw [List.length_append, List.length_singleton] at room ⊢
    obtain ⟨place, rfl⟩ : ∃ before, place = before + 1 := ⟨place - 1, by omega⟩
    obtain ⟨s1, comes, memory1, regs1⟩ := comes.turns placed [.label digit, .zero rdx]
      [(rdx, 0)] rfl rfl (by simp +decide) (by simp)
    have divides := effect_div (P := P) (s := s1) small (by simp [regs1, left]) (by simp [regs1])
      (by simp [regs1, ten])
    obtain ⟨back, write⟩ := fresh.write_byte (Nat.lt_of_succ_lt inside)
    have more : (ofNat 64 (n / 10) == 0#64) = !decide (10 ≤ n) := by
      rw [ofNat_beq_zero ((Nat.div_le_self n 10).trans_lt small), ← decide_not, decide_eq_decide]
      omega
    have byte : (ofNat 64 (n % 10) + 48#64).toNat = 48 + n % 10 := by bv_omega
    obtain ⟨t, comes, memory, regs, flags⟩ := comes.stores placed
      (Q := fun flags => Condition.ne.holds flags = some (decide (10 ≤ n)))
      [.unary .div (.reg r8), .arith .add rdx (.imm 48), .arith .sub rcx (.imm 1),
        .mov .byte (Address.deref rcx) rdx, .check rax]
      [(rax, ofNat 64 (n / 10)), (rdx, ofNat 64 (n % 10) + 48#64),
        (rcx, P.blockAt used + ofNat 64 place)]
      (s.memory.write (P.blockAt used + ofNat 64 place) [UInt8.ofNat (48 + n % 10)]) rfl rfl
        (by simp +decide)
      (memory1 ▸ (Memory.write_eqOn _ _ _).mono (Set.compl_subset_compl.2 fun x near =>
        .inr (cells_subset (Nat.lt_of_succ_lt inside) (by decide) near)))
      (by simp [divides, regs1, memory1, here, back, effect_mov, write, byte, more, Condition.holds,
        Flags.ofResult])
    have visible : ∀ d < 10, UInt8.ofNat (48 + d) ≠ 0 := by decide
    have text' : t.memory.HoldsText (P.blockAt used + ofNat 64 place)
        (UInt8.ofNat (48 + n % 10) :: text) := by
      rw [memory]
      refine .cons ?_ (visible _ (Nat.mod_lt _ (by decide))) (by simp only [UInt64.size]; omega)
      rwa [BitVec.add_assoc, ← ofNat_add]
    by_cases more : 10 ≤ n
    · rw [decide_eq_true more] at flags
      rw [if_neg (not_lt.2 more)] at room ⊢
      obtain ⟨u, start, comes, ends, kept, result, holds⟩ := ih (n / 10) (by omega) (by omega)
        (Nat.lt_of_succ_lt inside) (by omega) (by rw [List.length_cons]; omega) (comes.branches
        placed rfl (.inr rfl) flags (labelPosition_of_at distinct (placed.get (i := 16) rfl)))
        (by simp [regs]) (by simp [regs, regs1, ten]) (by simp [regs]) text'
      exact ⟨u, start, comes, by omega, by simpa [regs, regs1] using kept,
        result, by simpa using holds⟩
    · rw [decide_eq_false more] at flags
      rw [if_pos (not_le.1 more)]
      exact ⟨t, place, comes.passes placed rfl (.inr rfl) flags,
        rfl, by simp [regs, regs1], by simp [regs], text'⟩

/-- The magnitude as an unsigned word, which is right for the least integer too. -/
lemma formatInt_negates (gets : P.Gets heapSize used 32 v w) (asked : v.regs r12 = n) :
    ∃ t, P.Comes [r12, r13] (w.ownCells ∪ cells (P.blockAt used) 32) ⟨k + 8, w⟩ ⟨k + 16, t⟩ ∧
      t.memory = w.memory ∧ t.regs = putAll w.regs [(r13, P.blockAt used),
        (rcx, P.blockAt used + ofNat 64 31), (rax, ofNat 64 n.toInt.natAbs), (r8, 10)] := by
  have comes : P.Comes [r12, r13] (w.ownCells ∪ cells (P.blockAt used) 32) _ _ := .refl ⟨k + 8, w⟩
  obtain ⟨s1, comes, memory1, regs1, flags⟩ := comes.stores placed
    (Q := fun flags => Condition.ns.holds flags = some (!n.msb))
    [.move r13 rax, .lea rcx (.near r13 31), .move rax r12, .check rax]
    [(r13, P.blockAt used), (rcx, P.blockAt used + ofNat 64 31), (rax, n)] _ rfl rfl
    (by simp +decide) (fun _ _ => rfl) (by simp +decide [gets.block, gets.saved, asked,
    Condition.holds, Flags.ofResult])
  obtain ⟨s2, comes, memory2, regs2⟩ : ∃ t,
      P.Comes [r12, r13] (w.ownCells ∪ cells (P.blockAt used) 32) ⟨k + 8, w⟩ ⟨k + 14, t⟩ ∧
      t.memory = w.memory ∧ t.regs = putAll w.regs [(r13, P.blockAt used),
        (rcx, P.blockAt used + ofNat 64 31), (rax, ofNat 64 n.toInt.natAbs)] := by
    cases sign : n.msb with
    | false =>
      rw [sign] at flags
      have magnitude : n = ofNat 64 n.toInt.natAbs := by
        rw [toInt_eq_toNat_of_msb sign, Int.natAbs_natCast, ofNat_toNat, setWidth_eq]
      exact ⟨s1, comes.branches placed rfl (.inr rfl) flags
        (labelPosition_of_at distinct (placed.get (i := 14) rfl)), memory1, magnitude ▸ regs1⟩
    | true =>
      rw [sign] at flags
      have magnitude : -n = ofNat 64 n.toInt.natAbs := by
        have value := toInt_eq_msb_cond n
        rw [sign, if_pos rfl] at value
        have size : n.toInt.natAbs = 18446744073709551616 - n.toNat := by omega
        rw [size]
        bv_omega
      obtain ⟨t, comes, memory, regs⟩ := (comes.passes placed rfl (.inr rfl) flags).turns placed
        [.unary .neg (.reg rax)] [(rax, -n)] rfl rfl (by simp +decide)
        ⟨_, rfl, rfl, by simp [regs1]⟩
      exact ⟨t, comes, memory.trans memory1, by simp [regs, regs1, magnitude]⟩
  obtain ⟨s3, comes, memory3, regs3⟩ := comes.turns placed [.label positive, .move r8 (.imm 10)]
    [(r8, 10)] rfl
    rfl (by simp +decide) (by simp)
  exact ⟨s3, comes, memory3.trans memory2, by simp [regs3, regs2]⟩

lemma formatInt_signs {start : Nat} (fresh : P.IsFresh heapSize used w 32)
    (comes : P.Comes [r12, r13] (w.ownCells ∪ cells (P.blockAt used) 32) ⟨j, w⟩ ⟨k + 24, s⟩)
    (asked : s.regs r12 = n) (room : 0 < start) (inside : start + text.length < 32)
    (here : s.regs rcx = P.blockAt used + ofNat 64 start)
    (holds : s.memory.HoldsText (P.blockAt used + ofNat 64 start) text) :
    ∃ t first, P.Comes [r12, r13] (w.ownCells ∪ cells (P.blockAt used) 32) ⟨j, w⟩ ⟨k + 30, t⟩ ∧
      first + n.msb.toNat = start ∧ t.regs rax = P.blockAt used + ofNat 64 first ∧
      t.memory.HoldsText (P.blockAt used + ofNat 64 first)
          ((if n.msb then [45] else []) ++ text) := by
  obtain ⟨s1, comes, memory1, regs1, flags⟩ := comes.stores placed
    (Q := fun flags => Condition.ns.holds flags = some (!n.msb)) [.check r12] [] _ rfl rfl (by simp)
    (fun _ _ => rfl) (by simp [asked, Condition.holds, Flags.ofResult])
  cases sign : n.msb with
  | false =>
    rw [sign] at flags
    obtain ⟨t, comes, memory, regs⟩ := (comes.branches placed rfl (.inr rfl) flags
      (labelPosition_of_at distinct (placed.get (i := 28) rfl))).turns placed [.label done,
      .move rax rcx] [(rax, P.blockAt used + ofNat 64 start)] rfl rfl (by simp +decide)
      (by simp [regs1, here])
    exact ⟨t, start, comes, rfl, by simp [regs], memory ▸ memory1 ▸ holds⟩
  | true =>
    rw [sign] at flags
    obtain ⟨first, rfl⟩ : ∃ before, start = before + 1 := ⟨start - 1, by omega⟩
    obtain ⟨back, write⟩ := fresh.write_byte (show first < 32 by omega)
    obtain ⟨t, comes, memory, regs, -⟩ := (comes.passes placed rfl (.inr rfl) flags).stores placed
      (Q := fun _ => True) [.arith .sub rcx (.imm 1), .mov .byte (Address.deref rcx) (.imm 45),
      .label done, .move rax rcx] [(rcx, P.blockAt used + ofNat 64 first),
      (rax, P.blockAt used + ofNat 64 first)] (s.memory.write (P.blockAt used + ofNat 64 first)
      [45]) rfl rfl (by simp +decide) (memory1 ▸ (Memory.write_eqOn _ _ _).mono
      (Set.compl_subset_compl.2 fun x near =>
        .inr (cells_subset (show first + 1 ≤ 32 by omega) (by decide) near)))
      (by simp [regs1, memory1, here, back, effect_mov, write])
    refine ⟨t, first, comes, rfl, by simp [regs], ?_⟩
    rw [memory]
    rw [ofNat_add, ← BitVec.add_assoc] at holds
    exact holds.cons (by decide) (by simp only [UInt64.size]; omega)

variable {blocks : List Block} {c : Config}

omit distinct in
/-- Every integer is written in decimal, into a block of thirty-two bytes. -/
theorem formatInt_builds (services : P.HasServices heapSize)
    (called : P.IsCalled formatInt [r12, r13] (P.heapCells heapSize) back c)
    (blocksAt : P.HasBlocks heapSize blocks used c.machine.memory)
    (asked : c.machine.regs rdi = n) :
    P.Builds heapSize blocks used 32 [r12, r13] back c fun m result =>
      cells result ((textBytes (toString n.toInt)).length + 1) ⊆ cells (P.blockAt used) 32 ∧
      m.HoldsText result (textBytes (toString n.toInt)) := by
  have magnitude : n.toInt.natAbs ≤ 0x8000000000000000 := by
    have low := n.le_toInt
    have high := n.toInt_lt
    omega
  have short : (textBytes (toString n.toInt.natAbs)).length ≤ 20 :=
    textBytes_length (by decide) (magnitude.trans_lt (by decide))
  refine called.builds services (Set.Subset.refl _) (by decide) blocksAt
    (show P.Holds k (framed formatInt [r12, r13] (((formatIntCode positive digit done).drop 5).take
    25)) from placed) (by decide) (by decide) (rfl : _ = 5) (rfl : _ = 30) (by decide)
    (placed.get (i := 7) rfl) fun u enters serves => ?_
  have comes : P.Comes [r12, r13] u.ownCells _ _ := .refl ⟨k + 5, u⟩
  obtain ⟨v, comes, -, regs⟩ := comes.turns placed [.move r12 rdi, .move rdi (.imm 32)]
    [(r12, n), (rdi, 32)]
    rfl rfl (by simp +decide) (by simp +decide [enters.others, asked])
  refine ⟨v, comes, by simp [regs], fun w gets serves => ?_⟩
  obtain ⟨s1, comes, memory1, regs1⟩ := formatInt_negates services.distinct placed gets (n := n)
    (by simp [regs])
  have ends : w.memory.HoldsText (P.blockAt used + BitVec.ofNat 64 31) [] := by
    refine ⟨fun i inside => ?_, List.not_mem_nil⟩
    obtain rfl : i = 0 := Nat.lt_one_iff.1 inside
    rw [BitVec.add_zero]
    exact gets.zeros _ (add_mem_cells _ (by decide))
  obtain ⟨s2, start, comes, length, asked2, here, digits⟩ := formatInt_loops services.distinct
    placed gets.toIsFresh (magnitude.trans_lt (by decide)) (by decide) (by omega) (by decide) comes
    (by simp [regs1]) (by simp [regs1]) (by simp [regs1]) (memory1 ▸ ends)
  obtain ⟨s3, first, comes, sign, result, holds⟩ := formatInt_signs services.distinct placed
    gets.toIsFresh comes (by simp +decide [asked2, regs1, gets.saved, regs] : s2.regs r12 = n)
    (by omega) (by rw [List.append_nil]; omega) here digits
  rw [List.append_nil, ← textBytes_signed] at holds
  have total : first + ((textBytes (toString n.toInt)).length + 1) ≤ 32 := by
    have minus : (if n.msb then [(45 : UInt8)] else []).length = n.msb.toNat := by
      cases n.msb <;> rfl
    rw [textBytes_signed, List.length_append, minus]
    omega
  exact ⟨s3, comes, result ▸ cells_subset total (by decide), result ▸ holds⟩

end

/-- The least integer, which has no positive counterpart. -/
theorem formatInt_builds_least : ∃ t, (fortyBytes (formatIntCode ⟨19⟩ ⟨20⟩ ⟨21⟩)).Returns
      (asking 29 0x8000000000000000) ⟨0, t⟩ ∧
    t.memory.HoldsText (t.regs rax) (textBytes "-9223372036854775808") := by
  have distinct : (fortyBytes (formatIntCode ⟨19⟩ ⟨20⟩ ⟨21⟩)).HasDistinctLabels :=
    Process.hasDistinctLabels_of_nodup (by decide)
  have placed : (fortyBytes (formatIntCode ⟨19⟩ ⟨20⟩ ⟨21⟩)).Holds 28
      (formatIntCode ⟨19⟩ ⟨20⟩ ⟨21⟩) := List.prefix_rfl
  have builds := formatInt_builds placed (fortyBytes_hasServices distinct (by decide))
    (asking_isCalled distinct (by decide) 29 0x8000000000000000 rfl (by decide))
    (.initial (by decide)) rfl
  rw [Process.Builds, if_pos (by decide)] at builds
  obtain ⟨t, returns, -, -, -, -, holds⟩ := builds
  exact ⟨t, returns, holds⟩

end AgentCompiler
