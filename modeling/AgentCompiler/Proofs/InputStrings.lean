import AgentCompiler.Proofs.StringsInMemory

/-!
A string from the standard input. The service asks for a block with one byte more than it reads, so
that a zero stands behind what the system writes there. The sum is that of words: for minus one it
is zero, no byte is taken, and what is returned is where the next block will start.
-/

namespace AgentCompiler

open Service Process List
open Register (rax rcx rdx rsp rsi rdi r11 r12 r13)

/-- The system answers a request for bytes from the standard input. It writes no more of them than
it was asked for, and none after an error. -/
structure Process.Supplies (P : Process) (most : Word) (input : Bytes) : Prop where
  few : input.length ≤ most.toInt.toNat
  answers : ∀ s : Machine, s.regs rax = 0 → s.regs rdi = 0 → s.regs rdx = most →
    ∃ t, P.system s = some t ∧ t.memory = s.memory.write (s.regs rsi) input ∧
      ∀ r, r ∉ [rax, rcx, r11] → t.regs r = s.regs r

lemma getD_takeWhile (input : Bytes) {i : Nat} (inside : i ≤ (input.takeWhile (· != 0)).length) :
    input.getD i 0 = (input.takeWhile (· != 0)).getD i 0 := by
  induction input generalizing i with
  | nil => rfl
  | cons byte rest ih =>
    by_cases zero : byte = 0
    · obtain rfl : i = 0 := by simpa [zero] using inside
      simp [zero]
    · cases i with
      | zero => simp [zero]
      | succ i => simpa [zero] using ih (by simpa [zero] using inside)

namespace Memory.IsFilled

variable {m : Memory} {a : Word} {size : Nat} {input : Bytes}

lemma of_write (zeros : ∀ x ∈ cells a size, m x = 0) (narrow : size < UInt64.size) :
    (m.write a input).IsFilled a size input := by
  intro i inside
  have distance : (a + BitVec.ofNat 64 i - a).toNat = i := by
    simp only [UInt64.size] at narrow
    bv_omega
  rw [Memory.write, distance, zeros _ (add_mem_cells a inside), getD_eq_getElem?_getD]

lemma holdsText (filled : m.IsFilled a size input) (room : input.length < size) :
    m.HoldsText a (input.takeWhile (· != 0)) := by
  have short := (input.takeWhile_sublist (· != 0)).length_le
  refine ⟨fun i inside => (filled i (by omega)).trans
    (getD_takeWhile input (Nat.le_of_lt_succ inside)), fun zero => ?_⟩
  simpa using mem_takeWhile_imp zero

end Memory.IsFilled

section

variable {P : Process} {heapSize used size k j back : Nat} {s : Machine} {c : Config} {most : Word}
  {input : Bytes} {blocks : List Block}

lemma Process.Serves.reads (serves : P.Serves heapSize s) (fresh : P.IsFresh heapSize used s size)
    (placed : P.Holds j readBytesCode) (supplies : P.Supplies most input)
    (room : input.length ≤ size) (at_k : P.code[k]? = some (.call readBytes.label))
    (source : s.regs rdi = 0) (here : s.regs rsi = P.blockAt used) (much : s.regs rdx = most) :
    ∃ t, P.Answers k readBytes.label s t ∧ s.Preserves t ∧
      t.memory = (P.entering k s).memory.write (P.blockAt used) input := by
  have follows := serves.follows (by decide : readBytes ≠ abort) at_k
  have target := labelPosition_of_at serves.distinct (placed.get (i := 1) rfl)
  have leads : Leads P.Goes (Register.IsKept []) (cells (P.blockAt used) size)
      ⟨j + 1, P.entering k s⟩ _ := .refl _
  obtain ⟨u, leads, memory, regs⟩ := leads.turns placed [.label readBytes.label, .move rax sysRead]
    [(rax, 0)]
    rfl rfl (by simp +decide) (by simp [sysRead])
  obtain ⟨v, answered, wrote, others⟩ := supplies.answers u (by simp [regs])
    (by simp [regs, entering_regs, source]) (by simp [regs, entering_regs, much])
  have address : u.regs rsi = P.blockAt used := by simp [regs, entering_regs, here]
  rw [address, memory] at wrote
  have at_call : P.code[j + 3]? = some .syscall := placed.get (i := 3) rfl
  have asks : P.Goes ⟨j + 3, u⟩ ⟨j + 4, v⟩ :=
    ⟨by simp [leaves, at_call], by simp [step, at_call, answered]⟩
  have keeps : ∀ r, r.IsKept [] → v.regs r = u.regs r := by
    intro r kept
    refine others r fun changed => ?_
    simp only [mem_cons, not_mem_nil, or_false] at changed
    rcases changed with rfl | rfl | rfl <;> simp +decide at kept
  have same : Set.EqOn v.memory u.memory (cells (P.blockAt used) size)ᶜ := by
    rw [wrote, memory]
    exact (Memory.write_eqOn _ _ _).mono (Set.compl_subset_compl.2 (cells_mono room))
  have leads := leads.trans ⟨.single asks, keeps, same⟩
  have returns := (follows.entered target).leads_back (placed.get (i := 4) rfl) leads (.inl rfl)
    (by simpa [stackCells] using fresh.apart.symm.mono_right s.stackCells_subset)
  obtain ⟨answers, preserves⟩ := follows.answers target returns (by simp) fun r saved => by
    have other : r ≠ rsp := by
      rintro rfl
      cases saved
    rw [Machine.set_regs, Function.update_of_ne other]
    exact leads.saved r saved not_mem_nil
  exact ⟨_, answers, preserves, wrote⟩

variable (services : P.HasServices heapSize) (placed : P.Holds k readTextCode)
  (reads : ∃ j, P.Holds j readBytesCode) (called : P.IsCalled readText [r12, r13]
  (P.heapCells heapSize) back c) (blocksAt : P.HasBlocks heapSize blocks used c.machine.memory)
  (asked : c.machine.regs rdi = most) (supplies : P.Supplies most input)
include services placed reads called blocksAt asked supplies

lemma readText_builds : P.Builds heapSize blocks used (most + 1).toNat [r12, r13] back c fun m a =>
    a = P.blockAt used ∧ m.IsFilled a (alignUp (most + 1).toNat 16) input := by
  obtain ⟨j, reading⟩ := reads
  refine called.builds services subset_rfl (by decide) blocksAt
    (show P.Holds k (framed readText [r12, r13] ((readTextCode.drop 5).take 9)) from placed)
    (by decide) (by decide) (rfl : _ = 5) (rfl : _ = 14) (most + 1).isLt (placed.get (i := 7) rfl)
    fun u enters serves => ?_
  have comes : P.Comes [r12, r13] u.ownCells _ _ := .refl ⟨k + 5, u⟩
  obtain ⟨v, comes, -, regs⟩ := comes.turns placed [.move r12 rdi, .lea rdi (.near r12 1)]
    [(r12, most), (rdi, most + 1)] rfl rfl (by simp +decide)
    (by simp +decide [enters.others, asked])
  refine ⟨v, comes, by simp [regs, -BitVec.toNat_add], fun w gets serves => ?_⟩
  have comes : P.Comes [r12, r13] (w.ownCells ∪ cells (P.blockAt used)
      (alignUp (most + 1).toNat 16)) _ _ :=
    .refl ⟨k + 8, w⟩
  obtain ⟨s, comes, memory, regs'⟩ := comes.turns placed
    [.move r13 rax, .move rdi standardInput, .move rsi r13, .move rdx r12]
    [(r13, P.blockAt used), (rdi, 0), (rsi, P.blockAt used), (rdx, most)] rfl rfl (by simp +decide)
    (by simp +decide [gets.block, gets.saved, regs, standardInput])
  have room : input.length ≤ alignUp (most + 1).toNat 16 := by
    have few := supplies.few
    have least := le_alignUp (most + 1).toNat 16
    have value := BitVec.toInt_eq_toNat_cond most
    split at value <;> bv_omega
  have own : s.ownCells = w.ownCells := Machine.ownCells_eq comes.stack
  have fresh : P.IsFresh heapSize used s (alignUp (most + 1).toNat 16) :=
    ⟨gets.mapped, own ▸ gets.apart, gets.small⟩
  obtain ⟨t, answers, preserves, wrote⟩ := (serves.congr comes.stack).reads fresh reading
    supplies room (placed.get (i := 12) rfl) (by simp [regs']) (by simp [regs']) (by simp [regs'])
  have pushed : Set.EqOn (P.entering (k + 12) s).memory s.memory w.ownCellsᶜ :=
    (entering_eqOn _ s).mono (Set.compl_subset_compl.2 (own ▸ s.stackCells_subset))
  have same : Set.EqOn t.memory s.memory
      (w.ownCells ∪ cells (P.blockAt used) (alignUp (most + 1).toNat 16))ᶜ := by
    intro x away
    rw [Set.compl_union] at away
    rw [wrote, Memory.write_eqOn _ _ _ fun near => away.2 (cells_mono room near)]
    exact pushed away.1
  have block : t.regs r13 = P.blockAt used := by simp +decide [preserves.saved, regs']
  obtain ⟨x, comes, memory', regs''⟩ := (comes.calls (placed.get (i := 12) rfl) id answers preserves
    same).turns placed (i := 13) [.move rax r13] [(rax, P.blockAt used)] rfl rfl (by simp +decide)
    (by simp [block])
  refine ⟨x, comes, by simp [regs''], ?_⟩
  have small := serves.small
  have fits := gets.small
  have zeros : ∀ y ∈ cells (P.blockAt used) (alignUp (most + 1).toNat 16),
      (P.entering (k + 12) s).memory y = 0 := by
    intro y near
    rw [pushed (Set.disjoint_right.1 gets.apart near), memory]
    exact gets.zeros y near
  rw [memory', wrote, regs'']
  simpa using Memory.IsFilled.of_write zeros
    (by simp only [Settings.maxHeapSize, UInt64.size] at small ⊢; omega)

/-- For every number but minus one, the program stops since the heap is exhausted, or the service
returns a string that nothing else shares a byte with: what was read, up to the first zero. For
minus one it returns the address where the next block starts. -/
theorem readText_owns (stops : P.Stops abort.label) :
    (most ≠ -1 → (∃ d, P.Reaches c d ∧ P.IsExhausted heapSize d) ∨ ∃ t, ∃ b : Block,
      P.Returns c ⟨back, t⟩ ∧ c.Leaves t ∧ t.regs rax = b.start ∧ 0 < b.size ∧ b.cells ⊆ cells
      (P.symbolAt Pool.heap) heapSize ∧ (∀ a ∈ blocks, Disjoint a.cells b.cells) ∧
      (∀ later m, P.HeapRun heapSize t.memory later m → ∀ a ∈ later, Disjoint b.cells a.cells) ∧
      input.length < b.size ∧ t.memory.HoldsText b.start (input.takeWhile (· != 0))) ∧
    (most = -1 → ∃ t, P.Returns c ⟨back, t⟩ ∧ t.regs rax = P.heapCursor t.memory ∧
      ∀ size back' e, P.AsksFor heapSize size back' e → e.machine.memory = t.memory →
        ¬P.Exceeds heapSize t.memory size → ∃ d, P.Returns e d ∧ d.machine.regs rax =
        t.regs rax) := by
  have builds := readText_builds services placed reads called blocksAt asked supplies
  rw [Builds] at builds
  have few := supplies.few
  have value := BitVec.toInt_eq_toNat_cond most
  constructor
  · intro other
    split at builds
    next fits =>
      obtain ⟨t, returns, leaves, blocksAt', -, result, filled⟩ := builds
      have least := le_alignUp (most + 1).toNat 16
      have room : input.length < alignUp (most + 1).toNat 16 := by
        split at value <;> bv_omega
      refine .inr ⟨t, ⟨P.blockAt used, _⟩, returns, leaves, result, (Nat.zero_le _).trans_lt room,
        services.block_subset fits,
        fun a mem => (List.pairwise_append.1 blocksAt'.apart).2.2 a mem _
        (List.mem_singleton.2 rfl), ?_, room, result ▸ filled.holdsText room⟩
      intro later m run a mem
      obtain ⟨_, all⟩ := run.hasBlocks services.toHasHeap stops services.high blocksAt'
      exact (List.pairwise_append.1 all.apart).2.2 _
        (List.mem_append_right _ (List.mem_singleton.2 rfl)) a mem
    next => exact .inl builds
  · rintro rfl
    have none : alignUp ((-1 : Word) + 1).toNat 16 = 0 := by decide
    rw [none, Nat.add_zero, if_pos blocksAt.most] at builds
    obtain ⟨t, returns, -, blocksAt', -, result, -⟩ := builds
    refine ⟨t, returns, result.trans blocksAt'.taken.symm, fun size back' e asks memory fits => ?_⟩
    rw [← memory] at blocksAt' fits
    obtain ⟨d, returns', -, next, -⟩ := blocksAt'.returns services.toHasHeap asks fits
    exact ⟨d, returns', next.trans result.symm⟩

end

/-- For minus one, what is returned has not been taken from the heap. -/
theorem readText_owns_minusOne : ∃ t, (fortyBytes (readBytesCode ++ readTextCode)).Returns
    (asking 34 (-1)) ⟨0, t⟩ ∧ t.regs rax = (fortyBytes (readBytesCode ++ readTextCode)).heapCursor
    t.memory := by
  have distinct : (fortyBytes (readBytesCode ++ readTextCode)).HasDistinctLabels :=
    Process.hasDistinctLabels_of_nodup (by decide)
  have silent : (fortyBytes (readBytesCode ++ readTextCode)).Supplies (-1) [] := by
    refine ⟨Nat.zero_le _, fun s _ _ _ => ⟨s, rfl, ?_, fun _ _ => rfl⟩⟩
    funext x
    simp [Memory.write]
  obtain ⟨t, returns, result, -⟩ := (readText_owns (k := 33)
    (fortyBytes_hasServices distinct (by decide)) List.prefix_rfl ⟨28, List.prefix_append _ _⟩
    (asking_isCalled distinct (by decide) 34 (-1) rfl (by decide))
    (.initial (by decide)) rfl silent (Process.stops_of_outside rfl)).2 rfl
  exact ⟨t, returns, result⟩

end AgentCompiler
