import AgentCompiler.Proofs.RoutineFrames

/-!
What a call sequence does before and behind its call. Arguments are read from registers that none of
them is passed in, so each arrives as it was. What is pushed before the call is popped behind it in
the opposite order, so live values survive any callee that keeps to the calling convention.
-/

namespace AgentCompiler

open Process List Option Register
open Register (rax rbp rsp)
open BitVec (ofNat)

def Argument.value (P : Process) (s : Machine) : Argument → Word
  | reg r => s.regs r
  | imm v => v.toBitVec
  | address id addend => P.symbolAt id + BitVec.ofInt 64 addend.toInt

def Argument.IsReadFrom (regs : List Register) (arg : Argument) : Prop := ∀ r,
    arg = .reg r → r ∈ regs

variable {P : Process} {s t u : Machine} {args : List Argument} {arg : Argument}
  {regs dsts : List Register} {value : Register → Word} {top : Word}

lemma Argument.value_congr (same : ∀ r, arg = .reg r → t.regs r = s.regs r) :
    arg.value P t = arg.value P s := by
  cases arg with
  | reg r => exact same r rfl
  | imm | address => rfl

namespace Process

lemma execute_pass (arg : Argument) (dst : Register) (s : Machine) :
    ∃ t, P.execute (arg.pass dst) s = some t ∧ t.memory = s.memory ∧
      t.regs = Function.update s.regs dst (arg.value P s) := by
  cases arg with
  | reg src =>
    by_cases same : src = dst
    · exact ⟨s, by rw [Argument.pass, if_pos same, execute_nil],
        rfl, by simp [Argument.value, same]⟩
    · exact ⟨s.set dst (s.regs src), by simp [Argument.pass, same], rfl, rfl⟩
  | imm v => exact ⟨s.set dst v.toBitVec, by simp [Argument.pass], rfl, rfl⟩
  | address id addend =>
    exact ⟨s.set dst (P.address s (.symbol id addend)), by simp [Argument.pass],
      rfl, by simp [Argument.value]⟩

lemma execute_passes (distinct : dsts.Nodup) (args : List Argument) (s : Machine) :
    ∃ t, P.execute ((args.zip dsts).flatMap fun (arg, dst) => arg.pass dst) s = some t ∧
      t.memory = s.memory ∧ s.ChangesOnly dsts t ∧
      ∀ (i : Nat) (arg : Argument) (dst : Register), args[i]? = some arg → dsts[i]? = some dst →
        (∀ r, arg = .reg r → r ∉ dsts) → t.regs dst = arg.value P s := by
  induction args generalizing dsts s with
  | nil => exact ⟨s, rfl, rfl, fun _ _ => rfl, by simp⟩
  | cons arg rest ih =>
    cases dsts with
    | nil => exact ⟨s, rfl, rfl, fun _ _ => rfl, by simp⟩
    | cons dst dsts =>
      obtain ⟨fresh, distinct⟩ := nodup_cons.1 distinct
      obtain ⟨u, first, memory, regs⟩ := execute_pass (P := P) arg dst s
      have others : ∀ r, r ≠ dst → u.regs r = s.regs r := fun r other => by
        rw [regs, Function.update_of_ne other]
      obtain ⟨t, runs, memory', changes, values⟩ := ih distinct u
      refine ⟨t, ?_, memory'.trans memory, fun r outside => ?_, fun i a d given passes away => ?_⟩
      · rw [zip_cons_cons, flatMap_cons, execute_append, first, bind_some, runs]
      · rw [mem_cons, not_or] at outside
        rw [changes r outside.2, others r outside.1]
      · cases i with
        | zero =>
          obtain rfl := some.inj given
          obtain rfl := some.inj passes
          rw [changes dst fresh, regs, Function.update_self]
        | succ i =>
          simp only [mem_cons, not_or] at away
          rw [values i a d given passes fun r source => (away r source).2]
          exact Argument.value_congr fun r source => others r (away r source).1

/-- Words that stand one below the other come back into the registers that they were pushed from. -/
lemma execute_pops (few : regs.length < 0x1000000)
    (plain : rsp ∉ regs) (distinct : regs.Nodup)
    (mapped : ∀ x ∈ cells (top - ofNat 64 (8 * regs.length)) (8 * regs.length), P.mapped x)
    (stack : u.regs rsp = top - ofNat 64 (8 * regs.length)) (words : ∀ i r, regs[i]? = some r →
      u.memory.load (top - ofNat 64 (8 * (i + 1))) .qword = value r) :
    ∃ t, P.execute (regs.reverse.map .pop) u = some t ∧ t.memory = u.memory ∧ t.regs rsp = top ∧
      u.ChangesOnly (rsp :: regs) t ∧ ∀ r ∈ regs, t.regs r = value r := by
  induction regs using List.reverseRecOn generalizing u with
  | nil => exact ⟨u, rfl, rfl, by simpa using stack, fun _ _ => rfl, by simp⟩
  | append_singleton rest r ih =>
    obtain ⟨distinct, -, fresh⟩ := nodup_append.1 distinct
    replace fresh : r ∉ rest := fun inside => fresh r inside r (by simp) rfl
    rw [mem_append, mem_singleton, not_or] at plain
    rw [length_append, length_singleton] at few mapped stack
    have word : u.memory.load (u.regs rsp) .qword = value r := by
      rw [stack, ← words rest.length r (by simp)]
    let v := (u.set rsp (u.regs rsp + 8)).set r (value r)
    have pops : P.effect (.pop r) u = some v := by
      have inside : ∀ x ∈ cells (u.regs rsp) Width.qword.bytes, P.mapped x := fun x near =>
        mapped x (stack ▸ cells_mono (by simp only [Width.bytes]; omega) near)
      simp only [effect, read_of_mapped inside, map_some, word, v]
    have above : v.regs rsp = top - ofNat 64 (8 * rest.length) := by
      simp only [v, Machine.set_regs, Function.update_of_ne plain.2, Function.update_self, stack,
        mul_add, BitVec.ofNat_add]
      bv_omega
    obtain ⟨t, runs, memory, emptied, changes, values⟩ := ih (u := v) (by omega) plain.1 distinct
      (fun x near => mapped x (cells_below_subset (by omega) (by omega)
      (by simp only [UInt64.size]; omega) near)) above fun i reg found => words i reg (by
        rw [getElem?_append_left (List.getElem?_eq_some_iff.1 found).1, found])
    refine ⟨t, ?_, memory, emptied, fun reg outside => ?_, fun reg mem => ?_⟩
    · rw [reverse_append, reverse_singleton, singleton_append, map_cons, execute_cons, pops,
        bind_some, runs]
    · simp only [mem_cons, mem_append, not_mem_nil, or_false, not_or] at outside
      rw [changes reg (by simp [outside])]
      simp [v, outside]
    · rcases mem_append.1 mem with earlier | last
      · exact values reg earlier
      · obtain rfl := mem_singleton.1 last
        rw [changes reg (by simp [fresh, Ne.symm plain.2])]
        simp [v]

lemma execute_adjust {op : AluOp} (moves : op = .sub ∨ op = .add) (isOdd : Bool) (s : Machine) :
    ∃ t, P.execute (if isOdd then [.arith op rsp (.imm 8)] else []) s = some t ∧
      t.memory = s.memory ∧ s.ChangesOnly [rsp] t ∧ t.regs rsp = op.result (s.regs rsp)
      (if isOdd then 8 else 0) := by
  cases isOdd with
  | false =>
    exact ⟨s, rfl, rfl, fun _ _ => rfl, by obtain rfl | rfl := moves <;> simp [AluOp.result]⟩
  | true =>
    obtain rfl | rfl := moves <;> refine ⟨_, rfl, rfl, fun r outside => ?_, by simp⟩ <;>
      simp [mem_singleton.not.1 outside]

end Process

def Frame.pushed (f : Frame) : List Register := f.live.filter isCallerSaved

lemma Frame.pushed_sublist (f : Frame) : f.pushed.Sublist [.r10, .r11] :=
  (take_sublist f.depth Register.scratch).filter isCallerSaved

section

variable {saved : List Register}

/-- Bytes that a call sequence takes on the stack. -/
def pushedSize (saved : List Register) : Nat := 8 * saved.length + if saved.length % 2 ==
    1 then 8 else 0

lemma pushedSize_facts (few : saved.length ≤ 2) :
    8 * saved.length ≤ pushedSize saved ∧ (pushedSize saved = 0 ∨ pushedSize saved = 16) := by
  have count : saved.length = 0 ∨ saved.length = 1 ∨ saved.length = 2 := by omega
  rcases count with none | one | two <;> simp [pushedSize, *]

def beforeCall (saved : List Register) (args : List Argument) : Code :=
  saved.map .push ++ (if saved.length % 2 == 1 then [.arith .sub rsp (.imm 8)] else []) ++
    passArguments args

def behindCall (saved : List Register) : Code :=
  (if saved.length % 2 == 1 then [.arith .add rsp (.imm 8)] else []) ++ saved.reverse.map .pop

lemma callSequence_eq (f : Frame) (target : Label) (args : List Argument) :
    callSequence f.live target args = beforeCall f.pushed args ++ .call target ::
        behindCall f.pushed := by
  simp [callSequence, beforeCall, behindCall, Frame.pushed]

lemma execute_before_call (part : saved.Sublist [.r10, .r11]) (args : List Argument)
    (mapped : ∀ x ∈ cells (s.regs rsp - 16) 16, P.mapped x) : ∃ t, P.execute (beforeCall saved args)
      s = some t ∧ t.regs rsp = s.regs rsp - ofNat 64 (pushedSize saved) ∧
      s.ChangesOnly (rsp :: Register.arguments) t ∧
      (∀ (i : Nat) (arg : Argument) (dst : Register), args[i]? = some arg → Register.arguments[i]? =
        some dst → arg.IsReadFrom (Register.scratch ++ [.stateBase, .message]) → t.regs dst =
        arg.value P s) ∧
      (∀ i r, saved[i]? = some r →
        t.memory.load (s.regs rsp - ofNat 64 (8 * (i + 1))) .qword = s.regs r) ∧
      Set.EqOn t.memory s.memory (cells (s.regs rsp - 16) 16)ᶜ := by
  have few : saved.length ≤ 2 := part.length_le
  have plain : rsp ∉ saved := fun mem => absurd (part.subset mem) (by decide)
  have region : cells (s.regs rsp - ofNat 64 (8 * saved.length)) (8 * saved.length) ⊆
      cells (s.regs rsp - 16) 16 := cells_below_subset (a := 16) (by omega) (by omega) (by decide)
  obtain ⟨t1, pushes⟩ : ∃ t, P.execute (saved.map Instruction.push) s = some t :=
    exists_pushes (by omega) fun x near => mapped x (region near)
  obtain ⟨bottom, changes1, words, same⟩ := execute_pushes plain (by omega) pushes
  obtain ⟨t2, adjusts, memory2, changes2, padded⟩ := execute_adjust (P := P) (.inl rfl)
    (saved.length % 2 == 1) t1
  obtain ⟨t, passes, memory3, changes3, values⟩ :=
    execute_passes (P := P) (show Register.arguments.Nodup by decide) args t2
  have sources : ∀ r ∈ Register.scratch ++ [.stateBase, .message], r ∉ rsp ::
      Register.arguments := by decide
  refine ⟨t, ?_, ?_, fun r outside => ?_, fun i arg dst given passed source => ?_, ?_, ?_⟩
  · rw [beforeCall, execute_append, execute_append, pushes, bind_some, adjusts, bind_some]
    exact passes
  · rw [changes3 rsp (by decide), padded, bottom, pushedSize, BitVec.ofNat_add]
    simp only [AluOp.result]
    split <;> bv_omega
  · rw [mem_cons, not_or] at outside
    rw [changes3 r outside.2, changes2 r (by simp [outside]), changes1 r (by simp [outside])]
  · have away := fun r same => not_or.1 (mem_cons.not.1 (sources r (source r same)))
    rw [values i arg dst given passed fun r same => (away r same).2]
    exact Argument.value_congr fun r same => by
      rw [changes2 r (by simp [away r same]), changes1 r (by simp [away r same])]
  · rw [memory3, memory2]
    exact words
  · rw [memory3, memory2]
    exact same.mono (Set.compl_subset_compl.2 region)

lemma execute_after_call (part : saved.Sublist [.r10, .r11])
    (mapped : ∀ x ∈ cells (top - 16) 16, P.mapped x)
    (stack : u.regs rsp = top - ofNat 64 (pushedSize saved)) (words : ∀ i r, saved[i]? = some r →
      u.memory.load (top - ofNat 64 (8 * (i + 1))) .qword = value r) :
    ∃ t, P.execute (behindCall saved) u = some t ∧ t.memory = u.memory ∧ t.regs rsp = top ∧
      u.ChangesOnly (rsp :: saved) t ∧ ∀ r ∈ saved, t.regs r = value r := by
  have few : saved.length ≤ 2 := part.length_le
  have plain : rsp ∉ saved := fun mem => absurd (part.subset mem) (by decide)
  obtain ⟨t1, adjusts, memory1, changes1, raised⟩ := execute_adjust (P := P) (.inr rfl)
    (saved.length % 2 == 1) u
  have bottom : t1.regs rsp = top - ofNat 64 (8 * saved.length) := by
    rw [raised, stack, pushedSize, BitVec.ofNat_add]
    simp only [AluOp.result]
    split <;> bv_omega
  obtain ⟨t, pops, memory, emptied, changes, values⟩ := execute_pops (P := P) (by omega) plain
    (part.nodup (by decide)) (fun x near => mapped x
      (cells_below_subset (a := 16) (by omega) (by omega) (by decide) near)) bottom
      (memory1 ▸ words)
  refine ⟨t, ?_, memory.trans memory1, emptied, fun r outside => ?_, values⟩
  · rw [behindCall, execute_append, adjusts, bind_some, pops]
  · rw [changes r outside]
    exact changes1 r fun mem => outside (mem_cons.2 (.inl (mem_singleton.1 mem)))

end

/-- What may not be different behind a call sequence: the values that are live, the state, the
message and the frame. -/
def Frame.kept (f : Frame) : List Register := f.live ++ [.stateBase, .message, rbp]

lemma Frame.isCalleeSaved_of_kept {f : Frame} {reg : Register} (kept : reg ∈ f.kept)
    (unsaved : reg ∉ f.pushed) : reg.isCalleeSaved = true := by
  rcases mem_append.1 kept with live | fixed
  · have caller := fun caller => unsaved (mem_filter.2 ⟨live, caller⟩)
    have scratch := mem_of_mem_take live
    revert caller scratch
    cases reg <;> decide
  · revert fixed
    cases reg <;> decide

/-- If the callee keeps to the calling convention and leaves the words on the stack alone, all that
was live is back behind the sequence. -/
lemma Frame.execute_around_call (f : Frame) (args : List Argument)
    (mapped : ∀ x ∈ cells (s.regs rsp - 16) 16, P.mapped x) :
    ∃ t, P.execute (beforeCall f.pushed args) s = some t ∧
      (∀ (i : Nat) (arg : Argument) (dst : Register), args[i]? = some arg →
        arguments[i]? = some dst → arg.IsReadFrom (Register.scratch ++ [.stateBase, .message]) →
        t.regs dst = arg.value P s) ∧
      ∀ u : Machine, t.Preserves u → Set.EqOn u.memory t.memory
          (cells (t.regs rsp) (s.regs rsp - t.regs rsp).toNat) →
        ∃ v, P.execute (behindCall f.pushed) u = some v ∧
          v.regs rax = u.regs rax ∧ ∀ reg ∈ rsp :: f.kept, v.regs reg = s.regs reg := by
  have part := f.pushed_sublist
  have callee : ∀ reg ∈ f.kept, reg ∉ f.pushed → reg.isCalleeSaved = true := fun _ =>
    f.isCalleeSaved_of_kept
  generalize f.pushed = saved at part callee ⊢
  have bound := pushedSize_facts part.length_le
  obtain ⟨t, before, bottom, changes, values, words, -⟩ := execute_before_call part args mapped
  refine ⟨t, before, values, fun u preserves same => ?_⟩
  have distance : (s.regs rsp - t.regs rsp).toNat = pushedSize saved := by
    rw [bottom]
    bv_omega
  rw [distance, bottom] at same
  have pushed : ∀ i reg, saved[i]? = some reg →
      u.memory.load (s.regs rsp - ofNat 64 (8 * (i + 1))) .qword = s.regs reg := by
    intro i reg found
    have index := (List.getElem?_eq_some_iff.1 found).1
    rw [← words i reg found]
    exact Memory.load_congr (same.mono (cells_below_subset (by omega)
      (by simp only [Width.bytes]; omega) (by simp only [UInt64.size]; omega)))
  obtain ⟨v, behind, -, stack, others, back⟩ := execute_after_call part mapped
    (preserves.stack.trans bottom) pushed
  have result : rax ∉ rsp :: saved := fun mem => absurd ((part.cons_cons rsp).subset mem)
    (by decide)
  refine ⟨v, behind, others rax result, forall_mem_cons.2 ⟨stack, fun reg kept => ?_⟩⟩
  by_cases pushed : reg ∈ saved
  · exact back reg pushed
  have callee := callee reg kept pushed
  have free : reg ∉ rsp :: arguments := by
    revert callee
    cases reg <;> decide
  rw [others reg fun used => (mem_cons.1 used).elim (fun same => free (same ▸ mem_cons_self ..))
    pushed, preserves.saved reg callee, changes reg free]

/-- A call passes every argument as it is before the sequence, and brings back what was live; more
arguments than there are registers for are refused. -/
theorem Lower.call_passes_and_restores (r : Routine) (target : Label) (args : List Argument)
    (f : Frame) (p : Pool) :
    (args.length ≤ Register.arguments.length →
      (∀ arg ∈ args, arg.IsReadFrom (Register.scratch ++ [.stateBase, .message])) →
      ∃ before behind, call r target args f p = .ok ((before ++ .call target :: behind, f), p) ∧
        ∀ (P : Process) (s : Machine), (∀ x ∈ cells (s.regs rsp - 16) 16, P.mapped x) →
          ∃ t, P.execute before s = some t ∧
            (∀ (i : Nat) (arg : Argument), args[i]? = some arg →
              ∃ dst, Register.arguments[i]? = some dst ∧ t.regs dst = arg.value P s) ∧
            ∀ u : Machine, t.Preserves u → Set.EqOn u.memory t.memory
                (cells (t.regs rsp) (s.regs rsp - t.regs rsp).toNat) →
              ∃ v, P.execute behind u = some v ∧ v.regs rax = u.regs rax ∧
                ∀ reg ∈ rsp :: (f.live ++ [.stateBase, .message, rbp]), v.regs reg = s.regs reg) ∧
    (Register.arguments.length < args.length → call r target args f p =
      .error (.exhausted .codegen s!"call arguments in {r.name}" args.length
      Register.arguments.length)) := by
  refine ⟨fun few sources => ⟨beforeCall f.pushed args, behindCall f.pushed, ?_,
    fun P s mapped => ?_⟩, fun many => ?_⟩
  · rw [← callSequence_eq]
    simp only [call, if_neg (Nat.not_lt.2 few)]
    rfl
  · obtain ⟨t, before, values, back⟩ := f.execute_around_call args mapped
    refine ⟨t, before, fun i arg given => ?_, back⟩
    have index := (List.getElem?_eq_some_iff.1 given).1
    exact ⟨_, List.getElem?_eq_getElem (index.trans_le few), values i arg _ given
      (List.getElem?_eq_getElem _) (sources arg (List.mem_of_getElem? given))⟩
  · simp only [call, if_pos many]
    rfl

def idleRoutine : Routine := ⟨"idle", ⟨"a", "Idle", 0, 0, Record.pack []⟩, ⟨"Idle", [], [], []⟩,
    none, .status, ⟨0⟩⟩

/-- All scratch registers are in use. One of them is passed, the callee destroys two, and they are
back. -/
theorem Lower.call_passes_and_restores_all : ∃ (P : Process) (s t v : Machine)
    (before behind : Code), call idleRoutine ⟨7⟩ [.reg r11, .imm 5] { depth := 5 } .initial =
      .ok ((before ++ .call ⟨7⟩ :: behind, { depth := 5 }), .initial) ∧
    P.execute before s = some t ∧ t.regs rdi = s.regs r11 ∧ t.regs rsi = 5 ∧
    P.execute behind (((t.set r10 0).set r11 0).set rax 9) = some v ∧ v.regs rax = 9 ∧
    ∀ reg ∈ Register.scratch, v.regs reg = s.regs reg := by
  let P : Process := ⟨[], BitVec.ofNat 64, fun _ => 0, fun _ => true, fun _ => none, fun _ => none⟩
  let s : Machine := ⟨fun r => BitVec.ofNat 64 (r.number + 4096), .undefined, fun _ => 0⟩
  obtain ⟨before, behind, runs, works⟩ :=
    (call_passes_and_restores idleRoutine ⟨7⟩ [.reg r11, .imm 5]
    { depth := 5 } .initial).1 (by decide) (by simp +decide [Argument.IsReadFrom])
  obtain ⟨t, first, values, back⟩ := works P s fun _ _ => rfl
  have preserves : t.Preserves (((t.set r10 0).set r11 0).set rax 9) :=
    ⟨by simp, fun r saved => by cases r <;> first | rfl | cases saved⟩
  obtain ⟨v, last, result, same⟩ := back _ preserves fun _ _ => rfl
  obtain ⟨_, known, fifth⟩ := values 0 _ rfl
  obtain rfl := Option.some.inj known
  obtain ⟨_, known, five⟩ := values 1 _ rfl
  obtain rfl := Option.some.inj known
  have live : Frame.live { depth := 5 } = Register.scratch := rfl
  exact ⟨P, s, t, v, before, behind, runs, first, fifth, five, last, by simpa using result,
    fun reg mem => same reg (by simp [live, mem])⟩

end AgentCompiler
