import AgentCompiler.Proofs.CallSequences
import AgentCompiler.Proofs.Territory

/-!
Scratch registers are used as a stack. An expression takes the next one for its value, and every
register that is given back is the newest in use. The code of an expression leaves the registers
below alone; only those that a callee may change are different for a while, between the call and the
pops behind it.
-/

namespace AgentCompiler

open Instruction List Register
open Register (rax rcx rdx rbp rsp)

variable {kept few : List Register} {code first second before behind : Code} {f g : Frame}
  {reg : Register} {n : Nat}

/-- Registers that the code of an expression may change while so many scratch registers are in
use. -/
def temporaries (depth : Nat) : List Register := [rax, rcx, rdx] ++ Register.scratch.drop depth

lemma scratch_facts (taken : Register.scratch[n]? = some reg) :
    reg ∈ Register.scratch.drop n ∧ reg ∉ temporaries (n + 1) := by
  rcases n with _ | _ | _ | _ | _ | n <;> simp [Register.scratch] at taken <;> subst
    taken <;> decide

lemma temporaries_subset {n m : Nat} (deeper : n ≤ m) : temporaries m ⊆ temporaries n :=
  append_subset.2 ⟨subset_append_left .., fun _ inside =>
    mem_append_right _ ((drop_sublist_drop_left _ deeper).subset inside)⟩

/-- A register that is taken may change, and so may the others from then on; the code of later
values keeps it. -/
lemma Frame.Takes.reg_facts {f f' : Frame} (takes : f.Takes reg f') :
    reg ∈ temporaries f.depth ∧ reg ∉ temporaries f'.depth ∧ reg ∉ [rax, rcx, rdx] := by
  obtain ⟨mem, kept⟩ := scratch_facts takes.reg_eq
  rw [takes.depth_eq]
  exact ⟨mem_append_right _ mem, kept, fun inside => kept (mem_append_left _ inside)⟩

lemma temporaries_spare (n : Nat) : ∀ r ∈ [stateBase, .message, rbp, rsp], r ∉ temporaries n := by
  have spared : ∀ r ∈ [stateBase, .message, rbp, rsp], r ∉ temporaries 0 := by decide
  exact fun r fixed inside => spared r fixed (temporaries_subset (Nat.zero_le n) inside)

lemma Frame.live_spared {f : Frame} (live : reg ∈ f.live) : reg ∉ temporaries f.depth := by
  have apart : List.Disjoint (Register.scratch.take f.depth) (Register.scratch.drop f.depth) :=
    disjoint_take_drop (by decide) le_rfl
  rw [temporaries, mem_append, not_or]
  refine ⟨fun inside => ?_, apart live⟩
  have scratch := mem_of_mem_take live
  revert inside scratch
  cases reg <;> decide

/-- What surrounds a call changes some registers only by popping what it has pushed. They have their
values back if the callee keeps to the calling convention and leaves the words on the stack alone.
-/
structure Restores (kept : List Register) (before behind : Code) : Prop where
  front : ∀ i ∈ before, ∀ reg ∈ i.changed, reg ∉ kept
  back : ∀ i ∈ behind, ∀ reg ∈ i.changed, reg ∈ kept → reg.isCallerSaved = true ∧ i = .pop reg ∧
    .push reg ∈ before
  values : ∀ (P : Process) (s : Machine), (∀ x ∈ cells (s.regs rsp - 16) 16, P.mapped x) →
    ∃ t, P.execute before s = some t ∧ ∀ u : Machine, t.Preserves u → Set.EqOn u.memory t.memory
        (cells (t.regs rsp) (s.regs rsp - t.regs rsp).toNat) →
      ∃ v, P.execute behind u = some v ∧ ∀ reg ∈ kept, v.regs reg = s.regs reg

/-- Code that leaves some registers alone, except around its calls. -/
inductive Spares (kept : List Register) : Code → Prop
  | plain {code : Code} : (∀ i ∈ code, ∀ reg ∈ i.changed, reg ∉ kept) → Spares kept code
  | call {before behind : Code} (target : Label) :
      Restores kept before behind → Spares kept (before ++ .call target :: behind)
  | append {first second : Code} : Spares kept first → Spares kept second →
      Spares kept (first ++ second)

lemma Restores.mono (h : Restores kept before behind) (fewer : few ⊆ kept) :
    Restores few before behind where
  front i mem reg changed inside := h.front i mem reg changed (fewer inside)
  back i mem reg changed inside := h.back i mem reg changed (fewer inside)
  values P s mapped := by
    obtain ⟨t, runs, returns⟩ := h.values P s mapped
    refine ⟨t, runs, fun u preserves same => ?_⟩
    obtain ⟨v, runs, values⟩ := returns u preserves same
    exact ⟨v, runs, fun reg inside => values reg (fewer inside)⟩

namespace Spares

lemma mono (h : Spares kept code) (fewer : few ⊆ kept) : Spares few code := by
  induction h with
  | plain apart =>
    exact .plain fun i mem reg changed inside => apart i mem reg changed (fewer inside)
  | call target restores => exact .call target (restores.mono fewer)
  | append _ _ first second => exact first.append second

lemma untouched (h : Spares kept code) (inside : reg ∈ kept) (saved : reg.isCalleeSaved = true) :
    ∀ i ∈ code, reg ∉ i.changed := by
  have callee : ¬reg.isCallerSaved = true := by simp [isCallerSaved, saved]
  induction h with
  | plain apart => exact fun i mem changed => apart i mem reg changed inside
  | call target restores =>
    intro i mem changed
    rw [mem_append, mem_cons] at mem
    rcases mem with ahead | rfl | later
    · exact restores.front i ahead reg changed inside
    · exact callee (mem_filter.1 changed).2
    · exact callee (restores.back i later reg changed inside).1
  | append _ _ first second => exact forall_mem_append.2 ⟨first, second⟩

end Spares

namespace Frame

lemma kept_mono (deeper : f.depth ≤ g.depth) : f.kept ⊆ g.kept :=
  append_subset.2 ⟨fun _ inside => mem_append_left _ (take_subset_take_left _ deeper inside),
    subset_append_right ..⟩

lemma notMem_kept (free : reg ∈ temporaries f.depth) : reg ∉ f.kept := fun inside =>
  (mem_append.1 inside).elim (fun live => f.live_spared live free) fun fixed =>
    temporaries_spare f.depth reg (mem_append_left [rsp] fixed) free

lemma spares_of_temporaries (f : Frame) (each : ∀ i ∈ code, ∀ reg ∈ i.changed,
    reg ∈ temporaries f.depth) :
    Spares f.kept code :=
  .plain fun i mem reg changed => notMem_kept (each i mem reg changed)

lemma Takes.kept_mono (takes : f.Takes reg g) : f.kept ⊆ g.kept := Frame.kept_mono
    (takes.depth_eq ▸ Nat.le_succ _)

lemma Takes.spares (takes : f.Takes reg g) (each : ∀ i ∈ code, i.changed ⊆ [reg]) :
    Spares f.kept code :=
  f.spares_of_temporaries fun i mem _ changed =>
    mem_singleton.1 (each i mem changed) ▸ takes.reg_facts.1

lemma changed_beforeCall {saved : List Register} {args : List Argument} {i : Instruction}
    (mem : i ∈ beforeCall saved args) (changed : reg ∈ i.changed) : reg ∈ rsp :: arguments := by
  simp only [beforeCall, mem_append, mem_map] at mem
  obtain (⟨r, -, rfl⟩ | adjusts) | passes := mem
  · exact mem_cons.2 (.inl (mem_singleton.1 changed))
  · split at adjusts
    · obtain rfl := mem_singleton.1 adjusts
      exact mem_cons.2 (.inl (mem_singleton.1 changed))
    · simp at adjusts
  · obtain ⟨dst, argument, ⟨src, rfl⟩ | ⟨value, rfl⟩ | ⟨s, addend, -, rfl⟩⟩ :=
      mem_passArguments passes <;>
      exact mem_cons_of_mem _ (mem_singleton.1 changed ▸ argument)

lemma spares_call (f : Frame) (target : Label) (args : List Argument) :
    Spares f.kept (callSequence f.live target args) := by
  have fixed : ∀ reg ∈ rsp :: arguments, reg ∉ Register.scratch ++
      [.stateBase, .message, rbp] := by decide
  have all : f.kept ⊆ Register.scratch ++ [.stateBase, .message, rbp] :=
    append_subset.2 ⟨fun _ live => mem_append_left _ (mem_of_mem_take live), subset_append_right ..⟩
  rw [callSequence_eq]
  refine .call target ⟨fun i mem reg changed kept => fixed reg (changed_beforeCall mem changed)
    (all kept), fun i mem reg changed kept => ?_, fun P s mapped => ?_⟩
  · have other : reg ≠ rsp := fun same => fixed reg (same ▸ mem_cons_self ..) (all kept)
    simp only [behindCall, mem_append, mem_map, mem_reverse] at mem
    obtain adjusts | ⟨r, pushed, rfl⟩ := mem
    · split at adjusts
      · obtain rfl := mem_singleton.1 adjusts
        exact absurd (mem_singleton.1 changed) other
      · simp at adjusts
    · obtain rfl : reg = r := (mem_cons.1 changed).resolve_right fun same =>
        other (mem_singleton.1 same)
      refine ⟨(mem_filter.1 pushed).2, rfl, ?_⟩
      simp only [beforeCall, append_assoc, mem_append, mem_map]
      exact .inl ⟨reg, pushed, rfl⟩
  · obtain ⟨t, runs, -, returns⟩ := f.execute_around_call args mapped
    refine ⟨t, runs, fun u preserves same => ?_⟩
    obtain ⟨v, runs, -, values⟩ := returns u preserves same
    exact ⟨v, runs, fun reg kept => values reg (mem_cons_of_mem _ kept)⟩

end Frame

@[simp] lemma changed_loadValue (type : ValueType) (dst : Register) (src : Address) :
    (loadValue type dst src).changed = [dst] := by cases type <;> rfl

namespace Lower

variable {plan : Plan} {r : Routine} {f' : Frame} {p q : Pool} {v : Value}

attribute [local simp] changed move arith zero check Place.operand

lemma callValue_spares {target : Label} {args : List Argument} {kind : ValueKind}
    (h : callValue r target args kind f p = .ok (((v, code), f'), q)) : Spares f.kept code := by
  have takes := callValue_takes h
  obtain ⟨reg, -, -, -, rfl, rfl⟩ := callValue_ok h
  exact (f.spares_call target args).append (takes.spares (by simp))

lemma applyBinary_spares {op : BinaryOperator} {a b : Value} {f1 f2 : Frame} (ha : f.Takes a.reg f1)
    (hb : f1.Takes b.reg f2) (h : applyBinary r op a b f2 p = .ok (((v, code), f'), q)) :
    Spares f.kept code := by
  have takes := applyBinary_takes ha hb h
  have result := takes.reg_facts.1
  have volatile : [rax, rcx, rdx] ⊆ temporaries f.depth := subset_append_left ..
  simp only [cons_subset, nil_subset, and_true] at volatile
  obtain ⟨-, ⟨-, what, texts⟩ | ⟨-, cond, -, rfl, -, -, rfl, rfl⟩ | ⟨-, -, -, rfl, what, e,
      arith, -⟩⟩ :=
    applyBinary_ok h
  · obtain ⟨service, first, kind, last, call, -, rfl, ending⟩ := applyToTexts_ok texts
    have back : f.Rests (f2.release [b.reg, a.reg]) := (ha.trans hb.release).release
    refine ((callValue_spares call).mono (Frame.kept_mono back.depth.ge)).append (takes.spares ?_)
    rcases ending with rfl | rfl <;> simp
  · exact takes.spares (by simp [compareCode])
  · obtain ⟨isQuotient, rfl, division⟩ | ⟨-, -, -, rfl, rfl, rfl⟩ := arithmetic_ok arith
    · obtain ⟨message, s, -, rfl, nonzero, s1, general, s2, done, -, -, -, rfl⟩ :=
        division_ok division
      have deeper : f.depth ≤ f2.depth := by
        rw [hb.depth_eq, ha.depth_eq]
        omega
      have stop := (f2.spares_call Service.abort.label [.address message 0]).mono
        (Frame.kept_mono deeper)
      refine ((takes.spares (by simp)).append stop).append (f.spares_of_temporaries ?_)
      cases isQuotient <;> simp [result, volatile]
    · refine f.spares_of_temporaries ?_
      cases op <;> simp [arithmeticCode, result, volatile]

section

variable {args : List Expr}
  (ih : ∀ e ∈ args, ∀ {f f' : Frame} {p q : Pool} {v : Value} {code : Code},
  expression plan r e f p = .ok (((v, code), f'), q) → Spares f.kept code)
include ih

lemma operands_spares {callee : String} {index : Nat} {wants : List ValueKind}
    {regs : List Register} (h : operands plan r callee index args wants f p =
    .ok (((regs, code), f'), q)) : Spares f.kept code := by
  induction args generalizing index wants regs code f p with
  | nil =>
    obtain ⟨-, rfl, -, -⟩ := operands_of_nil (.inl rfl) h
    exact .plain (by simp)
  | cons e rest more =>
    cases wants with
    | nil =>
      obtain ⟨-, rfl, -, -⟩ := operands_of_nil (.inr rfl) h
      exact .plain (by simp)
    | cons want wants =>
      obtain ⟨v, first, f1, p1, others, tail, begins, -, htail, -, rfl⟩ := operands_cons h
      have later := more (fun e mem => ih e (mem_cons_of_mem _ mem)) htail
      exact (ih e (mem_cons_self ..) begins).append (later.mono (expression_takes begins).kept_mono)

lemma Application.spares (h : Application plan r args f p v code f' q) : Spares f.kept code := by
  obtain ⟨begins, -, last, -, -, rfl⟩ := h
  have rests := (operands_keeps (fun _ _ => expression_takes) begins).2.2
  exact (operands_spares ih begins).append
    ((callValue_spares last).mono (Frame.kept_mono rests.depth.ge))

end

lemma expression_spares {e : Expr} (h : expression plan r e f p = .ok (((v, code), f'), q)) :
    Spares f.kept code := by
  induction e using Expr.induction generalizing f f' p q v code with
  | int value =>
    have takes := expression_takes h
    rw [expression] at h
    obtain ⟨reg, -, rfl, ⟨-, -, rfl⟩ | ⟨s, -, rfl⟩⟩ := integer_ok h <;> exact takes.spares (by simp)
  | bool value =>
    have takes := expression_takes h
    obtain ⟨reg, -, -, rfl, rfl⟩ := expression_bool h
    exact takes.spares (by simp)
  | str value =>
    have takes := expression_takes h
    obtain ⟨s, reg, -, -, rfl, rfl⟩ := expression_str h
    exact takes.spares (by simp)
  | state field =>
    have takes := expression_takes h
    obtain ⟨slot, reg, -, -, -, rfl, rfl⟩ := expression_state h
    exact takes.spares (by simp [-changed])
  | field field =>
    have takes := expression_takes h
    obtain ⟨schema, slot, reg, -, -, -, -, rfl, rfl⟩ := expression_field h
    exact takes.spares (by simp [-changed])
  | var name =>
    have takes := expression_takes h
    obtain ⟨x, reg, -, -, -, rfl, rfl⟩ := expression_var h
    exact takes.spares (by simp)
  | unary op operand ih =>
    obtain ⟨first, begins, -, rfl⟩ := expression_unary h
    refine (ih begins).append ((expression_takes h).spares ?_)
    cases op <;> simp [unaryInstruction]
  | binary op lhs rhs ihl ihr =>
    obtain ⟨a, first, f1, p1, b, second, f2, p2, last, hlhs, right, final, rfl⟩ :=
      expression_binary h
    have left := expression_takes hlhs
    exact ((ihl hlhs).append ((ihr right).mono left.kept_mono)).append
      (applyBinary_spares left (expression_takes right) final)
  | builtin name args ih => exact Application.spares (fun e mem => ih e mem) (expression_builtin h)
  | call name args ih => exact Application.spares (fun e mem => ih e mem) (expression_call h)

/-- Scratch registers are a stack. The value of an expression is in the next one, and the code
leaves those below, the state, the message and the frame alone. Every register that is given back is
the newest in use, whatever becomes of the values, and a statement gives back all that it takes. -/
theorem registers_are_a_stack (plan : Plan) (r : Routine) (f : Frame) (p : Pool) :
    (∀ e v code f' q, expression plan r e f p = .ok (((v, code), f'), q) →
      Register.scratch[f.depth]? = some v.reg ∧ f'.depth = f.depth + 1 ∧ f'.isOrderly =
      f.isOrderly ∧ Spares (Register.scratch.take f.depth) code ∧
      ∀ i ∈ code, ∀ reg ∈ i.changed, reg ∉ [.stateBase, .message, rbp]) ∧
    (∀ lhs rhs a b first second f1 f2 p1 p2, expression plan r lhs f p =
      .ok (((a, first), f1), p1) → expression plan r rhs f1 p1 = .ok (((b, second), f2), p2) →
      f.Rests (f2.release [b.reg, a.reg])) ∧
    (∀ callee index es wants regs code f' q, operands plan r callee index es wants f p =
      .ok (((regs, code), f'), q) → f.Rests (f'.release regs.reverse)) ∧
    ∀ s code f' q, statement plan r s f p = .ok ((code, f'), q) →
      f'.depth = f.depth ∧ f'.isOrderly = f.isOrderly := by
  refine ⟨fun e v code f' q h => ?_, fun lhs rhs a b first second f1 f2 p1 p2 left right => ?_,
    fun callee index es wants regs code f' q h => ?_, fun s code f' q h => ?_⟩
  · have takes := expression_takes h
    have spares := expression_spares h
    refine ⟨takes.reg_eq, takes.depth_eq, takes.orderly, spares.mono (List.subset_append_left ..),
      fun i mem reg changed fixed => ?_⟩
    have saved : reg.isCalleeSaved = true := by
      revert fixed
      cases reg <;> decide
    exact spares.untouched (List.mem_append_right _ fixed) saved i mem changed
  · exact ((expression_takes left).trans (expression_takes right).release).release
  · exact (operands_keeps (fun _ _ => expression_takes) h).2.2
  · have advances := statement_advances h
    exact ⟨advances.depth, advances.orderly⟩

/-- Two registers are in use; the sum is in the third, and the fourth is given back. -/
theorem registers_are_a_stack_sum : ∃ (plan : Plan) (v : Value) (code : Code) (f' : Frame)
    (q : Pool), expression plan idleRoutine (.binary .add (.int 1) (.int 2))
    { depth := 2 } .initial = .ok (((v, code), f'), q) ∧ v.reg = .r15 ∧ f'.depth = 3 ∧
    Spares [.rbx, .r14] code := by
  let plan : Plan := ⟨⟨[], [], [], [], ⟨"Tick", []⟩⟩, ⟨[], [], [], [], 0⟩, {}, [], [], {}⟩
  obtain ⟨next, depth, -, spares, -⟩ := (registers_are_a_stack plan idleRoutine { depth := 2 }
    .initial).1 (.binary .add (.int 1) (.int 2)) _ _ _ _ rfl
  exact ⟨plan, _, _, _, _, rfl, (Option.some.inj next).symm, depth, spares⟩

end Lower

end AgentCompiler
