import AgentCompiler.Proofs.LoweringSteps

/-!
What the lowering of a body does to its frame. An expression takes the next scratch register and
changes nothing else. A statement gives back all it took; a declaration in the same scope adds one
name, and every declaration inside takes one slot more.
-/

namespace AgentCompiler

open Stmt List

variable {s : Stmt} {kind : ValueKind}

namespace Frame

/-- What was taken has been given back, each register while it was the newest. -/
structure Rests (f f' : Frame) : Prop extends f.Keeps f' where
  depth : f'.depth = f.depth
  orderly : f'.isOrderly = f.isOrderly

structure Takes (f : Frame) (reg : Register) (f' : Frame) : Prop extends f.Keeps f' where
  reg_eq : Register.scratch[f.depth]? = some reg
  depth_eq : f'.depth = f.depth + 1
  used : f.depth < f'.maxDepth
  orderly : f'.isOrderly = f.isOrderly

variable {f f' g : Frame} {reg : Register} {name : String}

lemma Rests.refl (f : Frame) : f.Rests f := ⟨.refl f, rfl, rfl⟩

lemma Rests.trans (h : f.Rests f') (h' : f'.Rests g) : f.Rests g :=
  ⟨h.toKeeps.trans h'.toKeeps, h'.depth.trans h.depth, h'.orderly.trans h.orderly⟩

lemma takes_alloc (h : f.alloc name = .ok (reg, f')) : f.Takes reg f' := by
  obtain ⟨found, rfl⟩ := alloc_ok.1 h
  exact { keeps_alloc h with
    reg_eq := found
    depth_eq := rfl
    used := Nat.le_max_right _ _
    orderly := rfl }

lemma Takes.trans (h : f.Takes reg f') (rests : f'.Rests g) : f.Takes reg g :=
  { h.toKeeps.trans rests.toKeeps with
    reg_eq := h.reg_eq
    depth_eq := rests.depth.trans h.depth_eq
    used := h.used.trans_le rests.maxDepth
    orderly := rests.orderly.trans h.orderly }

lemma Takes.behind (h : f'.Takes reg g) (rests : f.Rests f') : f.Takes reg g :=
  { rests.toKeeps.trans h.toKeeps with
    reg_eq := rests.depth ▸ h.reg_eq
    depth_eq := rests.depth ▸ h.depth_eq
    used := rests.depth ▸ h.used
    orderly := h.orderly.trans rests.orderly }

lemma Takes.mem_scratch (h : f.Takes reg f') : reg ∈ Register.scratch := mem_of_getElem? h.reg_eq

lemma Takes.release (h : f.Takes reg f') : f.Rests (f'.release [reg]) where
  toKeeps := h.toKeeps.trans (f'.keeps_release [reg])
  depth := by simp [h.depth_eq]
  orderly := by simp [Frame.release, free, h.depth_eq, h.reg_eq, h.orderly]

end Frame

namespace Lower

variable {plan : Plan} {r : Routine} {f f' : Frame} {p q : Pool} {v : Value} {code : Code}
  {op : BinaryOperator} {es : List Expr}

lemma callValue_takes {target : Label} {args : List Argument}
    (h : callValue r target args kind f p = .ok (((v, code), f'), q)) : f.Takes v.reg f' := by
  obtain ⟨reg, -, own, -, rfl, -⟩ := callValue_ok h
  exact Frame.takes_alloc own

/-- The result of an operator is in the register of its first operand, or it is taken anew when both
have been given back. -/
lemma applyBinary_keeps {a b : Value}
    (h : applyBinary r op a b f p = .ok (((v, code), f'), q)) : f.Keeps f' ∧
      (v.reg = a.reg ∧ f' = f.release [b.reg] ∨ (f.release [b.reg, a.reg]).Takes v.reg f') := by
  obtain ⟨-, ⟨-, what, texts⟩ | ⟨-, cond, -, rfl, -, rfl, -⟩ | ⟨-, -, -, rfl, what, e,
      coded, rfl⟩⟩ :=
    applyBinary_ok h
  · obtain ⟨service, first, kind, last, call, -⟩ := applyToTexts_ok texts
    have takes := callValue_takes call
    exact ⟨(f.keeps_release _).trans takes.toKeeps, .inr takes⟩
  · exact ⟨f.keeps_release _, .inl ⟨rfl, rfl⟩⟩
  · obtain rfl : f = e := by
      obtain ⟨_, -, division⟩ | ⟨-, -, -, rfl, -⟩ := arithmetic_ok coded
      · obtain ⟨_, _, -, rfl, -⟩ := division_ok division
        rfl
      · rfl
    exact ⟨f.keeps_release _, .inl ⟨rfl, rfl⟩⟩

lemma applyBinary_takes {a b : Value} {f1 f2 : Frame}
    (ha : f.Takes a.reg f1) (hb : f1.Takes b.reg f2)
    (h : applyBinary r op a b f2 p = .ok (((v, code), f'), q)) : f.Takes v.reg f' := by
  have first := ha.trans hb.release
  obtain ⟨-, ⟨own, rfl⟩ | takes⟩ := applyBinary_keeps h
  · exact own ▸ first
  · exact takes.behind first.release

section

variable
  (ih : ∀ e ∈ es, ∀ {f f' : Frame} {p q : Pool} {v : Value} {code : Code}, expression plan r e f p =
  .ok (((v, code), f'), q) → f.Takes v.reg f')
include ih

lemma operands_keeps {callee : String} {index : Nat} {wants : List ValueKind} {regs : List Register}
    (h : operands plan r callee index es wants f p = .ok (((regs, code), f'), q)) :
    f.Keeps f' ∧ f'.depth = f.depth + regs.length ∧ f.Rests (f'.release regs.reverse) := by
  induction es generalizing index wants regs code f p with
  | nil =>
    obtain ⟨rfl, -, rfl, -⟩ := operands_of_nil (.inl rfl) h
    exact ⟨.refl f, rfl, .refl f⟩
  | cons e rest more =>
    cases wants with
    | nil =>
      obtain ⟨rfl, -, rfl, -⟩ := operands_of_nil (.inr rfl) h
      exact ⟨.refl f, rfl, .refl f⟩
    | cons want wants =>
      obtain ⟨v, first, f1, p1, others, tail, begins, -, later, rfl, -⟩ := operands_cons h
      have takes := ih e (mem_cons_self ..) begins
      obtain ⟨keeps, depth, rests⟩ := more (fun e he => ih e (mem_cons_of_mem _ he)) later
      refine ⟨takes.toKeeps.trans keeps, ?_, ?_⟩
      · rw [depth, takes.depth_eq, length_cons]
        omega
      · rw [reverse_cons, Frame.release, foldl_append]
        exact (takes.trans rests).release

lemma Application.takes (h : Application plan r es f p v code f' q) : f.Takes v.reg f' := by
  obtain ⟨operands, -, call, -, -, -⟩ := h
  exact (callValue_takes call).behind (operands_keeps ih operands).2.2

end

lemma expression_takes {e : Expr} (h : expression plan r e f p = .ok (((v, code), f'), q)) :
    f.Takes v.reg f' := by
  induction e using Expr.induction generalizing f f' p q v code with
  | int value =>
    rw [expression] at h
    obtain ⟨reg, own, rfl, -⟩ := integer_ok h
    exact Frame.takes_alloc own
  | bool value =>
    obtain ⟨reg, own, -, rfl, -⟩ := expression_bool h
    exact Frame.takes_alloc own
  | str value =>
    obtain ⟨s, reg, -, own, rfl, -⟩ := expression_str h
    exact Frame.takes_alloc own
  | state field =>
    obtain ⟨slot, reg, -, own, -, rfl, -⟩ := expression_state h
    exact Frame.takes_alloc own
  | field field =>
    obtain ⟨schema, slot, reg, -, -, own, -, rfl, -⟩ := expression_field h
    exact Frame.takes_alloc own
  | var name =>
    obtain ⟨x, reg, -, own, -, rfl, -⟩ := expression_var h
    exact Frame.takes_alloc own
  | unary op operand ih =>
    obtain ⟨first, begins, -⟩ := expression_unary h
    exact ih begins
  | binary op lhs rhs ihl ihr =>
    obtain ⟨a, first, f1, p1, b, second, f2, p2, last, left, right, final, -⟩ := expression_binary h
    exact applyBinary_takes (ihl left) (ihr right) final
  | builtin name args ih => exact (expression_builtin h).takes fun e he => ih e he
  | call name args ih => exact (expression_call h).takes fun e he => ih e he

end Lower

mutual

def Stmt.declarations : Stmt → Nat
  | .declare _ _ => 1
  | .branch _ onTrue onFalse => declarationsIn onTrue + declarationsIn onFalse
  | .loop _ body | .block body => declarationsIn body
  | _ => 0

def Stmt.declarationsIn : List Stmt → Nat
  | [] => 0
  | s :: rest => s.declarations + declarationsIn rest

end

namespace Frame

/-- From statement to statement: the same registers are in use, outer scopes are as they were and
`n` slots have been handed out. -/
structure Advances (f : Frame) (n : Nat) (f' : Frame) : Prop where
  depth : f'.depth = f.depth
  maxDepth : f.maxDepth ≤ f'.maxDepth
  outer : f'.scopes.tail = f.scopes.tail
  slots : f'.slots = f.slots + n
  orderly : f'.isOrderly = f.isOrderly

variable {f f' g : Frame} {m n : Nat}

lemma Advances.refl (f : Frame) : f.Advances 0 f := ⟨rfl, le_rfl, rfl, rfl, rfl⟩

lemma Advances.trans (h : f.Advances m f') (h' : f'.Advances n g) : f.Advances (m + n) g where
  depth := h'.depth.trans h.depth
  maxDepth := h.maxDepth.trans h'.maxDepth
  outer := h'.outer.trans h.outer
  slots := by rw [h'.slots, h.slots, add_assoc]
  orderly := h'.orderly.trans h.orderly

lemma Advances.slots_le (h : f.Advances n f') : f.slots ≤ f'.slots := h.slots ▸ le_self_add

structure Spans (f : Frame) (n : Nat) (f' : Frame) : Prop extends f.Advances n f' where
  scopes : f'.scopes = f.scopes

lemma Spans.trans (h : f.Spans m f') (h' : f'.Spans n g) : f.Spans (m + n) g :=
  ⟨h.toAdvances.trans h'.toAdvances, h'.scopes.trans h.scopes⟩

lemma Rests.spans (h : f.Rests f') : f.Spans 0 f' :=
  ⟨⟨h.depth, h.maxDepth, congrArg List.tail h.scopes, h.slots, h.orderly⟩, h.scopes⟩

lemma Advances.inScope (h : f.openScope.Advances n f') : f.Spans n f'.closeScope :=
  ⟨⟨h.depth, h.maxDepth, congrArg List.tail h.outer, h.slots, h.orderly⟩, h.outer⟩

def Passes (f : Frame) (s : Stmt) (f' : Frame) : Prop :=
  f.Advances s.declarations f' ∧ ((∀ name value, s ≠ .declare name value) → f'.scopes = f.scopes)

lemma Spans.passes (h : f.Spans n f') (count : s.declarations = n) : f.Passes s f' :=
  ⟨count ▸ h.toAdvances, fun _ => h.scopes⟩

end Frame

namespace Lower

variable {plan : Plan} {r : Routine} {f f' : Frame} {p q : Pool} {v : Value} {code : Code}
  {body : List Stmt}

lemma messageFields_rests {schema : SchemaLayout} {payload : Register}
    {fields : List (String × Expr)} {slots : List Slot}
    (h : messageFields plan r schema payload fields slots f p = .ok ((code, f'), q)) :
    f.Rests f' := by
  induction slots generalizing f p code with
  | nil =>
    obtain ⟨-, rfl, -⟩ := pure_ok.1 h
    exact .refl f
  | cons slot rest ih =>
    obtain more | ⟨e, v, first, f1, p1, tail, -, begins, later, -⟩ := messageFields_cons h
    · exact ih more
    · exact (expression_takes begins).release.trans (ih later)

lemma condition_rests {cond : Expr} {otherwise : Label} {what : String}
    (h : condition plan r cond otherwise what f p = .ok ((code, f'), q)) : f.Rests f' := by
  obtain ⟨v, first, e, begins, -, rfl, -⟩ := condition_ok h
  exact (expression_takes begins).release

lemma statements_advances (ih : ∀ s ∈ body, ∀ {f f' : Frame} {p q : Pool} {code : Code},
      statement plan r s f p = .ok ((code, f'), q) → f.Passes s f')
    (h : statements plan r body f p = .ok ((code, f'), q)) :
        f.Advances (declarationsIn body) f' := by
  induction body generalizing f p code with
  | nil =>
    obtain ⟨rfl, -, -⟩ := statements_nil h
    exact .refl f
  | cons s rest more =>
    obtain ⟨first, f1, p1, tail, begins, later, -⟩ := statements_cons h
    rw [declarationsIn]
    exact (ih s (mem_cons_self ..) begins).1.trans
      (more (fun s hs => ih s (mem_cons_of_mem _ hs)) later)

section

variable (h : statement plan r s f p = .ok ((code, f'), q))
include h

lemma statement_passes : f.Passes s f' := by
  induction s using induction generalizing f f' p q code with
  | declare name value =>
    obtain ⟨v, first, f1, x, f2, begins, hx, rfl, -⟩ := statement_declare h
    have takes := expression_takes begins
    obtain ⟨scope, outer, scopes, -, rfl⟩ := Frame.declare_ok hx
    have rests := takes.release
    refine ⟨⟨rests.depth, rests.maxDepth, ?_, ?_, rests.orderly⟩, fun other =>
      absurd rfl (other name value)⟩
    · rw [← takes.scopes, scopes]
      rfl
    · rw [declarations, ← takes.slots]
      rfl
  | assign target value =>
    obtain ⟨v, first, f1, store, begins, -, rfl, -⟩ := statement_assign h
    exact (expression_takes begins).release.spans.passes (by simp [declarations])
  | emit schema fields =>
    rw [statement] at h
    obtain ⟨s, -, ⟨-, rfl, -⟩ | ⟨payload, first, f1, p1, second, f2, last, begins, later, -, rfl,
      -⟩⟩ := message_ok h
    · exact (Frame.Rests.refl f).spans.passes (by simp [declarations])
    · have takes := (callValue_takes begins).trans (messageFields_rests later)
      exact takes.release.spans.passes (by simp [declarations])
  | branch cond onTrue onFalse ihTrue ihFalse =>
    obtain ⟨other, p1, join, p2, test, f1, p3, first, f2, p4, second, -, -, tested, begins, later,
      -⟩ := statement_branch h
    obtain ⟨e1, body1, rfl⟩ := block_ok begins
    obtain ⟨e2, body2, rfl⟩ := block_ok later
    have begins := (statements_advances ihTrue body1).inScope
    have later := (statements_advances ihFalse body2).inScope
    exact ((condition_rests tested).spans.trans (begins.trans later)).passes
      (by simp [declarations])
  | loop cond body ih =>
    obtain ⟨head, p1, leave, p2, test, f1, p3, inner, -, -, tested, nested, -⟩ := statement_loop h
    obtain ⟨e, lowered, rfl⟩ := block_ok nested
    have nested := (statements_advances ih lowered).inScope
    exact ((condition_rests tested).spans.trans nested).passes (by simp [declarations])
  | block body ih =>
    rw [statement_block] at h
    obtain ⟨e, lowered, rfl⟩ := block_ok h
    exact (statements_advances ih lowered).inScope.passes (by simp [declarations])
  | write value =>
    obtain ⟨v, first, f1, last, begins, -, rfl, -⟩ := statement_write h
    exact (expression_takes begins).release.spans.passes (by simp [declarations])
  | report value =>
    obtain ⟨rfl, -, -⟩ | ⟨newline, p1, v, first, f1, shown, last, -, begins, -, -, rfl, -⟩ :=
      statement_report h
    · exact (Frame.Rests.refl f).spans.passes (by simp [declarations])
    · exact (expression_takes begins).release.spans.passes (by simp [declarations])
  | ret value =>
    rw [statement] at h
    obtain ⟨-, rfl, -, -⟩ | ⟨e, v, first, f1, -, -, begins, rfl, -⟩ := returnCode_ok h
    · exact (Frame.Rests.refl f).spans.passes (by simp [declarations])
    · exact (expression_takes begins).release.spans.passes (by simp [declarations])

lemma statement_advances : f.Advances s.declarations f' := (statement_passes h).1

end

lemma block_advances (h : block plan r body f p = .ok ((code, f'), q)) :
    f.Advances (declarationsIn body) f' ∧ f'.scopes = f.scopes := by
  obtain ⟨e, inner, rfl⟩ := block_ok h
  have spans := (statements_advances (fun _ _ => statement_passes) inner).inScope
  exact ⟨spans.toAdvances, spans.scopes⟩

lemma statement_scopes (h : statement plan r s f p = .ok ((code, f'), q))
    (other : ∀ name value, s ≠ .declare name value) : f'.scopes = f.scopes :=
    (statement_passes h).2 other

end Lower

namespace Frame

variable {f f' : Frame}

/-- Every name in scope has a slot of its own, among those handed out. -/
structure HasOwnSlots (f : Frame) : Prop where
  lt : ∀ pair ∈ f.scopes.flatten, pair.2.slot < f.slots
  nodup : (f.scopes.flatten.map (·.2.slot)).Nodup

namespace HasOwnSlots

lemma initial : HasOwnSlots {} := ⟨by simp, by simp⟩

section

variable (h : f.HasOwnSlots)
include h

lemma of_scopes (scopes : f'.scopes = f.scopes) (slots : f.slots ≤ f'.slots) : f'.HasOwnSlots := by
  refine ⟨fun pair mem => ?_, by rw [scopes]; exact h.nodup⟩
  rw [scopes] at mem
  exact (h.lt pair mem).trans_le slots

lemma openScope : f.openScope.HasOwnSlots := ⟨h.lt, h.nodup⟩

lemma declare {routine name : String} {x : Variable}
    (hx : f.declare routine name kind = .ok (x, f')) : f'.HasOwnSlots := by
  obtain ⟨scope, outer, scopes, rfl, rfl⟩ := declare_ok hx
  have lt := h.lt
  have nodup := h.nodup
  simp only [scopes, flatten_cons] at lt nodup
  constructor
  · simp only [flatten_cons, cons_append, forall_mem_cons]
    exact ⟨Nat.lt_succ_self _, fun pair mem => Nat.lt_succ_of_lt (lt pair mem)⟩
  · simp only [flatten_cons, cons_append, map_cons, nodup_cons]
    refine ⟨fun used => ?_, nodup⟩
    obtain ⟨pair, mem, same⟩ := mem_map.1 used
    exact absurd (lt pair mem) (same ▸ lt_irrefl _)

lemma lookup_lt {name : String} {x : Variable} (found : f.lookup? name = some x) :
    x.slot < f.slots := by
  obtain ⟨before, after, split, -⟩ := lookup_eq_some_iff.1 found
  exact h.lt (name, x) (by rw [split]; simp)

end

end HasOwnSlots

end Frame

namespace Lower

variable {plan : Plan} {r : Routine} {f f' : Frame} {p q : Pool} {code : Code}

lemma statement_ownSlots (own : f.HasOwnSlots)
    (h : statement plan r s f p = .ok ((code, f'), q)) : f'.HasOwnSlots := by
  by_cases declares : ∃ name value, s = .declare name value
  · obtain ⟨name, value, rfl⟩ := declares
    obtain ⟨v, first, f1, x, f2, begins, hx, rfl, -⟩ := statement_declare h
    have takes := expression_takes begins
    have before := own.of_scopes takes.scopes takes.slots.symm.le
    exact (before.declare hx).of_scopes rfl le_rfl
  · have scopes := statement_scopes h fun name value same => declares ⟨name, value, same⟩
    exact own.of_scopes scopes (statement_advances h).slots_le

end Lower

end AgentCompiler
