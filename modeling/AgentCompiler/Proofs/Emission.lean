import AgentCompiler.Lowering.ObjectCode
import AgentCompiler.Proofs.Success

/-!
Writing code, opened from its result: a sequence of steps succeeds when each of them does, one
after the other. Each construct of a body is opened here once, into the steps that write it.
-/

namespace AgentCompiler

variable {α β : Type} {b a : α} {d : Diagnostic} {x : Outcome α} {name : String}

@[elab_as_elim]
lemma Expr.induction {motive : Expr → Prop} (int : ∀ value, motive (.int value))
    (bool : ∀ value, motive (.bool value)) (str : ∀ value, motive (.str value))
    (state : ∀ name, motive (.state name)) (field : ∀ name, motive (.field name))
    (var : ∀ name, motive (.var name)) (unary : ∀ op operand, motive operand →
    motive (.unary op operand)) (binary : ∀ op lhs rhs, motive lhs → motive rhs →
    motive (.binary op lhs rhs)) (builtin : ∀ name args, (∀ e ∈ args, motive e) →
    motive (.builtin name args)) (call : ∀ name args, (∀ e ∈ args, motive e) →
    motive (.call name args)) (e : Expr) : motive e := by
  refine @Expr.rec motive (fun args => ∀ e ∈ args, motive e) int bool str state field var unary
    binary builtin call ?_ ?_ e
  · simp
  · intro first rest begins more e he
    obtain rfl | he := List.mem_cons.1 he
    · exact begins
    · exact more e he

@[elab_as_elim]
lemma Stmt.induction {motive : Stmt → Prop} (declare : ∀ name value, motive (.declare name value))
    (assign : ∀ target value, motive (.assign target value))
    (emit : ∀ schema fields, motive (.emit schema fields))
    (branch : ∀ cond onTrue onFalse, (∀ s ∈ onTrue, motive s) → (∀ s ∈ onFalse, motive s) →
      motive (.branch cond onTrue onFalse)) (loop : ∀ cond body, (∀ s ∈ body, motive s) →
      motive (.loop cond body))
    (block : ∀ body, (∀ s ∈ body, motive s) → motive (.block body))
    (write : ∀ value, motive (.write value)) (report : ∀ value, motive (.report value))
    (ret : ∀ value, motive (.ret value)) (s : Stmt) : motive s := by
  refine @Stmt.rec motive (fun body => ∀ s ∈ body, motive s) declare assign emit branch loop
    block write report ret ?_ ?_ s
  · simp
  · intro first rest begins more s hs
    obtain rfl | hs := List.mem_cons.1 hs
    · exact begins
    · exact more s hs

namespace Emit

variable {p q : Pool} {l : Label}

lemma bind_ok {x : Emit α} {g : α → Emit β} {b : β} :
    (x >>= g) p = .ok (b, q) ↔ ∃ a s, x p = .ok (a, s) ∧ g a s = .ok (b, q) := by
  constructor
  · intro h
    obtain ⟨⟨a, s⟩, ha, h⟩ := AgentCompiler.bind_ok.1 h
    exact ⟨a, s, ha, h⟩
  · rintro ⟨a, s, ha, h⟩
    exact AgentCompiler.bind_ok.2 ⟨⟨a, s⟩, ha, h⟩

@[simp] lemma pure_ok : (pure a : Emit α) p = .ok (b, q) ↔ a = b ∧ p = q := by
  change (pure (a, p) : Outcome (α × Pool)) = .ok (b, q) ↔ _
  rw [AgentCompiler.pure_ok, Prod.mk.injEq]

@[simp] lemma throw_ok : (throw d : Emit α) p = .ok (b, q) ↔ False := by
  change (throw d : Outcome (α × Pool)) = .ok (b, q) ↔ _
  exact AgentCompiler.throw_ok

@[simp] lemma lift_ok : (liftM x : Emit α) p = .ok (b, q) ↔ x = .ok b ∧ p = q := by
  cases x with
  | ok a =>
    change (pure (a, p) : Outcome (α × Pool)) = .ok (b, q) ↔ _
    simp
  | error d =>
    change (throw d : Outcome (α × Pool)) = .ok (b, q) ↔ _
    simp

@[simp] lemma fresh_ok {hint : String} : fresh hint p = .ok (l, q) ↔ (p.labels.fresh hint).1 = l ∧
      { p with labels := (p.labels.fresh hint).2 } = q := by
  change (pure ((p.labels.fresh hint).1, { p with labels := (p.labels.fresh hint).2 }) :
    Outcome (Label × Pool)) = .ok (l, q) ↔ _
  simp

lemma entry_ok :
    entry name p = .ok (l, q) ↔ ∃ labels, p.labels.entry name = .ok (l, labels) ∧
        { p with labels } = q := by
  simp only [entry, AgentCompiler.bind_ok, Prod.exists, AgentCompiler.pure_ok, Prod.mk.injEq]
  constructor
  · rintro ⟨l', labels, h, rfl, rfl⟩
    exact ⟨labels, h, rfl⟩
  · rintro ⟨labels, h, rfl⟩
    exact ⟨l, labels, h, rfl, rfl⟩

inductive MapRun (f : α → Emit β) : Pool → List α → List β → Pool → Prop
  | nil (p : Pool) : MapRun f p [] [] p
  | cons {p s q : Pool} {a : α} {b : β} {items : List α} {results : List β} :
      f a p = .ok (b, s) → MapRun f s items results q → MapRun f p (a :: items) (b :: results) q

lemma mapM_ok {f : α → Emit β} {items : List α} {results : List β} :
    items.mapM f p = .ok (results, q) ↔ MapRun f p items results q := by
  induction items generalizing p results with
  | nil =>
    rw [List.mapM_nil, pure_ok]
    constructor
    · rintro ⟨rfl, rfl⟩
      exact .nil p
    · rintro ⟨⟩
      exact ⟨rfl, rfl⟩
  | cons a items ih =>
    rw [List.mapM_cons]
    constructor
    · intro h
      obtain ⟨b, s, hb, h⟩ := bind_ok.1 h
      obtain ⟨rest, s', more, h⟩ := bind_ok.1 h
      obtain ⟨rfl, rfl⟩ := pure_ok.1 h
      exact .cons hb (ih.1 more)
    · rintro (_ | ⟨hb, more⟩)
      exact bind_ok.2 ⟨_, _, hb, bind_ok.2 ⟨_, _, ih.2 more, pure_ok.2 ⟨rfl, rfl⟩⟩⟩

end Emit

namespace Lower

variable {f f' : Frame} {p q : Pool} {u : Unit} {r : Routine}

lemma bind_ok {x : Lower α} {g : α → Lower β} {b : β} : (x >>= g) f p = .ok ((b, f'), q) ↔
      ∃ a e s, x f p = .ok ((a, e), s) ∧ g a e s = .ok ((b, f'), q) := by
  constructor
  · intro h
    obtain ⟨⟨⟨a, e⟩, s⟩, ha, h⟩ := AgentCompiler.bind_ok.1 h
    exact ⟨a, e, s, ha, h⟩
  · rintro ⟨a, e, s, ha, h⟩
    exact AgentCompiler.bind_ok.2 ⟨⟨⟨a, e⟩, s⟩, ha, h⟩

@[simp] lemma pure_ok : (pure a : Lower α) f p = .ok ((b, f'), q) ↔ a = b ∧ f = f' ∧ p = q := by
  change (pure ((a, f), p) : Outcome ((α × Frame) × Pool)) = .ok ((b, f'), q) ↔ _
  rw [AgentCompiler.pure_ok, Prod.mk.injEq, Prod.mk.injEq, and_assoc]

@[simp] lemma throw_ok : (throw d : Lower α) f p = .ok ((b, f'), q) ↔ False := by
  change (throw d : Outcome ((α × Frame) × Pool)) = .ok ((b, f'), q) ↔ _
  exact AgentCompiler.throw_ok

@[simp] lemma lift_ok :
    (liftM x : Lower α) f p = .ok ((b, f'), q) ↔ x = .ok b ∧ f = f' ∧ p = q := by
  cases x with
  | ok a =>
    change (pure ((a, f), p) : Outcome ((α × Frame) × Pool)) = .ok ((b, f'), q) ↔ _
    simp [and_assoc]
  | error d =>
    change (throw d : Outcome ((α × Frame) × Pool)) = .ok ((b, f'), q) ↔ _
    simp

@[simp] lemma liftEmit_ok {x : Emit α} :
    (liftM x : Lower α) f p = .ok ((b, f'), q) ↔ x p = .ok (b, q) ∧ f = f' := by
  change (x p >>= fun y => pure ((y.1, f), y.2) : Outcome ((α × Frame) × Pool)) = .ok ((b, f'), q) ↔
    _
  simp only [AgentCompiler.bind_ok, AgentCompiler.pure_ok, Prod.mk.injEq, Prod.exists]
  constructor
  · rintro ⟨a, s, h, ⟨rfl, rfl⟩, rfl⟩
    exact ⟨h, rfl⟩
  · rintro ⟨h, rfl⟩
    exact ⟨b, q, h, ⟨rfl, rfl⟩, rfl⟩

@[simp] lemma get_ok {e : Frame} :
    (get : Lower Frame) f p = .ok ((e, f'), q) ↔ f = e ∧ f = f' ∧ p = q := pure_ok (a := f)

@[simp] lemma modify_ok {g : Frame → Frame} :
    (modify g : Lower Unit) f p = .ok ((u, f'), q) ↔ g f = f' ∧ p = q := by
  change (pure (((), g f), p) : Outcome ((Unit × Frame) × Pool)) = .ok ((u, f'), q) ↔ _
  simp

@[simp] lemma release_ok {regs : List Register} :
    release regs f p = .ok ((u, f'), q) ↔ f.release regs = f' ∧ p = q := modify_ok

@[simp] lemma alloc_ok {reg : Register} :
    alloc r f p = .ok ((reg, f'), q) ↔ f.alloc r.name = .ok (reg, f') ∧ p = q := Emit.lift_ok

@[simp] lemma declare_ok {kind : ValueKind} {v : Variable} :
    declare r name kind f p = .ok ((v, f'), q) ↔ f.declare r.name name kind = .ok (v, f') ∧ p = q :=
      Emit.lift_ok

@[simp] lemma expect_ok {want : ValueKind} {what : String} {v : Value} :
    expect r want what v f p = .ok ((u, f'), q) ↔ v.kind = want ∧ f = f' ∧ p = q := by
  rw [expect, lift_ok, expectKind]
  split <;> simp_all

lemma inScope_ok {x : Lower α} : inScope x f p = .ok ((a, f'), q) ↔
      ∃ e, x f.openScope p = .ok ((a, e), q) ∧ e.closeScope = f' := by
  simp only [inScope, bind_ok, modify_ok, pure_ok]
  constructor
  · rintro ⟨_, _, _, ⟨rfl, rfl⟩, _, e, _, h, _, _, _, ⟨rfl, rfl⟩, rfl, rfl, rfl⟩
    exact ⟨e, h, rfl⟩
  · rintro ⟨e, h, rfl⟩
    exact ⟨(), _, _, ⟨rfl, rfl⟩, a, e, q, h, (), _, _, ⟨rfl, rfl⟩, rfl, rfl, rfl⟩

end Lower

end AgentCompiler
