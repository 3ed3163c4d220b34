import AgentCompiler.Proofs.RunPieces

/-!
Runs of one routine in which calls are single steps. A call that comes back leads to the instruction
behind it; what the called routine does on the way is not part of the run. Calls of some routines
are observed: a run comes with the list of these, each with the machine before and after it.
-/

namespace AgentCompiler

open Option

structure CallRecord where
  label : Label
  before : Machine
  after : Machine

def stackCells (top : Word) : Set Word := cells (top - 8) Width.qword.bytes

namespace Process

variable (P : Process)

/-- A call at a position comes back: from outside, or from code that is followed to its return. -/
inductive Answers (k : Nat) (l : Label) (s : Machine) : Machine → Prop
  | outside {routine : Machine → Option Machine} {t : Machine} (known : P.outside l = some routine)
      (result : routine s = some t) : Answers k l s t
  | followed {d : Config} {t : Machine} (inside : P.outside l = none)
      (enters : P.step ⟨k, s⟩ = some d) (returns : P.Returns d ⟨k + 1, t⟩) : Answers k l s t

inductive Moves (observed : Label → Prop) : Config → List CallRecord → Config → Prop
  | step {c d : Config} (plain : ∀ l, P.code[c.position]? ≠ some (.call l)) (goes : P.Goes c d) :
      Moves observed c [] d
  | call {k : Nat} {l : Label} {s t : Machine} (at_k : P.code[k]? = some (.call l))
      (hidden : ¬ observed l) (answers : P.Answers k l s t) : Moves observed ⟨k, s⟩ [] ⟨k + 1, t⟩
  | observe {k : Nat} {l : Label} {s t : Machine} (at_k : P.code[k]? = some (.call l))
      (seen : observed l) (answers : P.Answers k l s t) :
      Moves observed ⟨k, s⟩ [⟨l, s, t⟩] ⟨k + 1, t⟩

inductive Traces (observed : Label → Prop) : Config → List CallRecord → Config → Prop
  | refl (c : Config) : Traces observed c [] c
  | tail {c d e : Config} {calls more : List CallRecord} (run : Traces observed c calls d)
      (last : P.Moves observed d more e) : Traces observed c (calls ++ more) e

abbrev Quietly (observed : Label → Prop) : Config → Config → Prop :=
  Relation.ReflTransGen fun c d => P.Moves observed c [] d

/-- The machine that a called routine starts with: the return address is on top of its stack. -/
def entering (k : Nat) (s : Machine) : Machine :=
  ({ s with memory := s.memory.store (s.regs .rsp - 8) .qword (P.codeAddress (k + 1)) } :
    Machine).set .rsp (s.regs .rsp - 8)

/-- A call that is followed into the code: there is room for the return address, which leads back.
-/
structure Follows (k : Nat) (l : Label) (s : Machine) : Prop where
  at_call : P.code[k]? = some (.call l)
  inside : P.outside l = none
  back : P.positionOf (P.codeAddress (k + 1)) = some (k + 1)
  stack : ∀ x ∈ stackCells (s.regs .rsp), P.mapped x

variable {P} {observed : Label → Prop} {s t u : Machine} {c d e : Config} {k j : Nat} {l : Label}
  {code : Code} {calls more : List CallRecord}

lemma Answers.unique (first : P.Answers k l s t) (second : P.Answers k l s u) : t = u := by
  cases first with
  | outside known result =>
    cases second with
    | outside known' result' =>
      obtain rfl := some.inj (known.symm.trans known')
      exact some.inj (result.symm.trans result')
    | followed inside => simp [known] at inside
  | followed inside enters returns =>
    cases second with
    | outside known => simp [known] at inside
    | followed _ enters' returns' =>
      obtain rfl := some.inj (enters.symm.trans enters')
      exact congrArg Config.machine (returns.unique returns')

namespace Moves

lemma of_goes {i : Instruction} (at_c : P.code[c.position]? = some i) (plain : ∀ l, i ≠ .call l)
    (goes : P.Goes c d) : P.Moves observed c [] d :=
  .step (fun l is_call => plain l (some.inj (at_c.symm.trans is_call))) goes

instance (P : Process) : P.Paces fun c d => P.Moves observed c [] d :=
  ⟨fun at_c plain _ => of_goes at_c plain⟩

lemma effect {i : Instruction} (at_k : P.code[k]? = some i) (runs : P.effect i s = some t) :
    P.Moves observed ⟨k, s⟩ [] ⟨k + 1, t⟩ := by
  refine of_goes at_k (fun l is_call => ?_) (.effect at_k runs)
  subst is_call
  simp [Process.effect] at runs

lemma jump (at_k : P.code[k]? = some (.jmp l)) (target : P.labelPosition l = some j) :
    P.Moves observed ⟨k, s⟩ [] ⟨j, s⟩ :=
  of_goes at_k (by simp) (.jump at_k (.inl rfl) target)

lemma unique (first : P.Moves observed c calls d) (second : P.Moves observed c more e) :
    calls = more ∧ d = e := by
  cases first with
  | step plain goes =>
    cases second with
    | step _ goes' => exact ⟨rfl, some.inj (goes.2.symm.trans goes'.2)⟩
    | call at_k => exact absurd at_k (plain _)
    | observe at_k => exact absurd at_k (plain _)
  | call at_k hidden answers =>
    cases second with
    | step plain => exact absurd at_k (plain _)
    | call at_k' _ answers' =>
      obtain rfl := called_eq at_k at_k'
      exact ⟨rfl, by rw [answers.unique answers']⟩
    | observe at_k' seen =>
      obtain rfl := called_eq at_k at_k'
      exact absurd seen hidden
  | observe at_k seen answers =>
    cases second with
    | step plain => exact absurd at_k (plain _)
    | call at_k' hidden =>
      obtain rfl := called_eq at_k at_k'
      exact absurd seen hidden
    | observe at_k' _ answers' =>
      obtain rfl := called_eq at_k at_k'
      obtain rfl := answers.unique answers'
      exact ⟨rfl, rfl⟩

end Moves

lemma Traces.before (quiet : P.Quietly observed c e)
    (stuck : ∀ calls d, ¬ P.Moves observed e calls d) (run : P.Traces observed c calls d) :
    calls = [] ∧ P.Quietly observed d e := by
  induction run with
  | refl => exact ⟨rfl, quiet⟩
  | tail _ last ih =>
    obtain ⟨rfl, quiet⟩ := ih
    obtain rfl | ⟨d', moves, quiet⟩ := Relation.ReflTransGen.cases_head quiet
    · exact absurd last (stuck _ _)
    · obtain ⟨rfl, rfl⟩ := last.unique moves
      exact ⟨rfl, quiet⟩

lemma quietly_execute (placed : P.Holds k code) (runs : P.execute code s = some t) :
    P.Quietly observed ⟨k, s⟩ ⟨k + code.length, t⟩ :=
  reaches_execute .effect placed runs

lemma Holds.quietly {i : Nat} {Q : Machine → Prop} (placed : P.Holds k code) (part : Code)
    (same : (code.drop i).take part.length = part) (ends : i + part.length = j)
    (runs : ∃ t, P.execute part s = some t ∧ Q t) : ∃ t, P.Quietly observed ⟨k + i, s⟩ ⟨k + j, t⟩ ∧
    Q t :=
  placed.reaches .effect part same ends runs

section

lemma step_call (at_k : P.code[k]? = some (.call l)) (inside : P.outside l = none)
    (stack : ∀ x ∈ cells (s.regs .rsp - 8) Width.qword.bytes, P.mapped x)
    (target : P.labelPosition l = some j) : P.step ⟨k, s⟩ = some ⟨j, P.entering k s⟩ := by
  simp only [step, at_k, inside, push, write_of_mapped stack, jump, target, entering, bind_some,
    map_some]

lemma entering_eqOn (k : Nat) (s : Machine) : Set.EqOn (P.entering k s).memory s.memory
    (stackCells (s.regs .rsp))ᶜ :=
  Memory.store_eqOn _ _ _ _

@[simp] lemma entering_rsp (k : Nat) (s : Machine) :
    (P.entering k s).regs .rsp = s.regs .rsp - 8 := by simp [entering]

lemma entering_regs {r : Register} (other : r ≠ .rsp) :
    (P.entering k s).regs r = s.regs r := by simp [entering, other]

namespace Follows

variable (follows : P.Follows k l s) (target : P.labelPosition l = some j)
include follows target

lemma entered : P.Entered l (k + 1) ⟨j, P.entering k s⟩ where
  position := target
  stack := by simpa [entering, stackCells] using follows.stack
  back := by simpa [entering] using follows.back

lemma answers (returns : P.Returns ⟨j, P.entering k s⟩ ⟨k + 1, t⟩)
    (top : t.regs .rsp = (P.entering k s).regs .rsp + 8)
    (kept : ∀ r, r.isCalleeSaved → t.regs r = (P.entering k s).regs r) :
    P.Answers k l s t ∧ s.Preserves t := by
  refine ⟨.followed follows.inside (step_call follows.at_call follows.inside follows.stack target)
    returns, ?_, fun r saved => ?_⟩
  · rw [top, entering_rsp, BitVec.sub_add_cancel]
  · have other : r ≠ .rsp := by
      rintro rfl
      cases saved
    rw [kept r saved, entering_regs other]

end Follows

end

end Process

lemma Leads.calls {P : Process} {observed : Label → Prop} {regs : List Register}
    {written : Set Word} {k : Nat} {l : Label} {c : Config} {s t : Machine}
    (leads : Leads (fun c d => P.Moves observed c [] d) (Register.IsKept regs) written c ⟨k, s⟩)
    (at_k : P.code[k]? = some (.call l)) (hidden : ¬ observed l) (answers : P.Answers k l s t)
    (preserves : s.Preserves t) (same : Set.EqOn t.memory s.memory writtenᶜ) :
    Leads (fun c d => P.Moves observed c [] d) (Register.IsKept regs) written c ⟨k + 1, t⟩ :=
  leads.trans ⟨.single (.call at_k hidden answers), fun r kept =>
    kept.elim (fun is => is ▸ preserves.stack) fun saved => preserves.saved r saved.1, same⟩

end AgentCompiler
