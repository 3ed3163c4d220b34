import AgentCompiler.Proofs.Processor

/-!
Runs that are put together from pieces: straight code, jumps and branches. A run keeps some
registers and writes to a part of memory. Calls may be followed or count as single steps, so the
kind of steps is left open.
-/

namespace AgentCompiler

def putAll (regs : Register → Word) : List (Register × Word) → Register → Word
  | [] => regs
  | (r, value) :: rest => putAll (Function.update regs r value) rest

section

variable {regs : Register → Word} {r : Register}

@[simp] lemma putAll_nil : putAll regs [] = regs := rfl

@[simp] lemma putAll_cons (value : Word) (rest : List (Register × Word)) :
    putAll regs ((r, value) :: rest) = putAll (Function.update regs r value) rest := rfl

lemma putAll_of_notMem {values : List (Register × Word)} (other : r ∉ values.map Prod.fst) :
    putAll regs values r = regs r := by
  induction values generalizing regs with
  | nil => rfl
  | cons pair rest ih =>
    rw [List.map_cons, List.mem_cons, not_or] at other
    rw [putAll_cons, ih other.2, Function.update_of_ne other.1]

end

/-- Registers that are as before behind a service which hands back some others at its end. -/
abbrev Register.IsKept (regs : List Register) (r : Register) : Prop := r = .rsp ∨ r.isCalleeSaved =
    true ∧ r ∉ regs

/-- Control leads from one place to another. Some registers are as before, and so is the memory that
is not written to. -/
structure Leads (R : Config → Config → Prop) (kept : Register → Prop) (written : Set Word)
    (c d : Config) : Prop where
  reaches : Relation.ReflTransGen R c d
  regs : ∀ r, kept r → d.machine.regs r = c.machine.regs r
  memory : Set.EqOn d.machine.memory c.machine.memory writtenᶜ

/-- All instructions but calls, of routines and of the system, are steps of a kind. -/
class Process.Paces (P : Process) (R : Config → Config → Prop) : Prop where
  step : ∀ {c d : Config} {i : Instruction}, P.code[c.position]? = some i → (∀ l, i ≠ .call l) →
    i ≠ .syscall → P.Goes c d → R c d

instance (P : Process) : P.Paces P.Goes := ⟨fun _ _ _ goes => goes⟩

namespace Leads

variable {R : Config → Config → Prop} {kept : Register → Prop} {written : Set Word} {c d e : Config}

lemma refl (c : Config) : Leads R kept written c c := ⟨.refl, fun _ _ => rfl, fun _ _ => rfl⟩

lemma trans (first : Leads R kept written c d) (second : Leads R kept written d e) :
    Leads R kept written c e where
  reaches := first.reaches.trans second.reaches
  regs r keep := (second.regs r keep).trans (first.regs r keep)
  memory := second.memory.trans first.memory

lemma mono {fewer : Register → Prop} {more : Set Word} (leads : Leads R kept written c d)
    (few : ∀ r, fewer r → kept r) (sub : written ⊆ more) : Leads R fewer more c d :=
  ⟨leads.reaches, fun r keep => leads.regs r (few r keep),
    leads.memory.mono (Set.compl_subset_compl.2 sub)⟩

section

variable {regs : List Register} (leads : Leads R (Register.IsKept regs) written c d)
include leads

lemma stack : d.machine.regs .rsp = c.machine.regs .rsp := leads.regs .rsp (.inl rfl)

lemma saved (r : Register) (saved : r.isCalleeSaved = true) (other : r ∉ regs) :
    d.machine.regs r = c.machine.regs r := leads.regs r (.inr ⟨saved, other⟩)

end

variable {P : Process} [pace : P.Paces R] {s : Machine} {k i j : Nat} {code : Code}
  (leads : Leads R kept written c ⟨k + i, s⟩) (placed : P.Holds k code)
include leads placed

lemma stores {Q : Flags → Prop} (part : Code) (values : List (Register × Word)) (m : Memory)
    (here : (code.drop i).take part.length = part) (ends : i + part.length = j)
    (free : ∀ r ∈ values.map Prod.fst, ¬ kept r) (same : Set.EqOn m s.memory writtenᶜ)
    (runs : ∃ t, P.execute part s = some t ∧ t.memory = m ∧ t.regs = putAll s.regs values ∧
    Q t.flags) :
    ∃ t, Leads R kept written c ⟨k + j, t⟩ ∧ t.memory = m ∧ t.regs = putAll s.regs values ∧
        Q t.flags := by
  have effect {k : Nat} {i : Instruction} {s t : Machine} (at_k : P.code[k]? = some i)
      (runs : P.effect i s = some t) : R ⟨k, s⟩ ⟨k + 1, t⟩ := by
    refine pace.step at_k (fun l is_call => ?_) (fun is_call => ?_) (.effect at_k runs) <;> subst
      is_call <;>
      simp [Process.effect] at runs
  obtain ⟨t, reaches, rfl, regs, flags⟩ := placed.reaches effect part here ends runs
  exact ⟨t, leads.trans ⟨reaches, fun r keep => regs ▸ putAll_of_notMem fun own => free r own keep,
    same⟩, rfl, regs, flags⟩

lemma turns (part : Code) (values : List (Register × Word))
    (here : (code.drop i).take part.length = part) (ends : i + part.length = j)
    (free : ∀ r ∈ values.map Prod.fst, ¬ kept r) (runs : ∃ t, P.execute part s = some t ∧
    t.memory = s.memory ∧ t.regs = putAll s.regs values) :
    ∃ t, Leads R kept written c ⟨k + j, t⟩ ∧ t.memory = s.memory ∧
        t.regs = putAll s.regs values := by
  obtain ⟨t, leads, memory, regs, -⟩ := leads.stores placed (Q := fun _ => True) part values _ here
    ends free (fun _ _ => rfl) (by simpa using runs)
  exact ⟨t, leads, memory, regs⟩

variable {jump : Instruction} (at_i : code[i]? = some jump)
include at_i

lemma moves {goal : Nat} (plain : (∀ l, jump ≠ .call l) ∧ jump ≠ .syscall)
    (goes : P.Goes ⟨k + i, s⟩ ⟨goal, s⟩) :
    Leads R kept written c ⟨goal, s⟩ :=
  leads.trans ⟨.single (pace.step (placed.get at_i) plain.1 plain.2 goes), fun _ _ => rfl,
    fun _ _ => rfl⟩

variable {l : Label} {cond : Condition}

lemma jumps (is : jump = .jmp l ∨ jump = .jmpShort l) (target : P.labelPosition l = some j) :
    Leads R kept written c ⟨j, s⟩ :=
  leads.moves placed at_i (by rcases is with rfl | rfl <;> simp) (.jump (placed.get at_i) is target)

variable (is : jump = .jcc cond l ∨ jump = .jccShort cond l)
include is

lemma branches (taken : cond.holds s.flags = some true) (target : P.labelPosition l = some j) :
    Leads R kept written c ⟨j, s⟩ :=
  leads.moves placed at_i (by rcases is with rfl | rfl <;> simp)
    (.branch (placed.get at_i) is taken target)

lemma passes (passed : cond.holds s.flags = some false) : Leads R kept written c ⟨k + (i + 1), s⟩ :=
  leads.moves placed at_i (by rcases is with rfl | rfl <;> simp) (.pass (placed.get at_i) is passed)

end Leads

end AgentCompiler
