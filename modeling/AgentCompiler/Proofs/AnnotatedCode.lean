import AgentCompiler.Proofs.MemoryOperands
import AgentCompiler.Proofs.StackWalk

/-!
Inductive assertions on code. Every instruction of a stretch of code has an assertion in front of
it. If each instruction leads from its assertion to the next one, and each jump finds the assertion
of its target, then whatever run starts with the first assertion and stays in the stretch has the
right assertion at every point.

Calls are taken as one step: what is called keeps the registers that a routine keeps for its caller.
-/

namespace AgentCompiler

open Option List

variable {code : Code} {line : Line} {regs : List Register}

abbrev Assertion := Machine → Prop

def Assertion.Reads (p : Assertion) (regs : List Register) : Prop :=
  ∀ s t : Machine, (∀ r ∈ regs, t.regs r = s.regs r) → p s → p t

structure Line where
  before : Assertion
  instruction : Instruction

def Line.under (p : Assertion) (code : Code) : List Line := code.map (⟨p, ·⟩)

@[simp] lemma Line.map_under (p : Assertion) (code : Code) :
    (under p code).map (·.instruction) = code := by simp [under, Function.comp_def]

@[simp] lemma Line.mem_under {p : Assertion} : line ∈ under p code ↔ line.before = p ∧
    line.instruction ∈ code := by
  simp only [under, List.mem_map]
  constructor
  · rintro ⟨i, mem, rfl⟩
    exact ⟨rfl, mem⟩
  · rintro ⟨rfl, mem⟩
    exact ⟨line.instruction, mem, rfl⟩

/-- A jump to a label that stands in the other line finds what is asserted there. -/
def Line.Reaches (a b : Line) : Prop :=
  ∀ l, a.instruction.jump? = some l → b.instruction = .label l → ∀ s, a.before s → b.before s

/-- An instruction that has its effect and goes on, without a callee or the system. -/
def Instruction.isOwn : Instruction → Bool
  | call _ | syscall | jmp _ | jmpShort _ | jcc _ _ | jccShort _ _ => false
  | _ => true

def Line.straight (P : Process) (p : Assertion) : Code → List Line
  | [] => []
  | i :: rest => ⟨p, i⟩ :: straight P (fun t => ∃ s, p s ∧ P.effect i s = some t) rest

@[simp] lemma Line.map_straight {P : Process} {p : Assertion} (code : Code) :
    (straight P p code).map (·.instruction) = code := by
  induction code generalizing p with
  | nil => rfl
  | cons i rest ih => exact congrArg _ ih

lemma Line.of_straight {P : Process} {p q : Assertion} (reads : q.Reads regs)
    (keeps : ∀ i ∈ code, ∀ reg ∈ regs, reg ∉ i.changed) (start : ∀ s, p s → q s)
    (mem : line ∈ straight P p code) : ∀ s, line.before s → q s := by
  induction code generalizing p with
  | nil => simp [straight] at mem
  | cons i rest ih =>
    rw [forall_mem_cons] at keeps
    rcases mem_cons.1 mem with rfl | later
    · exact start
    · refine ih keeps.2 ?_ later
      rintro t ⟨s, known, runs⟩
      exact reads s t (fun reg inside => (Process.effect_keeps runs).1 reg (keeps.1 reg inside))
        (start s known)

namespace Process

variable {P : Process} {i : Instruction} {s t : Machine} {c : Config}

/-- What is called from the code, and the system, keep the registers that they should. -/
structure Respects (P : Process) : Prop where
  outside : ∀ l routine s t, P.outside l = some routine → routine s = some t →
    s.ChangesOnly (Instruction.call l).changed t
  system : ∀ s t, P.system s = some t → s.ChangesOnly Instruction.syscall.changed t

/-- An instruction behind which control goes on with the next one. -/
inductive Passes (P : Process) : Instruction → Machine → Machine → Prop
  | effect {i : Instruction} {s t : Machine} (runs : P.effect i s = some t) : Passes P i s t
  | call {l : Label} {routine : Machine → Option Machine} {s t : Machine}
      (outside : P.outside l = some routine) (runs : routine s = some t) : Passes P (.call l) s t
  | system {s t : Machine} (runs : P.system s = some t) : Passes P .syscall s t
  | branch {i : Instruction} {l : Label} {s : Machine} (jump : i.jump? = some l) : Passes P i s s

lemma Passes.changes (respects : P.Respects) (h : P.Passes i s t) : s.ChangesOnly i.changed t := by
  cases h with
  | effect runs => exact (effect_keeps runs).1
  | call outside runs => exact respects.outside _ _ s t outside runs
  | system runs => exact respects.system s t runs
  | branch => exact fun _ _ => rfl

lemma Passes.of_isOwn (h : P.Passes i s t) (isOwn : i.isOwn = true) : P.effect i s = some t := by
  cases h with
  | effect runs => exact runs
  | call | system => cases isOwn
  | branch jump => cases i <;> simp_all [Instruction.isOwn, Instruction.jump?]

lemma Passes.of_call {l : Label} (h : P.Passes (.call l) s t) :
    ∃ routine, P.outside l = some routine ∧ routine s = some t := by
  cases h with
  | effect runs => simp [Process.effect] at runs
  | call outside runs => exact ⟨_, outside, runs⟩
  | branch jump => simp [Instruction.jump?] at jump

lemma Goes.cases {d : Config} (goes : P.Goes c d) : ∃ i, P.code[c.position]? = some i ∧
      (P.Passes i c.machine d.machine ∧ d.position = c.position + 1 ∨
        ∃ l, i.jump? = some l ∧ P.labelPosition l = some d.position ∧ d.machine = c.machine) := by
  obtain ⟨stays, runs⟩ := goes
  obtain ⟨i, found, runs⟩ := bind_eq_some_iff.1 runs
  refine ⟨i, found, ?_⟩
  have jumps : ∀ {l : Label}, P.jump l c.machine = some d →
      P.labelPosition l = some d.position ∧ d.machine = c.machine := by
    intro l jump
    obtain ⟨j, target, rfl⟩ := map_eq_some_iff.1 jump
    exact ⟨target, rfl⟩
  cases i with
  | jmp l | jmpShort l => exact .inr ⟨l, rfl, jumps runs⟩
  | jcc cond l | jccShort cond l =>
    obtain ⟨taken, -, runs⟩ := bind_eq_some_iff.1 runs
    cases taken with
    | true => exact .inr ⟨l, rfl, jumps runs⟩
    | false =>
      obtain rfl := some.inj runs
      exact .inl ⟨.branch rfl, rfl⟩
  | call l =>
    cases outside : P.outside l with
    | none => simp [leaves, found, outside] at stays
    | some routine =>
      simp only [outside] at runs
      obtain ⟨t, result, rfl⟩ := map_eq_some_iff.1 runs
      exact .inl ⟨.call outside result, rfl⟩
  | ret => simp [leaves, found] at stays
  | syscall =>
    obtain ⟨t, result, rfl⟩ := map_eq_some_iff.1 runs
    exact .inl ⟨.system result, rfl⟩
  | _ =>
    obtain ⟨t, result, rfl⟩ := map_eq_some_iff.1 runs
    exact .inl ⟨.effect result, rfl⟩

def GoesWithin (P : Process) (start length : Nat) (c d : Config) : Prop :=
  P.Goes c d ∧ start ≤ d.position ∧ d.position < start + length

lemma mem_of_runsWithin {k : Nat} (placed : P.Holds k code) (nonempty : code ≠ [])
    (run : Relation.ReflTransGen (P.GoesWithin k code.length) ⟨k, s⟩ c)
    (at_c : P.code[c.position]? = some i) : i ∈ code := by
  obtain ⟨j, inside, position⟩ : ∃ j < code.length, c.position = k + j := by
    cases run with
    | refl => exact ⟨0, length_pos_iff.2 nonempty, rfl⟩
    | tail _ step =>
      obtain ⟨j, position⟩ := Nat.exists_eq_add_of_le step.2.1
      have high := step.2.2
      exact ⟨j, by omega, position⟩
  have fetched := placed.get (getElem?_eq_getElem inside)
  rw [← position, at_c] at fetched
  rw [some.inj fetched]
  exact getElem_mem inside

inductive Connects (P : Process) : Assertion → List Line → Assertion → Prop
  | nil {p q : Assertion} (weaker : ∀ s, p s → q s) : Connects P p [] q
  | cons {p q r : Assertion} {line : Line} {rest : List Line} (enters : ∀ s, p s → line.before s)
      (passes : ∀ s t, line.before s → P.Passes line.instruction s t → q t)
      (later : Connects P q rest r) : Connects P p (line :: rest) r

namespace Connects

variable {p q r : Assertion} {first second lines : List Line}

lemma strengthen (h : P.Connects q lines r) (weaker : ∀ s, p s → q s) : P.Connects p lines r := by
  cases h with
  | nil enough => exact .nil fun s known => enough s (weaker s known)
  | cons enters passes later => exact .cons (fun s known => enters s (weaker s known)) passes later

lemma weaken (h : P.Connects p lines q) (weaker : ∀ s, q s → r s) : P.Connects p lines r := by
  induction h with
  | nil enough => exact .nil fun s known => weaker s (enough s known)
  | cons enters passes _ ih => exact .cons enters passes (ih weaker)

lemma append (before : P.Connects p first q) (behind : P.Connects q second r) :
    P.Connects p (first ++ second) r := by
  induction before with
  | nil weaker => exact behind.strengthen weaker
  | cons enters passes _ ih => exact .cons enters passes (ih behind)

lemma single (passes : ∀ s t, p s → P.Passes i s t → q t) :
    P.Connects p [⟨p, i⟩] q := .cons (fun _ => id) passes (.nil fun _ => id)

lemma under (respects : P.Respects) (reads : p.Reads regs)
    (keeps : ∀ i ∈ code, ∀ reg ∈ regs, reg ∉ i.changed) : P.Connects p (Line.under p code) p := by
  induction code with
  | nil => exact .nil fun _ => id
  | cons i rest ih =>
    rw [forall_mem_cons] at keeps
    refine .cons (fun _ => id) (fun s t known passes => ?_) (ih keeps.2)
    exact reads s t (fun reg inside => passes.changes respects reg (keeps.1 reg inside)) known

lemma straight (own : ∀ i ∈ code, i.isOwn = true) :
    P.Connects p (Line.straight P p code) fun t => ∃ s, p s ∧ P.execute code s = some t := by
  induction code generalizing p with
  | nil => exact .nil fun s known => ⟨s, known, rfl⟩
  | cons i rest ih =>
    rw [forall_mem_cons] at own
    refine .cons (fun _ => id) (fun s t known runs => ?_) ((ih own.2).weaken ?_)
    · exact ⟨s, known, runs.of_isOwn own.1⟩
    · rintro t ⟨u, ⟨s, known, first⟩, later⟩
      exact ⟨s, known, by rw [execute_cons, first, bind_some, later]⟩

lemma enters (h : P.Connects p lines q) (found : lines[0]? = some line) (known : p s) :
    line.before s := by
  cases h with
  | nil => simp at found
  | cons enters =>
    obtain rfl := some.inj found
    exact enters s known

lemma passes {j : Nat} {next : Line} (h : P.Connects p lines q) (found : lines[j]? = some line)
    (found' : lines[j + 1]? = some next) (known : line.before s)
    (runs : P.Passes line.instruction s t) : next.before t := by
  induction h generalizing j with
  | nil => simp at found
  | cons _ step later ih =>
    cases j with
    | zero =>
      obtain rfl := some.inj found
      exact later.enters (by simpa using found') (step s t known runs)
    | succ j => exact ih (by simpa using found) (by simpa using found')

lemma holds {k : Nat} (leads : P.Connects p lines q)
    (jumps : ∀ a ∈ lines, ∀ b ∈ lines, a.Reaches b) (placed : P.Holds k (lines.map (·.instruction)))
    (nonempty : lines ≠ []) (start : p s)
    (run : Relation.ReflTransGen (P.GoesWithin k lines.length) ⟨k, s⟩ c) :
    ∃ j line, c.position = k + j ∧ lines[j]? = some line ∧ line.before c.machine := by
  induction run with
  | refl =>
    obtain ⟨line, rest, rfl⟩ := exists_cons_of_ne_nil nonempty
    exact ⟨0, line, rfl, rfl, leads.enters rfl start⟩
  | @tail c d _ step ih =>
    obtain ⟨j, line, position, found, known⟩ := ih
    obtain ⟨goes, low, high⟩ := step
    obtain ⟨j', position'⟩ := Nat.exists_eq_add_of_le low
    have inside : j' < lines.length := by omega
    have found' := getElem?_eq_getElem inside
    have at_line : ∀ {j : Nat} {line : Line}, lines[j]? = some line →
        P.code[k + j]? = some line.instruction := fun found =>
      placed.get (by rw [getElem?_map, found]; rfl)
    refine ⟨j', lines[j'], position', found', ?_⟩
    obtain ⟨i, fetched, ⟨passes, next⟩ | ⟨l, jump, target, same⟩⟩ := goes.cases
    · rw [position, at_line found] at fetched
      obtain rfl := some.inj fetched
      obtain rfl : j' = j + 1 := by omega
      exact leads.passes found found' known passes
    · rw [position, at_line found] at fetched
      obtain rfl := some.inj fetched
      obtain ⟨_, lands, -⟩ := findIdx?_eq_some_iff_getElem.1 target
      have label : lines[j'].instruction = .label l := by
        have there := at_line found'
        rw [← position'] at there
        have same := (List.getElem?_eq_some_iff.1 there).2
        rw [← same]
        simpa using lands
      rw [same]
      exact jumps line (mem_of_getElem? found) lines[j'] (getElem_mem inside) l jump label _ known

end Connects

end Process

end AgentCompiler
