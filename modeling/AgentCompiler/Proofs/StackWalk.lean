import AgentCompiler.Proofs.Writing

/-!
Where the stack pointer is. A point says how many bytes the stack pointer lies below a mark, and
which depth the frame pointer marks, as far as that is known; every instruction takes one point to
the next. Code walks from point to point when each of its labels is always reached at the same
point, calls are made on a multiple of sixteen, and nothing is left on the stack by a return.
-/

namespace AgentCompiler

open Instruction Register

/-- What depths are counted from: the stack pointer on entry, or the multiple of sixteen that it was
rounded down to. -/
inductive StackMark
  | entry | boundary
  deriving DecidableEq

structure StackPoint where
  mark : StackMark := .entry
  depth : Int := 0
  /-- The depth that the frame pointer marks. -/
  frame : Option Int := none
  deriving DecidableEq

namespace StackPoint

def onEntry : StackPoint := {}

/-- Bytes below the last multiple of sixteen above. A return address lies between that and the
stack pointer on entry. -/
def below (s : StackPoint) : Int :=
  match s.mark with
  | .entry => s.depth + 8
  | .boundary => s.depth

def IsAligned (s : StackPoint) : Prop := s.below % 16 = 0

def IsEmpty (s : StackPoint) : Prop := s.mark = .entry ∧ s.depth = 0

instance (s : StackPoint) : Decidable s.IsAligned := inferInstanceAs (Decidable (_ = _))

instance (s : StackPoint) : Decidable s.IsEmpty := inferInstanceAs (Decidable (_ ∧ _))

def grow (s : StackPoint) (bytes : Int) : StackPoint := { s with depth := s.depth + bytes }

@[simp] lemma grow_grow (s : StackPoint) (m n : Int) : (s.grow m).grow n = s.grow (m + n) := by
  simp [grow, Int.add_assoc]

@[simp] lemma grow_zero (s : StackPoint) : s.grow 0 = s := by simp [grow]

@[simp] lemma below_grow (s : StackPoint) (n : Int) : (s.grow n).below = s.below + n := by
  obtain ⟨mark, depth, frame⟩ := s
  cases mark <;> simp only [below, grow]
  omega

@[simp] lemma isEmpty_onEntry : onEntry.IsEmpty := ⟨rfl, rfl⟩

@[simp] lemma isAligned_onEntry_grow (n : Int) : (onEntry.grow n).IsAligned ↔ (8 + n) % 16 = 0 := by
  rw [IsAligned, below_grow]
  rfl

end StackPoint

namespace Instruction

def setsStack (s : StackPoint) : Instruction → Option StackPoint
  | alu .sub .qword _ (.imm n) => some (s.grow n.toInt)
  | alu .add .qword _ (.imm n) => some (s.grow (-n.toInt))
  | alu .and .qword _ (.imm n) => if n = -16 then some ⟨.boundary, 0, none⟩ else none
  | mov .qword _ (.reg .rbp) => s.frame.map fun depth => { s with depth }
  | _ => none

/-- The depth that an instruction which writes the frame pointer makes it mark. -/
def setsFrame (s : StackPoint) : Instruction → Option Int
  | mov .qword _ (.reg .rsp) => some s.depth
  | _ => none

/-- The point behind an instruction that uses the stack as a place for a register at most. -/
def writes (i : Instruction) (s : StackPoint) : Option StackPoint :=
  match i.destination? with
  | some .rsp => i.setsStack s
  | some .rbp => some { s with frame := i.setsFrame s }
  | _ => some s

/-- From the point before an instruction to the point behind it. A call comes back with the stack
as it was. -/
def moves (i : Instruction) (s : StackPoint) : Option StackPoint :=
  match i with
  | push _ => some (s.grow 8)
  | pop .rsp => none
  | pop .rbp => some { s.grow (-8) with frame := none }
  | pop _ => some (s.grow (-8))
  | i => i.writes s

def jump? : Instruction → Option Label
  | jmp l | jmpShort l | jcc _ l | jccShort _ l => some l
  | _ => none

/-- Control can go on to the next instruction. The services that end the program do not return. -/
def fallsThrough : Instruction → Bool
  | jmp _ | jmpShort _ | ret | ud2 => false
  | call l => l != Service.abort.label && l != Service.exit.label
  | _ => true

/-- What an instruction asks of the point at which it stands, where `points` are those of the labels
of the routine and `isEntry` says which labels are entry points. A routine ends where the next one
is aligned. -/
def Fits (points : Label → Option StackPoint) (isEntry : Label → Prop) (s : StackPoint) :
    Instruction → Prop
  | align _ => False
  | label l => points l = some s
  | jmp l | jmpShort l | jcc _ l | jccShort _ l =>
    points l = some s ∨ (points l = none ∧ isEntry l ∧ s.IsEmpty)
  | call _ => s.IsAligned
  | ret => s.IsEmpty
  | _ => True

end Instruction

/-- Code that takes one point to another, straight through. -/
inductive Walk (points : Label → Option StackPoint) (isEntry : Label → Prop) :
    StackPoint → Code → StackPoint → Prop
  | nil (s : StackPoint) : Walk points isEntry s [] s
  | cons {s t u : StackPoint} {i : Instruction} {code : Code} :
      i.Fits points isEntry s → i.moves s = some t → Walk points isEntry t code u →
        Walk points isEntry s (i :: code) u

section

variable {points : Label → Option StackPoint} {isEntry : Label → Prop} {s t u : StackPoint}
  {code first second : Code} {i : Instruction}

@[simp] lemma walk_nil : Walk points isEntry s [] t ↔ s = t := by
  constructor
  · rintro ⟨⟩
    rfl
  · rintro rfl
    exact .nil s

lemma walk_cons : Walk points isEntry s (i :: code) u ↔
    i.Fits points isEntry s ∧ ∃ t, i.moves s = some t ∧ Walk points isEntry t code u := by
  constructor
  · rintro (_ | ⟨fits, moves, rest⟩)
    exact ⟨fits, _, moves, rest⟩
  · rintro ⟨fits, t, moves, rest⟩
    exact .cons fits moves rest

lemma Walk.append (h : Walk points isEntry s first t) (h' : Walk points isEntry t second u) :
    Walk points isEntry s (first ++ second) u := by
  induction h with
  | nil s => exact h'
  | cons fits moves _ ih => exact .cons fits moves (ih h')

lemma writes_of_destination (h : i.destination?.any isStackRegister = false) :
    i.writes s = some s := by
  unfold writes
  split
  next rsp => simp [rsp, isStackRegister] at h
  next rbp => simp [rbp, isStackRegister] at h
  next => rfl

lemma moves_of_isStraight (h : i.isStraight = true) : i.moves s = some s := by
  have moves : i.moves s = i.writes s := by
    cases i with
    | push r | pop r => simp [isStraight] at h
    | _ => rfl
  rw [moves]
  refine writes_of_destination ?_
  cases i <;> simp_all [isStraight]

lemma fits_of_isStraight (h : i.isStraight = true) : i.Fits points isEntry s := by
  cases i with
  | align n => simp [isStraight] at h
  | _ => trivial

lemma walk_cons_still (h : i.moves s = some s) :
    Walk points isEntry s (i :: code) u ↔ i.Fits points isEntry s ∧
        Walk points isEntry s code u := by
  simp [walk_cons, h]

lemma walk_cons_straight (h : i.isStraight = true) :
    Walk points isEntry s (i :: code) u ↔ Walk points isEntry s code u := by
  simp [walk_cons_still (moves_of_isStraight h), fits_of_isStraight h]

section

variable {l : Label} {cond : Condition} {r : Register} {n : Int64}

@[simp] lemma walk_cons_label : Walk points isEntry s (label l :: code) u ↔
    points l = some s ∧ Walk points isEntry s code u :=
  walk_cons_still rfl

@[simp] lemma walk_cons_call : Walk points isEntry s (call l :: code) u ↔
    s.IsAligned ∧ Walk points isEntry s code u :=
  walk_cons_still rfl

@[simp] lemma walk_cons_ret : Walk points isEntry s (ret :: code) u ↔ s.IsEmpty ∧
    Walk points isEntry s code u :=
  walk_cons_still rfl

@[simp] lemma walk_cons_syscall : Walk points isEntry s (syscall :: code) u ↔
    Walk points isEntry s code u :=
  (walk_cons_still rfl).trans (iff_of_eq (true_and _))

@[simp] lemma walk_cons_ud2 : Walk points isEntry s (ud2 :: code) u ↔
    Walk points isEntry s code u :=
  (walk_cons_still rfl).trans (iff_of_eq (true_and _))

@[simp] lemma walk_cons_jmp : Walk points isEntry s (jmp l :: code) u ↔
    (points l = some s ∨ (points l = none ∧ isEntry l ∧ s.IsEmpty)) ∧
    Walk points isEntry s code u :=
  walk_cons_still rfl

@[simp] lemma walk_cons_jmpShort : Walk points isEntry s (jmpShort l :: code) u ↔
    (points l = some s ∨ (points l = none ∧ isEntry l ∧ s.IsEmpty)) ∧
    Walk points isEntry s code u :=
  walk_cons_still rfl

@[simp] lemma walk_cons_jcc : Walk points isEntry s (jcc cond l :: code) u ↔
    (points l = some s ∨ (points l = none ∧ isEntry l ∧ s.IsEmpty)) ∧
    Walk points isEntry s code u :=
  walk_cons_still rfl

@[simp] lemma walk_cons_jccShort : Walk points isEntry s (jccShort cond l :: code) u ↔
    (points l = some s ∨ (points l = none ∧ isEntry l ∧ s.IsEmpty)) ∧
    Walk points isEntry s code u :=
  walk_cons_still rfl

@[simp] lemma walk_cons_push : Walk points isEntry s (push r :: code) u ↔ Walk points isEntry
    (s.grow 8) code u := by
  simp [walk_cons, Instruction.Fits, moves]

lemma walk_cons_pop (rsp : r ≠ .rsp) (rbp : r ≠ .rbp) :
    Walk points isEntry s (pop r :: code) u ↔ Walk points isEntry (s.grow (-8)) code u := by
  have moves : (pop r).moves s = some (s.grow (-8)) := by
    cases r <;> first | rfl | contradiction
  simp [walk_cons, Instruction.Fits, moves]

@[simp] lemma walk_cons_sub_rsp : Walk points isEntry s
      (alu .sub .qword (.reg .rsp) (.imm n) :: code) u ↔ Walk points isEntry (s.grow n.toInt)
      code u := by
  simp [walk_cons, Instruction.Fits, moves, writes, destination?, setsStack]

@[simp] lemma walk_cons_add_rsp : Walk points isEntry s
      (alu .add .qword (.reg .rsp) (.imm n) :: code) u ↔ Walk points isEntry (s.grow (-n.toInt))
      code u := by
  simp [walk_cons, Instruction.Fits, moves, writes, destination?, setsStack]

end

lemma walk_straight (h : ∀ i ∈ code, i.isStraight = true) : Walk points isEntry s code s := by
  induction code with
  | nil => exact .nil s
  | cons i rest ih =>
    rw [List.forall_mem_cons] at h
    exact .cons (fits_of_isStraight h.1) (moves_of_isStraight h.1) (ih h.2)

lemma walk_pushes (rs : List Register) : Walk points isEntry s (rs.map push)
    (s.grow (8 * rs.length)) := by
  induction rs generalizing s with
  | nil => simp
  | cons r rest ih =>
    have more := ih (s := s.grow 8)
    have sum : (8 : Int) + 8 * rest.length = 8 * (r :: rest).length := by simp; omega
    rw [StackPoint.grow_grow, sum] at more
    exact .cons trivial rfl more

lemma walk_pops {rs : List Register} (h : ∀ r ∈ rs, r.isStackRegister = false) :
    Walk points isEntry s (rs.map pop) (s.grow (-(8 * rs.length))) := by
  induction rs generalizing s with
  | nil => simp
  | cons r rest ih =>
    rw [List.forall_mem_cons] at h
    obtain ⟨rsp, rbp⟩ : r ≠ .rsp ∧ r ≠ .rbp := by simpa [isStackRegister] using h.1
    have more := ih h.2 (s := s.grow (-8))
    have sum : (-8 : Int) + -(8 * rest.length) = -(8 * (r :: rest).length) := by simp; omega
    rw [StackPoint.grow_grow, sum] at more
    exact (walk_cons_pop rsp rbp).2 more

lemma walk_passArguments (args : List Argument) : Walk points isEntry s (passArguments args) s := by
  refine walk_straight fun i hi => ?_
  have all : ∀ r ∈ arguments, r.isStackRegister = false := by decide
  obtain ⟨dst, goes, ⟨src, rfl⟩ | ⟨value, rfl⟩ | ⟨s, addend, -, rfl⟩⟩ := mem_passArguments hi <;>
    simp [isStraight, move, destination?, all dst goes]

/-- Whatever is pushed for a call is popped behind it, and the call is made on a multiple of
sixteen. -/
lemma walk_callSequence {live : List Register} {target : Label} {args : List Argument}
    (alive : live <+: scratch) (hs : s.IsAligned) :
    Walk points isEntry s (callSequence live target args) s := by
  have hsaved : ∀ r ∈ live.filter isCallerSaved, r.isStackRegister = false :=
    fun r hr => isStackRegister_of_mem_scratch (alive.subset (List.mem_of_mem_filter hr))
  simp only [callSequence]
  generalize live.filter isCallerSaved = saved at hsaved ⊢
  have pushes : Walk points isEntry s (saved.map push) (s.grow (8 * saved.length)) :=
    walk_pushes saved
  have pops : Walk points isEntry (s.grow (8 * saved.length)) (saved.reverse.map pop) s := by
    have reverse : ∀ r ∈ saved.reverse, r.isStackRegister = false := fun r hr =>
      hsaved r (List.mem_reverse.1 hr)
    simpa only [StackPoint.grow_grow, List.length_reverse, Int.add_right_neg,
      StackPoint.grow_zero] using walk_pops (s := s.grow (8 * saved.length)) reverse
  have pass : ∀ t, Walk points isEntry t (passArguments args) t := fun t => walk_passArguments args
  unfold StackPoint.IsAligned at hs
  by_cases odd : saved.length % 2 = 1
  · have aligned : ((s.grow (8 * saved.length)).grow 8).IsAligned := by
      simp only [StackPoint.IsAligned, StackPoint.below_grow]
      omega
    have sub : Walk points isEntry (s.grow (8 * saved.length))
        [arith .sub rsp (.imm 8)] ((s.grow (8 * saved.length)).grow 8) := by
      simp [arith]
    have add : Walk points isEntry ((s.grow (8 * saved.length)).grow 8)
        [arith .add rsp (.imm 8)] (s.grow (8 * saved.length)) := by
      simp [arith]
    have called : Walk points isEntry ((s.grow (8 * saved.length)).grow 8) [call target] _ :=
      walk_cons_call.2 ⟨aligned, .nil _⟩
    simpa only [odd, beq_self_eq_true, if_true] using
      ((((pushes.append sub).append (pass _)).append called).append add).append pops
  · have aligned : (s.grow (8 * saved.length)).IsAligned := by
      simp only [StackPoint.IsAligned, StackPoint.below_grow]
      omega
    have called : Walk points isEntry (s.grow (8 * saved.length)) [call target] _ :=
      walk_cons_call.2 ⟨aligned, .nil _⟩
    simpa [odd] using ((pushes.append (pass _)).append called).append pops

lemma Written.walk {plan : Plan} {source : Endpoint} {lo hi : Nat} {p q : Pool}
    {P Q : Multiset Label} (h : Written plan source lo p P code q Q) (hs : s.IsAligned)
    (hpoints : ∀ l : Label, lo ≤ l.id → l.id < hi → points l = some s)
    (hlo : lo ≤ p.labels.size) (hhi : q.labels.size ≤ hi) (hP : ∀ l ∈ P, lo ≤ l.id ∧ l.id < hi) :
    Walk points isEntry s code s ∧ ∀ l ∈ Q, lo ≤ l.id ∧ l.id < hi := by
  induction h with
  | plain simple => exact ⟨walk_straight fun i hi => (simple i hi).straight, hP⟩
  | interns _ => exact ⟨.nil s, hP⟩
  | fresh hfresh =>
    obtain ⟨named, size, -⟩ := Emit.fresh_facts hfresh
    refine ⟨.nil s, ?_⟩
    rw [Multiset.forall_mem_cons]
    exact ⟨by omega, hP⟩
  | bind binds =>
    rw [binds, Multiset.forall_mem_cons] at hP
    exact ⟨.cons (hpoints _ hP.1.1 hP.1.2) rfl (.nil s), hP.2⟩
  | jump le lt | branch le lt =>
    exact ⟨.cons (.inl (hpoints _ le (lt.trans_le hhi))) rfl (.nil s), hP⟩
  | call live _ _ => exact ⟨walk_callSequence live hs, hP⟩
  | append h1 h2 ih1 ih2 =>
    obtain ⟨begins, hS⟩ := ih1 hlo (h2.labels_le.trans hhi) hP
    obtain ⟨later, hQ⟩ := ih2 (hlo.trans h1.labels_le) hhi hS
    exact ⟨begins.append later, hQ⟩

end

end AgentCompiler
