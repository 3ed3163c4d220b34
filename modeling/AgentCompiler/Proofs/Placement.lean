import AgentCompiler.Object.Assembly
import AgentCompiler.Proofs.Success

/-!
The layout of a stream, by induction over its directives and instructions: it keeps them all, puts
each one where the one before it ends, and binds each label once, to the offset of its position.
-/

namespace AgentCompiler

structure Placed.IsSound (p : Placed) : Prop where
  encoded : p.instruction.encode = .ok p.encoding
  aligned : ∀ n, p.instruction = .align n → isPowerOfTwo n = true

namespace Assembly

variable {names : Names} {offset : Nat} {bound final : LabelOffsets} {i : Instruction}
  {code rest : List Instruction} {placed : List Placed} {l : Label}

section

@[simp] lemma refuse_ne_ok {α : Type} {a : α} {message : String} :
    refuse names i message ≠ .ok a := by
  unfold refuse
  cases i.render names <;> simp [bind, Except.bind, throw_eq_error]

lemma encodeOrRefuse_ok {e : Encoding} : encodeOrRefuse names i = .ok e ↔ i.encode = .ok e := by
  unfold encodeOrRefuse
  split
  next encoding h => simp [h]
  next fault h => simp [h]

lemma bindAt_cases {after : LabelOffsets} (h : bindAt names offset bound i = .ok after) :
    (∃ l, i = .label l ∧ bound.lookup l = none ∧ after = (l, offset) :: bound) ∨
      ((∀ l, i ≠ .label l) ∧ (∀ n, i = .align n → isPowerOfTwo n = true) ∧ after = bound) := by
  unfold bindAt at h
  split at h
  next l =>
    split at h
    next => simp at h
    next free =>
      exact .inl ⟨l, rfl, Option.not_isSome_iff_eq_none.1 free, (pure_ok.1 h).symm⟩
  next n =>
    split at h
    next hn =>
      refine .inr ⟨nofun, ?_, (pure_ok.1 h).symm⟩
      rintro m ⟨⟩
      exact hn
    next => simp at h
  next label align =>
    exact .inr ⟨label, fun n hn => absurd hn (align n), (pure_ok.1 h).symm⟩

lemma place_nil (h : place names offset bound [] = .ok (placed, final)) : placed = [] ∧
    final = bound := by
  rw [place, pure_ok, Prod.mk.injEq] at h
  exact ⟨h.1.symm, h.2.symm⟩

lemma place_cons (h : place names offset bound (i :: rest) = .ok (placed, final)) :
    ∃ after e tail, bindAt names offset bound i = .ok after ∧ i.encode = .ok e ∧
      place names (Placed.mk i e offset).next after rest = .ok (tail, final) ∧
      placed = ⟨i, e, offset⟩ :: tail := by
  rw [place] at h
  obtain ⟨after, follows, h⟩ := bind_ok.1 h
  obtain ⟨e, he, h⟩ := bind_ok.1 h
  obtain ⟨⟨tail, last⟩, more, h⟩ := bind_ok.1 h
  obtain ⟨rfl, rfl⟩ := Prod.mk.inj (pure_ok.1 h)
  exact ⟨after, e, tail, follows, encodeOrRefuse_ok.1 he, more, rfl⟩

def Consecutive : Nat → List Placed → Prop
  | _, [] => True
  | offset, p :: rest => p.offset = offset ∧ Consecutive p.next rest

section

variable (h : place names offset bound code = .ok (placed, final))
include h

lemma place_sound : placed.map (·.instruction) = code ∧ Consecutive offset placed ∧ ∀ p ∈ placed,
    p.IsSound := by
  induction code generalizing offset bound placed with
  | nil =>
    obtain ⟨rfl, rfl⟩ := place_nil h
    exact ⟨rfl, trivial, by simp⟩
  | cons i rest ih =>
    obtain ⟨after, e, tail, follows, he, more, rfl⟩ := place_cons h
    obtain ⟨map, consecutive, sound⟩ := ih more
    have align : ∀ n, i = .align n → isPowerOfTwo n = true := by
      obtain ⟨l, rfl, -, -⟩ | ⟨-, align, -⟩ := bindAt_cases follows
      · exact nofun
      · exact align
    refine ⟨by rw [List.map_cons, map], ⟨rfl, consecutive⟩, ?_⟩
    intro p hp
    obtain rfl | hp := List.mem_cons.1 hp
    · exact ⟨he, align⟩
    · exact sound p hp

lemma lookup_place (l : Label) (n : Nat) : final.lookup l = some n ↔
      bound.lookup l = some n ∨ ∃ p ∈ placed, p.instruction = .label l ∧ p.offset = n := by
  induction code generalizing offset bound placed with
  | nil =>
    obtain ⟨rfl, rfl⟩ := place_nil h
    simp
  | cons i rest ih =>
    obtain ⟨after, e, tail, follows, -, more, rfl⟩ := place_cons h
    rw [ih more]
    simp only [List.mem_cons, exists_eq_or_imp]
    obtain ⟨m, rfl, free, rfl⟩ | ⟨label, -, rfl⟩ := bindAt_cases follows
    · by_cases same : l = m
      · subst same
        simp [free]
      · have key := beq_false_of_ne same
        simp [List.lookup_cons, key, Ne.symm same]
    · simp [label l]

end

end

end Assembly

end AgentCompiler
