import AgentCompiler.Proofs.CodeLayout
import AgentCompiler.Proofs.ReadyCode

/-!
Short branches. No instruction takes more than twelve bytes, and every short branch has its label
at most ten instructions away, so that its distance fits one byte whatever the settings are.
-/

namespace AgentCompiler

open Encoding Instruction List

variable {e : Encoding} {count : Nat} {i : Instruction} {l : Label} {passed : Code}

section

variable {code : Code}

/-- The labels among the next instructions, up to an alignment. -/
def nearLabels (count : Nat) (code : Code) : List Label :=
  boundLabels ((code.take count).takeWhile fun i => !i.isAlign)

/-- The short branches of code, each with the labels near it. What has been passed is given from
the last instruction on. -/
def shortBranches : Code → Code → List (Label × List Label)
  | _, [] => []
  | passed, i :: rest =>
    (i.shortTarget?.toList.map fun l => (l, nearLabels 11 rest ++ nearLabels 11 (i :: passed))) ++
      shortBranches (i :: passed) rest

def HasNearShorts (passed code : Code) : Prop := ∀ pair ∈ shortBranches passed code, pair.1 ∈ pair.2

lemma mem_nearLabels_cons : l ∈ nearLabels (count + 1) (i :: code) ↔
      i.isAlign = false ∧ (i = .label l ∨ l ∈ nearLabels count code) := by
  cases align : i.isAlign with
  | true => simp [nearLabels, align]
  | false =>
    simp only [nearLabels, take_succ_cons, takeWhile_cons, align, Bool.not_false,
      if_true, boundLabels_cons, mem_append, Option.mem_toList, true_and]
    refine or_congr_left ?_
    cases i <;> simp [boundLabel?, eq_comm]

lemma nearLabels_append_left {rest : Code} (h : l ∈ nearLabels count code) : l ∈ nearLabels count
    (code ++ rest) := by
  induction code generalizing count with
  | nil => simp [nearLabels] at h
  | cons i code ih =>
    cases count with
    | zero => simp [nearLabels] at h
    | succ count =>
      rw [mem_nearLabels_cons] at h
      rw [cons_append, mem_nearLabels_cons]
      exact ⟨h.1, h.2.imp_right ih⟩

lemma hasNearShorts_cons : HasNearShorts passed (i :: code) ↔ (∀ l, i.shortTarget? = some l →
        l ∈ nearLabels 11 code ∨ l ∈ nearLabels 11 (i :: passed)) ∧
      HasNearShorts (i :: passed) code := by
  unfold HasNearShorts
  rw [shortBranches, forall_mem_append, forall_mem_map]
  simp only [Option.mem_toList, mem_append]

lemma HasNearShorts.append {first second : Code} (h : HasNearShorts passed first)
    (h' : HasNearShorts (first.reverse ++ passed) second) : HasNearShorts passed
    (first ++ second) := by
  induction first generalizing passed with
  | nil => exact h'
  | cons i first ih =>
    rw [hasNearShorts_cons] at h
    rw [cons_append, hasNearShorts_cons]
    refine ⟨fun l hl => (h.1 l hl).imp_left nearLabels_append_left, ih h.2 ?_⟩
    simpa using h'

lemma HasNearShorts.weaken {before : Code} (h : HasNearShorts passed code) :
    HasNearShorts (passed ++ before) code := by
  induction code generalizing passed with
  | nil => simp [HasNearShorts, shortBranches]
  | cons i code ih =>
    rw [hasNearShorts_cons] at h ⊢
    exact ⟨fun l hl => (h.1 l hl).imp_right nearLabels_append_left, ih h.2⟩

lemma hasNearShorts_of_none (h : ∀ i ∈ code, i.shortTarget? = none) :
    HasNearShorts passed code := by
  induction code generalizing passed with
  | nil => simp [HasNearShorts, shortBranches]
  | cons i code ih =>
    rw [forall_mem_cons] at h
    rw [hasNearShorts_cons]
    exact ⟨by simp [h.1], ih h.2⟩

lemma HasNearShorts.flatMap {α : Type} {f : α → Code} {items : List α}
    (h : ∀ a ∈ items, HasNearShorts [] (f a)) : HasNearShorts passed (items.flatMap f) := by
  induction items generalizing passed with
  | nil => simp [HasNearShorts, shortBranches]
  | cons a items ih =>
    rw [forall_mem_cons] at h
    exact .append h.1.weaken (ih h.2)

lemma ServiceText.hasNearShorts {cap heapSize known : Nat} {s : Service} {locals : List Label}
    (h : ServiceText cap heapSize known s locals code) : HasNearShorts [] code := by
  unfold HasNearShorts
  cases h
  all_goals
    conv in shortBranches _ _ => cbv
    simp

end

namespace Assembly

variable {names : Names} {offset goal : Nat} {bound final after : LabelOffsets} {code : Code}
  {placed : List Placed}

def IsBehind (passed : Code) (offset : Nat) (bound : LabelOffsets) : Prop :=
  ∀ count, ∀ l ∈ nearLabels count passed, ∃ goal, bound.lookup l = some goal ∧ goal ≤ offset ∧
    offset + 12 ≤ goal + 12 * count

lemma next_le (same : i.encode = .ok e) (hi : i.isAlign = false) :
    offset ≤ (Placed.mk i e offset).next ∧ (Placed.mk i e offset).next ≤ offset + 12 := by
  have ne : ∀ n, i ≠ .align n := by
    rintro n rfl
    simp [isAlign] at hi
  have size := (namesAs_encode same).size_le
  rw [next_of_ne_align ne]
  omega

lemma lookup_of_bindAt (h : bindAt names offset bound i = .ok after)
    (found : bound.lookup l = some goal) : after.lookup l = some goal := by
  obtain ⟨m, rfl, free, rfl⟩ | ⟨-, -, rfl⟩ := bindAt_cases h
  · have ne : l ≠ m := by
      rintro rfl
      simp [found] at free
    simpa [lookup_cons, beq_false_of_ne ne] using found
  · exact found

lemma IsBehind.step (h : IsBehind passed offset bound)
    (follows : bindAt names offset bound i = .ok after) (same : i.encode = .ok e) :
    IsBehind (i :: passed) (Placed.mk i e offset).next after := by
  intro count l hl
  cases count with
  | zero => simp [nearLabels] at hl
  | succ count =>
    obtain ⟨hi, hl⟩ := mem_nearLabels_cons.1 hl
    have next : offset ≤ _ ∧ _ := next_le same hi
    obtain rfl | hl := hl
    · obtain ⟨m, hm, -, rfl⟩ | ⟨label, -, -⟩ := bindAt_cases follows
      · obtain rfl : l = m := by simpa using hm
        obtain rfl := Except.ok.inj same
        refine ⟨offset, by simp, le_rfl, ?_⟩
        have null : (Placed.mk (.label l) {} offset).next = offset := rfl
        omega
      · exact absurd rfl (label l)
    · obtain ⟨goal, leads, le, ge⟩ := h count l hl
      exact ⟨goal, lookup_of_bindAt follows leads, by omega, by omega⟩

section

variable (h : place names offset bound code = .ok (placed, final))
include h

lemma lookup_of_place (found : bound.lookup l = some goal) :
    final.lookup l = some goal := (lookup_place h l goal).2 (.inl found)

lemma lookup_ahead (mem : l ∈ nearLabels count code) :
    ∃ goal, final.lookup l = some goal ∧ offset ≤ goal ∧ goal + 12 ≤ offset + 12 * count := by
  induction code generalizing offset bound placed count with
  | nil => simp [nearLabels] at mem
  | cons i rest ih =>
    cases count with
    | zero => simp [nearLabels] at mem
    | succ count =>
      obtain ⟨after, e, tail, follows, he, more, rfl⟩ := place_cons h
      obtain ⟨hi, mem⟩ := mem_nearLabels_cons.1 mem
      have next : offset ≤ _ ∧ _ := next_le he hi
      obtain rfl | mem := mem
      · obtain ⟨m, hm, -, rfl⟩ | ⟨label, -, -⟩ := bindAt_cases follows
        · obtain rfl : l = m := by simpa using hm
          exact ⟨offset, lookup_of_place more (by simp), le_rfl, by omega⟩
        · exact absurd rfl (label l)
      · obtain ⟨goal, leads, le, ge⟩ := ih more mem
        exact ⟨goal, leads, by omega, by omega⟩

lemma short_distances (near : HasNearShorts passed code) (behind : IsBehind passed offset bound) :
    ∀ p ∈ placed, ∀ l, p.instruction.shortTarget? = some l →
      ∃ goal : Nat, final.lookup l = some goal ∧ fitsInt8 (goal - p.next) = true := by
  induction code generalizing offset bound placed passed with
  | nil =>
    obtain ⟨rfl, -⟩ := place_nil h
    simp
  | cons i rest ih =>
    obtain ⟨after, e, tail, follows, he, more, rfl⟩ := place_cons h
    rw [hasNearShorts_cons] at near
    rw [forall_mem_cons]
    refine ⟨fun l hl => ?_, ih more near.2 (behind.step follows he)⟩
    obtain hl | hl := near.1 l hl
    · obtain ⟨goal, leads, le, ge⟩ := lookup_ahead more hl
      refine ⟨goal, leads, ?_⟩
      simp only [fitsInt8, Bool.and_eq_true, decide_eq_true_eq]
      omega
    · obtain ⟨goal, leads, le, ge⟩ := behind.step follows he 11 l hl
      refine ⟨goal, lookup_of_place more leads, ?_⟩
      simp only [fitsInt8, Bool.and_eq_true, decide_eq_true_eq]
      omega

end

end Assembly

lemma ProgramText.hasNearShorts {program : Program} {layout : Layout} {settings : Settings}
    {object : ObjectCode} (h : ProgramText program layout settings object) :
    HasNearShorts [] object.code := by
  obtain ⟨plan, entry, main, routines, -, -, services, -, rfl⟩ := h
  have made := Plan.make_isMade plan
  have grows0 := Pool.Grows.names (.entry entry)
  have grows1 := grows0.trans main.grows
  have hk1 := grows1.knows made.knows
  have hk2 := (routines.grows hk1).knows hk1
  refine .append (hasNearShorts_of_none ?_)
    (.flatMap fun u hu => (services.text hk2 u hu).hasNearShorts)
  refine forall_mem_append.2 ⟨forall_mem_append.2 ⟨by simp [shortTarget?, arith], fun i hi => ?_⟩,
    fun i hi => ?_⟩
  · exact (main.steady False.elim (fun t args hp =>
      (made.callsBelow _ t args hp).trans_le grows0.labels_le) i hi).far
  · exact (routines.steady hk1 False.elim (fun _ _ => False.elim) (fun source t args hp =>
      (made.callsBelow source t args hp).trans_le grows1.labels_le) i hi).far

end AgentCompiler
