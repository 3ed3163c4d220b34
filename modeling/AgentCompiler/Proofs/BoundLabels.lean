import AgentCompiler.Proofs.ProgramText

/-!
Where labels are bound. A body binds exactly the labels that are named while it is written, a
routine its entry point besides, and a service its entry point and its local labels.
-/

namespace AgentCompiler

open Instruction List

variable {code : Code}

def Instruction.boundLabel? : Instruction → Option Label
  | label l => some l
  | _ => none

def Instruction.isAlign : Instruction → Bool
  | align _ => true
  | _ => false

def boundLabels (code : Code) : List Label := code.filterMap boundLabel?

@[simp] lemma boundLabels_nil : boundLabels [] = [] := rfl

@[simp] lemma boundLabels_cons (i : Instruction) (code : Code) :
    boundLabels (i :: code) = i.boundLabel?.toList ++ boundLabels code := by
  simp only [boundLabels, filterMap_cons]
  cases i.boundLabel? <;> rfl

@[simp] lemma boundLabels_append (first second : Code) :
    boundLabels (first ++ second) = boundLabels first ++ boundLabels second :=
  filterMap_append

lemma mem_boundLabels {l : Label} : l ∈ boundLabels code ↔ .label l ∈ code := by
  simp only [boundLabels, mem_filterMap]
  constructor
  · rintro ⟨i, hi, hl⟩
    cases i <;> simp only [boundLabel?, Option.some.injEq, reduceCtorEq] at hl
    exact hl ▸ hi
  · intro h
    exact ⟨_, h, rfl⟩

lemma nodup_labelsFrom (start count : Nat) : (labelsFrom start count).Nodup :=
  List.Nodup.map (fun _ _ h => congrArg Label.id h) nodup_range'

lemma count_label (code : Code) (l : Label) : code.count (label l) =
    (boundLabels code).count l := by
  rw [boundLabels, count_filterMap, count_eq_countP]
  refine countP_congr fun i _ => ?_
  cases i <;> simp [boundLabel?]

lemma boundLabels_eq_nil (h : ∀ i ∈ code, i.boundLabel? = none) :
    boundLabels code = [] := filterMap_eq_nil_iff.2 h

lemma boundLabels_flatMap {α : Type} (f : α → Code) (items : List α) :
    boundLabels (items.flatMap f) = items.flatMap fun a => boundLabels (f a) :=
  filterMap_flatMap

lemma boundLabel?_of_isStraight {i : Instruction} (h : i.isStraight = true) :
    i.boundLabel? = none := by
  cases i <;> first | rfl | simp [isStraight] at h

@[simp] lemma boundLabels_pushes (rs : List Register) : boundLabels (rs.map push) = [] :=
  boundLabels_eq_nil (by simp [boundLabel?])

@[simp] lemma boundLabels_pops (rs : List Register) : boundLabels (rs.map pop) = [] :=
  boundLabels_eq_nil (by simp [boundLabel?])

lemma boundLabels_callSequence (live : List Register) (target : Label) (args : List Argument) :
    boundLabels (callSequence live target args) = [] := by
  refine boundLabels_eq_nil fun i hi => ?_
  cases callPart_of_mem hi <;> rfl

lemma Written.bound {plan : Plan} {source : Endpoint} {lo : Nat} {p q : Pool} {P Q : Multiset Label}
    (h : Written plan source lo p P code q Q) : (boundLabels code : Multiset Label) + Q =
      P + labelsFrom p.labels.size (q.labels.size - p.labels.size) := by
  induction h with
  | plain simple =>
    rw [boundLabels_eq_nil fun i hi => boundLabel?_of_isStraight (simple i hi).straight]
    simp
  | interns h => simp [h.labels_eq]
  | @fresh p q P hint l hfresh =>
    obtain ⟨named, size, -⟩ := Emit.fresh_facts hfresh
    have one : labelsFrom p.labels.size (q.labels.size - p.labels.size) = [l] := by
      simp [size, labelsFrom, ← named]
    simp [one, add_comm P]
  | bind binds => simp [binds, boundLabel?]
  | jump | branch => simp [boundLabel?]
  | call => simp [boundLabels_callSequence]
  | @append p s q P S Q first second h1 h2 ih1 ih2 =>
    calc (↑(boundLabels (first ++ second)) + Q : Multiset Label)
        = boundLabels first + (boundLabels second + Q) := by
          rw [boundLabels_append, ← Multiset.coe_add, add_assoc]
      _ = P + (labelsFrom p.labels.size (s.labels.size - p.labels.size) +
            labelsFrom s.labels.size (q.labels.size - s.labels.size)) := by
          rw [ih2, ← add_assoc, ih1, add_assoc]
      _ = P + labelsFrom p.labels.size (q.labels.size - p.labels.size) := by
          rw [← labelsFrom_split h1.labels_le h2.labels_le, Multiset.coe_add]

section

variable {plan : Plan} {p q : Pool} {code : Code}

lemma boundLabels_prologue (entry : Label) (frame : Frame) (params : Nat) :
    boundLabels (prologue entry frame params) = [entry] := by
  have stores : ∀ pairs : List (Register × Nat), boundLabels (pairs.map fun pair =>
      move (Variable.address pair.2) pair.1) = [] := by
    refine fun pairs => boundLabels_eq_nil fun i hi => ?_
    obtain ⟨pair, -, rfl⟩ := mem_map.1 hi
    rfl
  have reserve : boundLabels
      (if frame.size = 0 then [] else [arith .sub Register.rsp (Int64.ofNat frame.size)]) = [] := by
    split <;> rfl
  simp only [prologue, boundLabels_append, reserve, boundLabels_pushes, stores]
  rfl

lemma boundLabels_epilogue (leave : Label) (frame : Frame) : boundLabels (epilogue leave frame) =
    [leave] := by
  simp only [epilogue, boundLabels_append, boundLabels_pops]
  rfl

lemma Emit.IsRoutine.bound {agent : AgentLayout} {entry : Label} {params slots : Nat}
    (h : IsRoutine plan agent entry params slots p code q) (knows : plan.Knows p) :
    (boundLabels code).Perm (entry :: labelsFrom p.labels.size
        (q.labels.size - p.labels.size)) := by
  obtain ⟨leaves, -, inner⟩ := h
  obtain ⟨named, size, -⟩ := fresh_facts leaves
  have written := inner (by omega) (knows.fresh leaves) 0
  have le := written.labels_le
  rename_i p1 leave frame body
  have all : labelsFrom p.labels.size (q.labels.size - p.labels.size) =
      leave :: labelsFrom p1.labels.size (q.labels.size - p1.labels.size) := by
    have count : q.labels.size - p.labels.size = 1 + (q.labels.size - p1.labels.size) := by omega
    rw [count, ← labelsFrom_append, size]
    simp [labelsFrom, ← named]
  have bound : (boundLabels body).Perm (labelsFrom p1.labels.size
      (q.labels.size - p1.labels.size)) := by
    rw [← Multiset.coe_eq_coe]
    simpa using written.bound
  rw [boundLabels_append, boundLabels_append, boundLabels_prologue, boundLabels_epilogue, all]
  exact (bound.append_right [leave]).cons entry |>.trans
    (perm_append_singleton leave _ |>.cons entry)

lemma ServiceText.bound {cap heapSize known : Nat} {s : Service} {locals : List Label}
    (h : ServiceText cap heapSize known s locals code) : (boundLabels code).Perm
    (s.label :: locals) := by
  cases h
  case dequeue => exact (List.Perm.swap _ _ _).cons _
  all_goals exact .refl _

end

end AgentCompiler
