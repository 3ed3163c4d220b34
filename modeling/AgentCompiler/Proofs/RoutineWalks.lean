import AgentCompiler.Proofs.BoundLabels
import AgentCompiler.Proofs.StackWalk

/-!
Every routine walks. The labels of a routine other than its entry point all stand at one point: that
of the body for a routine of an agent, and that of the stack rounded down for the main routine.
-/

namespace AgentCompiler

open Instruction Service List Register StackPoint

def labelPoints (entry : Label) (locals : List Label) (s : StackPoint) (l : Label) :
    Option StackPoint :=
  if l = entry then some .onEntry else if l ∈ locals then some s else none

/-- A routine from its entry point on: it walks, binds its labels, and does not run on into what
stands behind it. -/
structure IsBalanced (isEntry : Label → Prop) (entry : Label) (locals : List Label) (code : Code) :
    Prop where
  starts : ∃ rest, code = label entry :: rest
  walks : ∃ s u, Walk (labelPoints entry locals s) isEntry .onEntry code u
  binds : ∀ l ∈ entry :: locals, label l ∈ code
  ends : ∃ front last, code = front ++ [last] ∧ last.fallsThrough = false

section

variable {entry l : Label} {locals : List Label} {s : StackPoint}

@[simp] lemma labelPoints_entry : labelPoints entry locals s entry = some .onEntry := if_pos rfl

lemma labelPoints_local (starts : entry ∉ locals) (mem : l ∈ locals) : labelPoints entry locals s
    l = some s := by
  have ne : l ≠ entry := by
    rintro rfl
    exact starts mem
  rw [labelPoints, if_neg ne, if_pos mem]

lemma labelPoints_other (ne : l ≠ entry) (same : l ∉ locals) : labelPoints entry locals s
    l = none := by
  rw [labelPoints, if_neg ne, if_neg same]

lemma mem_of_labelPoints {t : StackPoint} (h : labelPoints entry locals s l = some t) :
    l ∈ entry :: locals := by
  unfold labelPoints at h
  split at h
  next eq => simp [eq]
  next =>
    split at h
    next mem => simp [mem]
    next => simp at h

end

section

variable {points : Label → Option StackPoint} {isEntry : Label → Prop}

/-- Where the body of a routine stands: below the return address lie the frame pointer of the
caller, the variables, and the registers that are kept. -/
def Frame.bodyPoint (f : Frame) : StackPoint :=
  ⟨.entry, 8 + (Int64.ofNat f.size).toInt + 8 * f.saved.length, some 8⟩

lemma toInt_ofNat_emod (n : Nat) : (Int64.ofNat n).toInt % 16 = n % 16 := by
  have dvd : (16 : Int) ∣ (Int64.size : Nat) := by decide
  rw [Int64.toInt_ofNat', ← Int.emod_emod_of_dvd _ dvd, Int.bmod_emod, Int.emod_emod_of_dvd _ dvd]

lemma Frame.bodyPoint_isAligned (f : Frame) : f.bodyPoint.IsAligned := by
  have sized := toInt_ofNat_emod f.size
  have sum : (f.size + 8 * f.saved.length) % 16 = 0 := by
    unfold size
    split <;> omega
  simp only [IsAligned, StackPoint.below, bodyPoint]
  omega

lemma Frame.not_isStackRegister_of_mem_saved {f : Frame} {r : Register} (h : r ∈ f.saved) :
    r.isStackRegister = false := by
  obtain h | h := mem_append.1 h
  · have fixed : ∀ r ∈ [stateBase, message], r.isStackRegister = false := by
      decide
    exact fixed r h
  · exact isStackRegister_of_mem_scratch (mem_of_mem_take (mem_of_mem_filter h))

lemma walk_prologue {entry : Label} (f : Frame) (params : Nat)
    (starts : points entry = some .onEntry) :
    ∃ rest, prologue entry f params = align 16 :: label entry :: rest ∧
      Walk points isEntry .onEntry (label entry :: rest) f.bodyPoint := by
  have keep : Walk points isEntry .onEntry [label entry, push .rbp, move rbp rsp]
      ⟨.entry, 8, some 8⟩ := .cons starts rfl (.cons trivial rfl (.cons trivial rfl (.nil _)))
  have reserve : Walk points isEntry ⟨.entry, 8, some 8⟩
      (if f.size = 0 then [] else [arith .sub rsp (Int64.ofNat f.size)])
      ⟨.entry, 8 + (Int64.ofNat f.size).toInt, some 8⟩ := by
    split
    next zero => simp [zero]
    next => exact walk_cons_sub_rsp.2 (.nil _)
  have pushes : Walk points isEntry ⟨.entry, 8 + (Int64.ofNat f.size).toInt, some 8⟩
      (f.saved.map push) f.bodyPoint := walk_pushes f.saved
  have moves : Walk points isEntry f.bodyPoint
      ([move stateBase rdi, move message rsi] ++
        (parameterRegisters.take params).zipIdx.map fun pair =>
          move (Variable.address pair.2) pair.1) f.bodyPoint := by
    refine walk_straight fun i hi => ?_
    obtain hi | hi := mem_append.1 hi
    · have fixed : ∀ i ∈ [move stateBase rdi,
          move message rsi], i.isStraight = true := by decide
      exact fixed i hi
    · obtain ⟨pair, -, rfl⟩ := mem_map.1 hi
      rfl
  refine ⟨_, ?_, ((keep.append reserve).append pushes).append moves⟩
  simp [prologue]

lemma walk_epilogue {leave : Label} (f : Frame) (hleave : points leave = some f.bodyPoint) :
    Walk points isEntry f.bodyPoint (epilogue leave f) ⟨.entry, 0, none⟩ := by
  have pops : Walk points isEntry f.bodyPoint (f.saved.reverse.map pop)
      (f.bodyPoint.grow (-(8 * f.saved.reverse.length))) :=
    walk_pops fun r hr => f.not_isStackRegister_of_mem_saved (mem_reverse.1 hr)
  have null : Walk points isEntry f.bodyPoint [zero .rax, label leave] f.bodyPoint :=
    .cons trivial rfl (.cons hleave rfl (.nil _))
  have leaves : Walk points isEntry (f.bodyPoint.grow (-(8 * f.saved.reverse.length)))
      [move rsp rbp, pop .rbp, ret] ⟨.entry, 0, none⟩ :=
    .cons trivial rfl (.cons trivial rfl (.cons ⟨rfl, rfl⟩ rfl (.nil _)))
  exact (null.append pops).append leaves

end

section

variable {isEntry : Label → Prop} {plan : Plan} {p q : Pool} {code : Code}

lemma Emit.IsRoutine.balanced {agent : AgentLayout} {entry : Label} {params slots : Nat}
    (h : IsRoutine plan agent entry params slots p code q) (knows : plan.Knows p)
    (starts : entry.id < p.labels.size) :
    ∃ text, code = align 16 :: text ∧
      IsBalanced isEntry entry (labelsFrom p.labels.size (q.labels.size - p.labels.size)) text := by
  have le := (h.grows knows).labels_le
  have bound := h.bound knows
  set locals := labelsFrom p.labels.size (q.labels.size - p.labels.size) with hlocals
  have fresh : entry ∉ locals := by
    rw [hlocals, mem_labelsFrom]
    omega
  obtain ⟨leaves, -, inner⟩ := h
  rename_i p1 leave frame body
  obtain ⟨named, size, -⟩ := fresh_facts leaves
  have written := inner (by omega) (knows.fresh leaves) 0
  have grows := written.labels_le
  have hpoints : ∀ l : Label, p.labels.size ≤ l.id → l.id < q.labels.size →
      labelPoints entry locals frame.bodyPoint l = some frame.bodyPoint := by
    intro l lo hi
    exact labelPoints_local fresh (mem_labelsFrom.2 (by omega))
  obtain ⟨rest, hprologue, hin⟩ : ∃ rest, prologue entry frame params = align 16 ::
      label entry :: rest ∧ Walk (labelPoints entry locals frame.bodyPoint) isEntry .onEntry
      (label entry :: rest)
        frame.bodyPoint := walk_prologue frame params labelPoints_entry
  have through : Walk (labelPoints entry locals frame.bodyPoint) isEntry frame.bodyPoint body
      frame.bodyPoint :=
    (written.walk frame.bodyPoint_isAligned hpoints (by omega) le_rfl (by simp)).1
  have out : Walk (labelPoints entry locals frame.bodyPoint) isEntry frame.bodyPoint
      (epilogue leave frame) ⟨.entry, 0, none⟩ :=
    walk_epilogue frame (hpoints leave (by omega) (by omega))
  refine ⟨label entry :: rest ++ body ++ epilogue leave frame, by simp [hprologue], ⟨_, rfl⟩,
    ⟨_, _, (hin.append through).append out⟩, ?_, ?_⟩
  · intro l hl
    have mem := mem_boundLabels.1 (bound.mem_iff.2 hl)
    simpa [hprologue] using mem
  · exact ⟨label entry :: rest ++ body ++ ([zero .rax, label leave] ++
      frame.saved.reverse.map pop ++ [move rsp rbp, pop .rbp]), ret, by simp [epilogue], rfl⟩

/-- The main routine never returns: behind its body nothing is left to do. -/
lemma balanced_main {source : Endpoint} {start : Label} {front : Code} {last : Instruction}
    (h : Written plan source p.labels.size p 0 (front ++ [last]) q 0)
    (begins : start.id < p.labels.size) (final : last.fallsThrough = false) :
    IsBalanced isEntry start (labelsFrom p.labels.size (q.labels.size - p.labels.size))
      ([label start, arith .and rsp (.imm (-16))] ++ (front ++ [last])) := by
  have le := h.labels_le
  set locals := labelsFrom p.labels.size (q.labels.size - p.labels.size) with hlocals
  have fresh : start ∉ locals := by
    rw [hlocals, mem_labelsFrom]
    omega
  have hin : Walk (labelPoints start locals ⟨.boundary, 0, none⟩) isEntry .onEntry
      [label start, arith .and rsp (.imm (-16))] ⟨.boundary, 0, none⟩ :=
    .cons labelPoints_entry rfl (.cons trivial rfl (.nil _))
  have through : Walk (labelPoints start locals ⟨.boundary, 0, none⟩) isEntry
      ⟨.boundary, 0, none⟩ (front ++ [last]) ⟨.boundary, 0, none⟩ := by
    refine (h.walk (by decide) ?_ le_rfl le_rfl (by simp)).1
    intro l lo hi
    exact labelPoints_local fresh (mem_labelsFrom.2 (by omega))
  refine ⟨⟨_, rfl⟩, ⟨_, _, hin.append through⟩, ?_, ?_⟩
  · intro l hl
    have bound : (boundLabels (front ++ [last])).Perm locals := by
      rw [← Multiset.coe_eq_coe]
      simpa using h.bound
    obtain rfl | hl := mem_cons.1 hl
    · simp
    · exact mem_append_right _ (mem_boundLabels.1 (bound.mem_iff.2 hl))
  · exact ⟨_, last, (append_assoc ..).symm, final⟩

end

section

def Service.localPoint : Service → StackPoint
  | .formatInt => onEntry.grow 24
  | .repeatText => onEntry.grow 40
  | _ => .onEntry

def Service.lastPoint : Service → StackPoint
  | .abort | .allocate | .enqueue => onEntry.grow 8
  | _ => .onEntry

variable {isEntry : Label → Prop} {cap heapSize known : Nat} {s : Service} {locals : List Label}
  {code : Code}

section

variable (h : ServiceText cap heapSize known s locals code)
include h

lemma ServiceText.walk {points : Label → Option StackPoint}
    (entries : ∀ t : Service, isEntry t.label) (starts : points s.label = some .onEntry)
    (fresh : ∀ l ∈ locals, points l = some s.localPoint)
    (others : ∀ t : Service, t ≠ s → points t.label = none) :
    ∃ text, code = align 16 :: text ∧ Walk points isEntry .onEntry text s.lastPoint := by
  cases h
  all_goals
    refine ⟨_, rfl, ?_⟩
    simp only [mem_cons, not_mem_nil, or_false, forall_eq_or_imp, forall_eq, localPoint] at fresh
    simp [walk_cons_straight, walk_cons_pop, starts, fresh, others, entries,
      lastPoint, isStraight, destination?, isStackRegister, move, arith, zero,
      check, checkByte, keeping, takeBlock, abortWith, putEntry]

lemma ServiceText.starts : ∃ rest, code = align 16 :: label s.label :: rest := by
  cases h <;> exact ⟨_, rfl⟩

lemma ServiceText.ends : ∃ last, code.getLast? = some last ∧ last.fallsThrough = false := by
  cases h <;> exact ⟨_, rfl, rfl⟩

lemma ServiceText.balanced (entries : ∀ t : Service, isEntry t.label)
    (hlocals : ∀ l ∈ locals, ∀ t : Service, l ≠ t.label) :
    ∃ text, code = align 16 :: text ∧ IsBalanced isEntry s.label locals text := by
  have fresh : ∀ t : Service, t.label ∉ locals := fun t ht => hlocals _ ht t rfl
  have ne : ∀ t : Service, t ≠ s → t.label ≠ s.label := fun t ht eq => ht (label_injective eq)
  obtain ⟨text, read, walk⟩ : ∃ text, code = align 16 :: text ∧
      Walk (labelPoints s.label locals s.localPoint) isEntry .onEntry text s.lastPoint :=
    h.walk entries labelPoints_entry (fun l hl => labelPoints_local (fresh s) hl)
      (fun t ht => labelPoints_other (ne t ht) (fresh t))
  obtain ⟨rest, more⟩ := h.starts
  obtain ⟨last, final, ends⟩ := h.ends
  obtain rfl : text = label s.label :: rest := by simpa [read] using more
  refine ⟨_, read, ⟨rest, rfl⟩, ⟨_, _, walk⟩, ?_, ?_⟩
  · intro l hl
    have mem := mem_boundLabels.1 (h.bound.mem_iff.2 hl)
    simpa [read] using mem
  · rw [read, getLast?_cons_cons] at final
    obtain ⟨front, before⟩ := getLast?_eq_some_iff.1 final
    exact ⟨front, last, before, ends⟩

end

end

end AgentCompiler
