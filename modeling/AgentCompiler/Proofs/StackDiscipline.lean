import AgentCompiler.Proofs.RoutineWalks

/-!
The stack discipline of whole programs. Code falls apart into routines where it is aligned. Each
instruction of a routine has one point of the stack, whichever way control gets there; calls are
made on a multiple of sixteen, and a routine is left with the stack as it was on entry.
-/

namespace AgentCompiler

open Instruction Option List StackPoint

variable {locals : List Label} {entry l : Label}

def routinesOf (code : Code) : List Code := (code.splitOnP isAlign).tail

def alignedRoutines (texts : List Code) : Code := texts.flatMap fun text => .align 16 :: text

def IsEntryOf (code : Code) (l : Label) : Prop := ∃ rest, .label l :: rest ∈ routinesOf code

/-- The points of a routine, one for each instruction, are consistent along all its edges. -/
structure IsDisciplined (isEntry : Label → Prop) (code : Code) (points : Nat → StackPoint) :
    Prop where
  entry : (∃ l, code[0]? = some (.label l)) ∧ points 0 = .onEntry
  next : ∀ {n : Nat} {i : Instruction}, code[n]? = some i → i.fallsThrough = true →
    n + 1 < code.length ∧ i.moves (points n) = some (points (n + 1))
  jump : ∀ {n k : Nat} {i : Instruction} {l : Label}, code[n]? = some i → i.jump? = some l →
    code[k]? = some (.label l) → points k = points n
  leave : ∀ {n : Nat} {i : Instruction} {l : Label}, code[n]? = some i → i.jump? = some l →
    .label l ∉ code → isEntry l ∧ (points n).IsEmpty
  call : ∀ {n : Nat} {l : Label}, code[n]? = some (.call l) → (points n).IsAligned
  ret : ∀ {n : Nat}, code[n]? = some .ret → (points n).IsEmpty

section

variable {points : Label → Option StackPoint} {isEntry : Label → Prop} {s u : StackPoint}
  {code : Code} {i : Instruction}

def StackPoint.along (s : StackPoint) : Code → Nat → StackPoint
  | _, 0 => s
  | [], _ + 1 => s
  | i :: rest, n + 1 => ((i.moves s).getD s).along rest n

lemma Walk.along (h : Walk points isEntry s code u) {n : Nat} (found : code[n]? = some i) :
    i.Fits points isEntry (s.along code n) ∧ i.moves (s.along code n) = some
        (s.along code (n + 1)) := by
  induction h generalizing n with
  | nil s => simp at found
  | @cons s t u j rest hfits hmoves more ih =>
    cases n with
    | zero =>
      obtain rfl : j = i := by simpa using found
      refine ⟨hfits, ?_⟩
      cases rest <;> simp [StackPoint.along, hmoves]
    | succ n => simpa [StackPoint.along, hmoves] using ih (by simpa using found)

lemma fits_of_jump (found : i.jump? = some l) (h : i.Fits points isEntry s) :
    points l = some s ∨ (points l = none ∧ isEntry l ∧ s.IsEmpty) := by
  cases i <;> simp only [jump?, some.injEq, reduceCtorEq] at found
  all_goals exact found ▸ h

lemma IsBalanced.disciplined
    (h : IsBalanced isEntry entry locals code) : ∃ points, IsDisciplined isEntry code points := by
  obtain ⟨⟨rest, more⟩, ⟨s, u, walk⟩, binds, front, last, final, ends⟩ := h
  refine ⟨onEntry.along code, ⟨⟨entry, by simp [more]⟩, by cases code <;> rfl⟩, ?_, ?_,
    ?_, fun hi => (walk.along hi).1, fun hi => (walk.along hi).1⟩
  · intro n i hi falls
    refine ⟨?_, (walk.along hi).2⟩
    by_contra hend
    -- the last instruction is one that control does not leave downwards
    have same : n = front.length := by
      have lt := (List.getElem?_eq_some_iff.1 hi).1
      simp only [final, length_append, length_singleton] at lt hend
      omega
    obtain rfl : last = i := by simpa [final, same] using hi
    simp [ends] at falls
  · intro n k i l hi hl hk
    have label : labelPoints entry locals s l = some (onEntry.along code k) := (walk.along hk).1
    obtain jump | ⟨absent, -⟩ := fits_of_jump hl (walk.along hi).1
    · exact some.inj (label.symm.trans jump)
    · simp [absent] at label
  · intro n i l hi hl out
    obtain jump | ⟨-, leaves⟩ := fits_of_jump hl (walk.along hi).1
    · exact absurd (binds l (mem_of_labelPoints jump)) out
    · exact leaves

end

section

/-- The state of a scan that follows the stack pointer from instruction to instruction as they
stand, without following jumps. -/
structure AlignmentScan where
  /-- Bytes below the last multiple of sixteen. -/
  depth : Int := 8
  /-- The depth that the frame pointer marks. -/
  frameBase : Int := 0
  routine : String := ""
  afterAlign : Bool := false
  reports : List String := []

namespace AlignmentScan

def adjust (w : AlignmentScan) (op : AluOp) (n : Int) : AlignmentScan :=
  match op with
  | .sub => { w with depth := w.depth + n }
  | .add => { w with depth := w.depth - n }
  | .and => { w with depth := 0 }
  | _ => w

def visit (name : Label → String) (w : AlignmentScan) : Instruction → AlignmentScan
  | label l => if w.afterAlign then { w with depth := 8, routine := name l } else w
  | push _ => { w with depth := w.depth + 8 }
  | pop _ => { w with depth := w.depth - 8 }
  | alu op _ (.reg d) (.imm n) => if d = .rsp then w.adjust op n.toInt else w
  | mov _ (.reg d) (.reg r) =>
    if d = .rbp ∧ r = .rsp then { w with frameBase := w.depth }
    else if d = .rsp ∧ r = .rbp then { w with depth := w.frameBase }
    else w
  | call l =>
    if w.depth % 16 ≠ 0 then
      { w with reports := w.reports ++ [s!"{w.routine}: call {name l} at depth {w.depth}"] }
    else w
  | _ => w

def step (name : Label → String) (w : AlignmentScan) (i : Instruction) : AlignmentScan :=
  if i = align 16 then { w with afterAlign := true }
  else { w.visit name i with afterAlign := false }

end AlignmentScan

/-- Calls that a scan of the code finds to be made off a multiple of sixteen. -/
def misalignedCalls (labels : LabelTable) (code : Code) : List String :=
  (code.foldl (AlignmentScan.step labels.name) {}).reports

namespace AlignmentScan

variable {width : Width}

structure Agrees (w : AlignmentScan) (s : StackPoint) : Prop where
  depth : w.depth = s.below
  frame : ∀ d ∈ s.frame, w.frameBase = StackPoint.below { s with depth := d }

variable {name : Label → String} {w : AlignmentScan} {points : Label → Option StackPoint}
  {isEntry : Label → Prop} {s t u : StackPoint} {code : Code} {i : Instruction}

section

variable (h : w.Agrees s) {op : AluOp}
include h

lemma agrees_grow (n : Int) : Agrees { w with depth := w.depth + n } (s.grow n) := by
  obtain ⟨deep, frame⟩ := h
  exact ⟨by simp [deep], frame⟩

/-- An instruction that leaves the stack pointer alone, and at most loses track of the frame. -/
lemma agrees_of_moves (hmoves : i.moves s = some t) (hwrites : i.moves s = i.writes s)
    (stack : i.destination? = some .rsp → i.setsStack s = none)
    (frame : i.destination? = some .rbp → i.setsFrame s = none) : w.Agrees t := by
  rw [hwrites, writes] at hmoves
  split at hmoves
  next rsp => simp [stack rsp] at hmoves
  next rbp =>
    obtain rfl := some.inj hmoves
    exact ⟨h.depth, by simp [frame rbp]⟩
  next =>
    obtain rfl := some.inj hmoves
    exact h

lemma adjust_agrees {n : Int64} (hmoves : (alu op width (.reg .rsp) (.imm n)).moves s = some t) :
    (w.adjust op n.toInt).Agrees t ∧ (w.adjust op n.toInt).reports = w.reports := by
  cases op with
  | cmp =>
    obtain rfl := some.inj hmoves
    exact ⟨h, rfl⟩
  | sub =>
    cases width <;> simp [moves, writes, destination?, setsStack] at hmoves
    subst hmoves
    exact ⟨agrees_grow h n.toInt, rfl⟩
  | add =>
    cases width <;> simp [moves, writes, destination?, setsStack] at hmoves
    subst hmoves
    exact ⟨agrees_grow h (-n.toInt), rfl⟩
  | and =>
    cases width <;> simp [moves, writes, destination?, setsStack] at hmoves
    obtain ⟨-, rfl⟩ := hmoves
    exact ⟨⟨rfl, by simp⟩, rfl⟩
  | or | xor => cases width <;> simp [moves, writes, destination?, setsStack] at hmoves

lemma visit_alu {dst src : Operand} (hmoves : (alu op width dst src).moves s = some t) :
    (w.visit name (alu op width dst src)).Agrees t ∧ (w.visit name (alu op width dst src)).reports =
        w.reports := by
  cases dst with
  | imm | mem => exact ⟨agrees_of_moves h hmoves rfl (by simp [destination?]) fun _ => rfl, rfl⟩
  | reg d =>
    cases src with
    | reg | mem =>
      refine ⟨agrees_of_moves h hmoves rfl (fun _ => ?_) fun _ => rfl, rfl⟩
      cases op <;> cases width <;> rfl
    | imm n =>
      by_cases same : d = .rsp
      · subst same
        simpa only [visit, if_true] using adjust_agrees h hmoves
      · simp only [visit, same, if_false, and_true]
        exact agrees_of_moves h hmoves rfl (by simp [destination?, same]) fun _ => rfl

lemma visit_mov {dst src : Operand} (hmoves : (mov width dst src).moves s = some t) :
    (w.visit name (mov width dst src)).Agrees t ∧ (w.visit name (mov width dst src)).reports =
        w.reports := by
  cases dst with
  | imm | mem =>
    exact ⟨agrees_of_moves h hmoves rfl (by simp [destination?]) (by simp [destination?]), rfl⟩
  | reg d =>
    cases src with
    | imm | mem =>
      refine ⟨agrees_of_moves h hmoves rfl (fun _ => ?_) (fun _ => ?_), rfl⟩ <;> cases width <;> rfl
    | reg r =>
      by_cases mark : d = .rbp ∧ r = .rsp
      · obtain ⟨rfl, rfl⟩ := mark
        obtain rfl := some.inj hmoves
        refine ⟨⟨h.depth, ?_⟩, rfl⟩
        cases width with
        | qword =>
          rintro _ ⟨⟩
          exact h.depth
        | _ => simp [setsFrame]
      by_cases back : d = .rsp ∧ r = .rbp
      · obtain ⟨rfl, rfl⟩ := back
        cases width <;> simp [moves, writes, destination?, setsStack] at hmoves
        obtain ⟨depth, deep, rfl⟩ := hmoves
        exact ⟨⟨h.frame depth deep, h.frame⟩, rfl⟩
      simp only [visit, mark, back, if_false, and_true]
      refine agrees_of_moves h hmoves rfl ?_ ?_
      · rintro ⟨⟩
        cases width <;> cases r <;> first | rfl | simp at back
      · rintro ⟨⟩
        cases width <;> cases r <;> first | rfl | simp at mark

section

variable (hafter : w.afterAlign = false) (hfits : i.Fits points isEntry s)
  (hmoves : i.moves s = some t)
include hafter hfits hmoves

lemma visit_agrees : (w.visit name i).Agrees t ∧ (w.visit name i).reports = w.reports := by
  cases i with
  | alu op width dst src => exact visit_alu h hmoves
  | mov width dst src => exact visit_mov h hmoves
  | push r =>
    obtain rfl := some.inj hmoves
    exact ⟨agrees_grow h 8, rfl⟩
  | pop r =>
    refine ⟨?_, rfl⟩
    cases r with
    | rsp => simp [moves] at hmoves
    | rbp =>
      obtain rfl := some.inj hmoves
      exact ⟨(agrees_grow h (-8)).depth, by simp⟩
    | _ =>
      obtain rfl := some.inj hmoves
      exact agrees_grow h (-8)
  | label l =>
    obtain rfl := some.inj hmoves
    simpa [visit, hafter] using h
  | call l =>
    obtain rfl := some.inj hmoves
    have aligned : w.depth % 16 = 0 := h.depth ▸ hfits
    simpa [visit, aligned] using h
  | _ => exact ⟨agrees_of_moves h hmoves rfl (fun _ => rfl) fun _ => rfl, rfl⟩

lemma step_agrees :
    (w.step name i).Agrees t ∧ (w.step name i).afterAlign = false ∧ (w.step name i).reports =
        w.reports := by
  have halign : i ≠ align 16 := by
    rintro rfl
    exact hfits
  obtain ⟨agrees, reports⟩ := visit_agrees h hafter hfits hmoves
  rw [step, if_neg halign]
  exact ⟨⟨agrees.depth, agrees.frame⟩, rfl, reports⟩

end

lemma foldl_agrees (hafter : w.afterAlign = false) (walk : Walk points isEntry s code u) :
    (code.foldl (step name) w).reports = w.reports := by
  induction walk generalizing w with
  | nil s => rfl
  | @cons s t u i rest hfits hmoves _ ih =>
    obtain ⟨agrees, next, reports⟩ := step_agrees h hafter hfits hmoves
    rw [foldl_cons, ih agrees next, reports]

end

lemma foldl_routine {rest : Code} (walk : Walk points isEntry .onEntry (label l :: rest) u) :
    ((align 16 :: label l :: rest).foldl (step name) w).reports = w.reports := by
  have agrees : Agrees { w with depth := 8, routine := name l, afterAlign := false } .onEntry :=
    ⟨rfl, by simp [onEntry]⟩
  have more : Walk points isEntry .onEntry rest u := (walk_cons_label.1 walk).2
  exact (foldl_agrees agrees rfl more :)

end AlignmentScan

end

section

variable {isEntry : Label → Prop} {texts : List Code}

lemma isAlign_of_walk {points : Label → Option StackPoint} {s u : StackPoint} {code : Code}
    (h : Walk points isEntry s code u) : ∀ i ∈ code, i.isAlign = false := by
  induction h with
  | nil s => simp
  | @cons s t u i rest hfits _ _ ih =>
    rw [forall_mem_cons]
    refine ⟨?_, ih⟩
    cases i with
    | align n => exact hfits.elim
    | _ => rfl

lemma splitOnP_alignedRoutines {first : Code} (h : ∀ text ∈ first :: texts, ∀ i ∈ text,
    i.isAlign = false) :
    (first ++ alignedRoutines texts).splitOnP isAlign = first :: texts := by
  induction texts generalizing first with
  | nil => simpa [alignedRoutines] using splitOnP_eq_singleton (h first (by simp))
  | cons text rest ih =>
    rw [forall_mem_cons] at h
    have more := ih h.2
    rw [alignedRoutines, flatMap_cons, cons_append, splitOnP_append_cons_of_forall_mem h.1 _ rfl]
    exact congrArg (first :: ·) more

lemma routinesOf_alignedRoutines (h : ∀ text ∈ texts, ∀ i ∈ text, i.isAlign = false) :
    routinesOf (alignedRoutines texts) = texts := by
  have all : ∀ text ∈ [] :: texts, ∀ i ∈ text, i.isAlign = false := by
    rw [forall_mem_cons]
    exact ⟨by simp, h⟩
  have split := splitOnP_alignedRoutines all
  rw [nil_append] at split
  rw [routinesOf, split, tail_cons]

structure AreBalanced (isEntry : Label → Prop) (code : Code) (texts : List Code) : Prop where
  code_eq : code = alignedRoutines texts
  balanced : ∀ text ∈ texts, ∃ entry locals, IsBalanced isEntry entry locals text

namespace AreBalanced

variable {code first second : Code} {texts others : List Code}

lemma nil : AreBalanced isEntry [] [] := ⟨rfl, by simp⟩

lemma append (h : AreBalanced isEntry first texts) (h' : AreBalanced isEntry second others) :
    AreBalanced isEntry (first ++ second) (texts ++ others) where
  code_eq := by rw [alignedRoutines, flatMap_append, h.code_eq, h'.code_eq]; rfl
  balanced text read := (mem_append.1 read).elim (h.balanced text) (h'.balanced text)

lemma single {text : Code}
    (h : IsBalanced isEntry entry locals text) : AreBalanced isEntry (align 16 :: text) [text] where
  code_eq := by simp [alignedRoutines]
  balanced := by simpa using ⟨entry, locals, h⟩

lemma routinesOf_eq (h : AreBalanced isEntry code texts) : routinesOf code = texts := by
  rw [h.code_eq]
  refine routinesOf_alignedRoutines fun text read => ?_
  obtain ⟨entry, locals, balanced⟩ := h.balanced text read
  obtain ⟨s, u, walk⟩ := balanced.walks
  exact isAlign_of_walk walk

lemma misalignedCalls_eq_nil (h : AreBalanced isEntry code texts) (labels : LabelTable) :
    misalignedCalls labels code = [] := by
  have reports : ∀ w : AlignmentScan, (code.foldl (AlignmentScan.step labels.name) w).reports =
      w.reports := by
    obtain ⟨rfl, all⟩ := h
    induction texts with
    | nil => exact fun w => rfl
    | cons text rest ih =>
      intro w
      rw [forall_mem_cons] at all
      obtain ⟨⟨entry, locals, ⟨body, rfl⟩, ⟨s, u, walk⟩, -⟩, all⟩ := all
      rw [alignedRoutines, flatMap_cons, foldl_append]
      exact (ih all _).trans (AlignmentScan.foldl_routine walk)
  exact reports {}

end AreBalanced

variable {plan : Plan} {p q : Pool}

lemma RoutineRuns.balanced {units : List PlacedRoutine} (h : RoutineRuns plan p units q)
    (mem : plan.Knows p) (entries : ∀ u ∈ units, u.entry.id < p.labels.size) :
    ∃ texts, AreBalanced isEntry (units.flatMap (·.code)) texts := by
  induction h with
  | nil p => exact ⟨[], .nil⟩
  | @cons p s q u rest routine _ ih =>
    rw [forall_mem_cons] at entries
    have grows := routine.grows mem
    obtain ⟨text, read, balanced⟩ := routine.balanced mem entries.1
    obtain ⟨texts, htexts⟩ := ih (grows.knows mem) fun u hu =>
      (entries.2 u hu).trans_le grows.labels_le
    refine ⟨[text] ++ texts, ?_⟩
    rw [flatMap_cons, read]
    exact (AreBalanced.single balanced).append htexts

lemma balanced_services {cap heapSize known : Nat} {units : List PlacedService}
    (htexts : ∀ u ∈ units, ServiceText cap heapSize known u.service u.locals u.code)
    (fresh : ∀ u ∈ units, ∀ l ∈ u.locals, ∀ t : Service, l ≠ t.label)
    (entries : ∀ t : Service, isEntry t.label) :
    ∃ texts, AreBalanced isEntry (units.flatMap (·.code)) texts ∧
      ∀ u ∈ units, ∃ rest, label u.service.label :: rest ∈ texts := by
  induction units with
  | nil => exact ⟨[], .nil, by simp⟩
  | cons u units ih =>
    rw [forall_mem_cons] at htexts fresh
    obtain ⟨texts, balanced, starts⟩ := ih htexts.2 fresh.2
    obtain ⟨text, read, begins⟩ := htexts.1.balanced entries fresh.1
    obtain ⟨rest, more⟩ := begins.starts
    refine ⟨[text] ++ texts, ?_, ?_⟩
    · rw [flatMap_cons, read]
      exact (AreBalanced.single begins).append balanced
    · rw [forall_mem_cons]
      refine ⟨⟨rest, by simp [more]⟩, fun v hv => ?_⟩
      obtain ⟨rest', more'⟩ := starts v hv
      exact ⟨rest', mem_append_right _ more'⟩

lemma ProgramText.balanced {program : Program} {layout : Layout} {settings : Settings}
    {object : ObjectCode} (h : ProgramText program layout settings object)
    (entries : ∀ t : Service, isEntry t.label) : ∃ texts, AreBalanced isEntry object.code texts ∧
      ∀ t : Service, ∃ rest, label t.label :: rest ∈ texts := by
  obtain ⟨planned, hstart, main, written, routineEntries, -, served, order, rfl⟩ := h
  rename_i plan pool p0 p1 p2 q start front routines services
  have made := Plan.make_isMade planned
  obtain ⟨startId, size0⟩ : start.id = pool.labels.size ∧ p0.labels.size =
      pool.labels.size + 1 := by
    have names : pool.Names [start] p0 := .entry hstart
    have bound : start = ⟨pool.labels.size⟩ := by simpa [labelsFrom] using names.labels_eq
    exact ⟨congrArg Label.id bound, names.size_eq⟩
  have knows1 : plan.Knows p1 := main.knows (made.knows.names (.entry hstart))
  have le1 := main.labels_le
  have below : ∀ u ∈ routines, u.entry.id < p1.labels.size := by
    intro u hu
    have mem : some u.entry ∈ layout.agents.flatMap plan.entries :=
      routineEntries ▸ List.mem_map_of_mem hu
    obtain ⟨agent, -, entered⟩ := mem_flatMap.1 mem
    have bounds := made.entry_bounds entered
    omega
  have begins : Service.labels.size ≤ pool.labels.size := by
    obtain ⟨ls, labelled, -⟩ := made.entries
    exact le_self_add.trans_eq labelled.size_eq.symm
  have grows := written.grows knows1
  have le2 := grows.labels_le
  have hk2 := grows.knows knows1
  obtain ⟨texts, read⟩ : ∃ texts, AreBalanced isEntry _ texts := written.balanced knows1 below
  have fresh : ∀ u ∈ services, ∀ l ∈ u.locals, ∀ t : Service, l ≠ t.label := by
    rintro u hu l hl t rfl
    obtain ⟨count, all, -⟩ := served.labels
    have mem : t.label ∈ labelsFrom p2.labels.size count := all ▸ mem_flatMap.2 ⟨u, hu, hl⟩
    have lt := t.label_id_lt
    have ge := (mem_labelsFrom.1 mem).1
    omega
  obtain ⟨serviceTexts, support, starts⟩ := balanced_services (served.text hk2) fresh entries
  have mainBalanced : IsBalanced isEntry start _ _ := balanced_main main (by omega) rfl
  refine ⟨_, ((AreBalanced.single mainBalanced).append read).append support, ?_⟩
  intro t
  have mem : t ∈ services.map (·.service) := by
    rw [order]
    cases t <;> decide
  obtain ⟨u, hu, rfl⟩ := List.mem_map.1 mem
  obtain ⟨rest, more⟩ := starts u hu
  exact ⟨rest, mem_append_right _ more⟩

end

/-- Every generated program keeps its stack. It consists of aligned routines; in each of them every
instruction has one point of the stack, whichever way control reaches it, calls are made on a
multiple of sixteen, and a routine is left, by a return or for the entry point of another routine,
with the stack as it was on entry. A scan of the code that ignores jumps finds no misaligned call
either. -/
theorem generate_isDisciplined {program : Program} {layout : Layout} {settings : Settings}
    {object : ObjectCode} (h : generate program layout settings = .ok object) :
    object.code = alignedRoutines (routinesOf object.code) ∧
      (∀ routine ∈ routinesOf object.code,
        ∃ points, IsDisciplined (IsEntryOf object.code) routine points) ∧
      misalignedCalls object.labels object.code = [] := by
  have text := generate_text h
  -- the routines are the same whatever counts as an entry point
  obtain ⟨texts, read, services⟩ : ∃ texts, AreBalanced (fun _ => True) object.code texts ∧ _ :=
    text.balanced fun _ => trivial
  have entries : ∀ t : Service, IsEntryOf object.code t.label := by
    intro t
    obtain ⟨rest, more⟩ := services t
    exact ⟨rest, read.routinesOf_eq ▸ more⟩
  obtain ⟨routines, balanced, -⟩ := text.balanced entries
  rw [balanced.routinesOf_eq]
  refine ⟨balanced.code_eq, fun routine hroutine => ?_, balanced.misalignedCalls_eq_nil _⟩
  obtain ⟨entry, locals, hroutine⟩ := balanced.balanced routine hroutine
  exact hroutine.disciplined

theorem generate_isDisciplined_counter : ∃ layout object,
    generate counterProgram layout {} = .ok object ∧
      (∀ routine ∈ routinesOf object.code,
        ∃ points, IsDisciplined (IsEntryOf object.code) routine points) ∧
      misalignedCalls object.labels object.code = [] := by
  obtain ⟨layout, object, -, -, h⟩ := counterProgram_generates
  exact ⟨layout, object, h, (generate_isDisciplined h).2⟩

end AgentCompiler
