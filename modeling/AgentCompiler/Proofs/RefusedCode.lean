import AgentCompiler.Object.Label
import AgentCompiler.Proofs.Placement
import AgentCompiler.Proofs.PlainCode
import AgentCompiler.Proofs.Relocation

/-!
When code cannot be assembled. The layout stops at the first directive or instruction that is
impossible by itself, whatever the branches are. If there is none, the first branch that misses its
label is reported.
-/

namespace AgentCompiler

open Instruction List

section

variable {ε α β : Type} {fault : Nat → ε → Prop} {x : Except ε α} {d : ε}

def IsFirst (fault : Nat → ε → Prop) (d : ε) : Prop := ∃ k, fault k d ∧ ∀ j < k, ∀ e, ¬ fault j e

def Reports (fault : Nat → ε → Prop) : Except ε α → Prop
  | .ok _ => ∀ k d, ¬ fault k d
  | .error d => IsFirst fault d

lemma exists_isFirst (h : ∃ k d, fault k d) : ∃ d, IsFirst fault d := by
  classical
  obtain ⟨d, here⟩ := Nat.find_spec h
  exact ⟨d, _, here, fun j before e early => Nat.find_min h before ⟨e, early⟩⟩

namespace Reports

/-- The first step sees the first position, and what comes behind it sees the others. -/
lemma bind {f : α → Except ε β} (first : ∀ d, x = .error d → fault 0 d)
    (later : ∀ a, x = .ok a → (∀ d, ¬ fault 0 d) ∧ Reports (fun k => fault (k + 1)) (f a)) :
    Reports fault (x >>= f) := by
  cases x with
  | error d => exact ⟨0, first d rfl, by simp⟩
  | ok a =>
    obtain ⟨none, rest⟩ := later a rfl
    change Reports fault (f a)
    cases result : f a with
    | ok b =>
      rw [result] at rest
      rintro (_ | k)
      · exact none
      · exact rest k
    | error d =>
      rw [result] at rest
      obtain ⟨k, here, before⟩ := rest
      refine ⟨k + 1, here, ?_⟩
      rintro (_ | j) less
      · exact none
      · exact before j (Nat.lt_of_succ_lt_succ less)

lemma map (h : Reports fault x) (f : α → β) : Reports fault (x >>= fun a => pure (f a)) := by
  cases x <;> exact h

lemma mapM (f : α → Except ε β) (items : List α) :
    Reports (fun k d => ∃ a, items[k]? = some a ∧ f a = .error d) (items.mapM f) := by
  induction items with
  | nil => simp [Reports, pure, Except.pure]
  | cons a rest ih =>
    rw [mapM_cons]
    exact bind (by simp) fun b runs => ⟨by simp [runs], ih.map (b :: ·)⟩

lemma eq_error_iff (h : Reports fault x) (unique : ∀ k d e, fault k d → fault k e → d = e) :
    x = .error d ↔ IsFirst fault d := by
  constructor
  · rintro rfl
    exact h
  · rintro ⟨k, here, before⟩
    cases x with
    | ok a => exact absurd here (h k d)
    | error e =>
      obtain ⟨j, there, before'⟩ := h
      obtain less | rfl | less := lt_trichotomy j k
      · exact absurd there (before j less e)
      · rw [unique j e d there here]
      · exact absurd here (before' k less d)

end Reports

end

/-- What is wrong with a directive or instruction by itself, behind some code. -/
inductive Instruction.Flaw (passed : List Instruction) : Instruction → String → Prop
  | twice {l : Label} : .label l ∈ passed → Flaw passed (.label l) "label bound twice"
  | boundary {n : Nat} : ¬ n.isPowerOfTwo →
      Flaw passed (.align n) "alignment must be a power of two"
  | refused {i : Instruction} {fault : EncodingFault} : i.encode = .error fault →
      Flaw passed i fault.message

def Instruction.distances (i : Instruction) : Set Int :=
  if i.distanceWidth = 1 then Set.Icc (-128) 127 else Set.Icc (-0x80000000) 0x7FFFFFFF

/-- The report on an instruction shows it; the assembler crashes over one that it cannot show. -/
def Instruction.Reported (names : Names) (i : Instruction) (message : String)
    (d : Diagnostic) : Prop :=
  (∃ text, i.render names = .ok text ∧ d = .unencodable text message) ∨ i.render names = .error d

def IsFlawed (names : Names) (passed code : List Instruction) (k : Nat) (d : Diagnostic) : Prop :=
  ∃ i message, code[k]? = some i ∧ i.Flaw (passed ++ code.take k) message ∧
    i.Reported names message d

/-- What a text needs: the names of some symbols, and if one of them has none, that is how it fails.
-/
structure Shows (names : Names) (needed : List SymbolId) (shown : Outcome String) : Prop where
  fails : ∀ d, shown = .error d → ∃ s ∈ needed, names.symbol s = .error d
  succeeds : ∀ text, shown = .ok text → ∀ s ∈ needed, ∃ name, names.symbol s = .ok name

namespace Shows

variable {names : Names} {needed later : List SymbolId} {shown : Outcome String}
  {f : String → Outcome String}

lemma text (text : String) : Shows names [] (pure text) := ⟨by simp, by simp⟩

lemma symbol (s : SymbolId) : Shows names [s] (names.symbol s) := ⟨by simp, by simp +contextual⟩

lemma bind (first : Shows names needed shown) (rest : ∀ text, Shows names later (f text)) :
    Shows names (needed ++ later) (shown >>= f) := by
  constructor
  · intro d fails
    obtain fails | ⟨text, -, fails⟩ := bind_eq_error.1 fails
    · obtain ⟨s, mem, lacks⟩ := first.fails d fails
      exact ⟨s, mem_append_left _ mem, lacks⟩
    · obtain ⟨s, mem, lacks⟩ := (rest text).fails d fails
      exact ⟨s, mem_append_right _ mem, lacks⟩
  · intro text gives
    obtain ⟨start, starts, gives⟩ := bind_ok.1 gives
    exact forall_mem_append.2 ⟨first.succeeds _ starts, (rest start).succeeds _ gives⟩

lemma map (h : Shows names needed shown) (f : String → String) :
    Shows names needed (shown >>= fun text => pure (f text)) := by
  have both : Shows names (needed ++ []) _ := h.bind fun start => text (f start)
  rwa [append_nil] at both

lemma address (names : Names) (m : Address) : Shows names ([m].filterMap Address.symbol?)
    (m.render names) := by
  refine map ?_ _
  obtain ⟨base, _, _⟩ := m
  cases base with
  | reg r => exact text _
  | symbol s => exact (symbol s).map _

lemma place (names : Names) (width : Width) (p : Place) :
    Shows names (p.memory.filterMap Address.symbol?) (p.render names width) := by
  cases p with
  | reg r => exact text _
  | mem m => exact (address names m).map _

lemma operand (names : Names) (width : Width) (o : Operand) :
    Shows names (o.memory.filterMap Address.symbol?) (o.render names width) := by
  cases o with
  | reg _ | imm _ => exact text _
  | mem m => exact (address names m).map _

lemma instruction (names : Names) (i : Instruction) : Shows names i.symbols (i.render names) := by
  rw [symbols]
  cases i with
  | mov width dst src | alu _ width dst src =>
    rw [memory, filterMap_append, loadedSymbols, append_nil]
    · exact (operand names width dst).bind fun first => (operand names width src).map _
    · simp
  | movAddress dst s v => exact (symbol s).map _
  | lea dst m =>
    rw [memory, loadedSymbols, append_nil]
    · exact (address names m).map _
    · simp
  | movZeroByte _ p | movSignDword _ p | test p _ | imul _ p | unary _ p | shift _ p _ =>
    rw [memory, loadedSymbols, append_nil]
    · exact (place names _ p).map _
    · simp
  | _ => exact text _

end Shows

lemma Instruction.Reported.unique {names : Names} {i : Instruction} {message : String}
    {d e : Diagnostic} (h : i.Reported names message d) (h' : i.Reported names message e) :
    d = e := by
  obtain ⟨text, shown, rfl⟩ | crashed := h <;> obtain ⟨text', shown', rfl⟩ | crashed' :=
    h' <;> simp_all

namespace Assembly

variable {names : Names} {offset k : Nat} {bound after : LabelOffsets} {i : Instruction} {l : Label}
  {code passed : List Instruction} {placed : List Placed} {p : Placed} {d : Diagnostic}
  {message : String}

section

lemma refuse_eq_error {α : Type} : (refuse names i message : Outcome α) = .error d ↔
    i.Reported names message d := by
  unfold refuse Reported
  cases i.render names <;> simp [Bind.bind, Except.bind, throw_eq_error, eq_comm (a := d)]

lemma encodeOrRefuse_eq_error (h : encodeOrRefuse names i = .error d) :
    ∃ fault, i.encode = .error fault ∧ i.Reported names fault.message d := by
  unfold encodeOrRefuse at h
  split at h
  next => simp at h
  next fault refused => exact ⟨fault, refused, refuse_eq_error.1 h⟩

variable (known : ∀ l, bound.lookup l = none ↔ .label l ∉ passed)
include known

lemma bindAt_eq_error (h : bindAt names offset bound i = .error d) :
    ∃ message, i.Flaw passed message ∧ i.Reported names message d := by
  unfold bindAt at h
  split at h
  next l =>
    split at h
    next twice =>
      refine ⟨_, .twice (by_contra fun absent => ?_), refuse_eq_error.1 h⟩
      simp [(known l).2 absent] at twice
    next => simp at h
  next n =>
    split at h
    next => simp at h
    next odd => exact ⟨_, .boundary (mt isPowerOfTwo_iff.2 odd), refuse_eq_error.1 h⟩
  next => simp at h

lemma not_flaw {e : Encoding} (binds : bindAt names offset bound i = .ok after)
    (encodes : i.encode = .ok e) :
    ¬ i.Flaw passed message := by
  intro flaw
  cases flaw with
  | twice twice =>
    obtain ⟨l, same, free, -⟩ | ⟨plain, -⟩ := bindAt_cases binds
    · cases same
      exact (known _).1 free twice
    · exact plain _ rfl
  | boundary odd =>
    obtain ⟨l, same, -⟩ | ⟨-, even, -⟩ := bindAt_cases binds
    · cases same
    · exact odd (isPowerOfTwo_iff.1 (even _ rfl))
  | refused refused => simp [encodes] at refused

lemma lookup_bindAt (binds : bindAt names offset bound i = .ok after) (l : Label) :
    after.lookup l = none ↔ .label l ∉ passed ++ [i] := by
  obtain ⟨m, rfl, -, rfl⟩ | ⟨plain, -, rfl⟩ := bindAt_cases binds
  · by_cases same : l = m
    · simp [same]
    · simp [lookup_cons, beq_false_of_ne same, known, same]
  · simp [known, (plain l).symm]

/-- The layout is possible unless something is flawed, and then says what comes first. -/
lemma place_reports : Reports (IsFlawed names passed code) (place names offset bound code) := by
  induction code generalizing passed offset bound with
  | nil => simp [Reports, IsFlawed, place, pure, Except.pure]
  | cons i rest ih =>
    have steps : place names offset bound (i :: rest) =
        (bindAt names offset bound i >>= fun after => encodeOrRefuse names i >>= fun e =>
        pure (after, e)) >>=
          fun pair => place names (Placed.mk i pair.2 offset).next pair.1 rest >>= fun found =>
            pure (⟨i, pair.2, offset⟩ :: found.1, found.2) := by
      simp only [place, bind_assoc, pure_bind]
    rw [steps]
    refine .bind (fun d fails => ?_) fun pair runs => ?_
    · suffices ∃ message, i.Flaw passed message ∧ i.Reported names message d by
        simpa [IsFlawed] using this
      obtain fails | ⟨after, -, fails⟩ := bind_eq_error.1 fails
      · exact bindAt_eq_error known fails
      · obtain fails | ⟨e, -, fails⟩ := bind_eq_error.1 fails
        · obtain ⟨fault, refused, reported⟩ := encodeOrRefuse_eq_error fails
          exact ⟨_, .refused refused, reported⟩
        · simp at fails
    · obtain ⟨after, binds, runs⟩ := bind_ok.1 runs
      obtain ⟨e, encodes, runs⟩ := bind_ok.1 runs
      obtain ⟨rfl, rfl⟩ := Prod.mk.inj (pure_ok.1 runs)
      refine ⟨fun d => ?_, ?_⟩
      · rintro ⟨_, message, here, flaw, -⟩
        cases here
        simp at flaw
        exact not_flaw known binds (encodeOrRefuse_ok.1 encodes) flaw
      · have shift : (fun k => IsFlawed names passed (i :: rest) (k + 1)) = IsFlawed names
          (passed ++ [i]) rest := by
          funext k d
          simp [IsFlawed]
        rw [shift]
        exact (ih (lookup_bindAt known binds)).map _

end

section

lemma exists_render_of_target (names : Names) (branch : i.target? = some l) :
    ∃ text, i.render names = .ok text := by
  cases i <;> simp [target?] at branch <;> exact ⟨_, rfl⟩

lemma fits_iff (branch : i.target? = some l) (delta : Int) :
    (if 8 * i.distanceWidth = 8 then fitsInt8 delta else fitsInt32 delta) = true ↔
        delta ∈ i.distances := by
  cases i <;> simp [target?] at branch <;>
    simp [distances, distanceWidth, fitsInt8, fitsInt32]

lemma distance_eq_error (sound : p.IsSound) : distance names bound p = .error d ↔
    ∃ l, p.instruction.target? = some l ∧ (bound.lookup l = none ∧ d = .unresolved (names.label l) ∨
      ∃ goal : Nat, bound.lookup l = some goal ∧ (goal - p.next : Int) ∉ p.instruction.distances ∧
        ∃ text, p.instruction.render names = .ok text ∧
          d = .range text (goal - p.next) (8 * p.instruction.distanceWidth)) := by
  unfold distance
  rw [(namesAs_encode sound.encoded).target]
  cases branch : p.instruction.target? with
  | none => simp
  | some l =>
    simp only [Option.map_some, Option.some.injEq, exists_eq_left']
    cases bound.lookup l with
    | none => simp [throw_eq_error, eq_comm (a := d)]
    | some goal =>
      have fits := fits_iff branch (goal - p.next)
      dsimp only
      by_cases near : (goal - p.next : Int) ∈ p.instruction.distances
      · rw [if_pos (fits.2 near)]
        simp [near]
      · rw [if_neg (mt fits.1 near)]
        obtain ⟨text, shown⟩ := exists_render_of_target names branch
        simp [near, shown, Bind.bind, Except.bind, throw_eq_error, eq_comm (a := d)]

variable (h : place names 0 [] code = .ok (placed, bound))
include h

lemma label_position_unique {j : Nat} (at_j : code[j]? = some (.label l))
    (at_k : code[k]? = some (.label l)) :
    j = k := by
  have clean : Reports (IsFlawed names [] code) (place names 0 [] code) := place_reports (by simp)
  rw [h] at clean
  have first {m n : Nat} (at_m : code[m]? = some (.label l)) (at_n : code[n]? = some (.label l)) :
      ¬ m < n := by
    intro before
    refine clean n _ ⟨_, _, at_n, .twice (mem_of_getElem? (i := m) ?_), .inl ⟨_, rfl, rfl⟩⟩
    rwa [nil_append, getElem?_take_of_lt before]
  exact le_antisymm (not_lt.1 (first at_k at_j)) (not_lt.1 (first at_j at_k))

lemma assemble_eq_error : assemble names code = .error d ↔
    IsFirst (fun k d => ∃ p, placed[k]? = some p ∧ distance names bound p = .error d) d := by
  have writes (p : Placed) (d : Diagnostic) : write names bound p = .error d ↔
      distance names bound p = .error d := by
    simp only [write, bind_eq_error, pure_eq_error, and_false, exists_false, or_false]
  have reports := Reports.mapM (write names bound) placed
  simp only [writes] at reports
  rw [← reports.eq_error_iff (by
    rintro k _ _ ⟨p, here, fails⟩ ⟨q, here', fails'⟩
    obtain rfl := Option.some.inj (here.symm.trans here')
    exact Except.error.inj (fails.symm.trans fails'))]
  simp only [assemble, pieces, h, bind_eq_error, pure_eq_error, reduceCtorEq, Except.ok.injEq,
    exists_eq_left', and_false, exists_false, or_false, false_or]

end

end Assembly

end AgentCompiler
