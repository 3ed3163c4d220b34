import AgentCompiler.Proofs.PlanAcceptance
import AgentCompiler.Proofs.PooledConstants

/-!
The pool of constants over its history. A constant is stored where it is first asked for and found
again afterwards, so that symbols stand for constants one to one. What is stored stays where it is.
-/

namespace AgentCompiler

open SymbolTable List Plan

inductive Constant
  | text (content : String)
  | word (value : Int64)

namespace Constant

def content : Constant → Bytes
  | text content => terminated content
  | word value => littleEndianInt 8 value.toInt

def align : Constant → Nat
  | text _ => 1
  | word _ => 8

def hasNul : Constant → Bool
  | text content => AgentCompiler.hasNul content
  | word _ => false

end Constant

lemma Constant.offset_append (c : Constant) {d : DataSection} (kind : d.kind = .rodata) :
    c.align ∣ (d.append c.content c.align).1 ∧ d.bytes.length ≤ (d.append c.content c.align).1 := by
  have offset : (d.append c.content c.align).1 = alignUp d.bytes.length c.align := by
    rw [show (d.append c.content c.align).1 = d.nextOffset c.align from rfl]
    simp [DataSection.nextOffset, DataSection.size, kind]
  have power : isPowerOfTwo c.align = true := by
    cases c with
    | text content => exact isPowerOfTwo_iff.2 ⟨0, rfl⟩
    | word value => exact isPowerOfTwo_iff.2 ⟨3, rfl⟩
  rw [offset]
  exact (isLeast_alignUp power).1

lemma Constant.length_pos (c : Constant) : 0 < c.content.length := by
  cases c <;> simp [content, terminated]

namespace SymbolTable

variable {t u : SymbolTable} {name : String} {kind : SectionKind} {offset : Nat} {id : SymbolId}

/-- Symbols that wait for their offsets have been waiting before. -/
def Awaited (t u : SymbolTable) : Prop :=
  ∀ s symbol, u.get? s = some symbol → symbol.isBound = false → t.get? s = some symbol

lemma Awaited.place {old : Symbol} (held : t.get? id = some old) :
    t.Awaited (t.place id offset) := by
  intro s symbol found free
  obtain ⟨-, rfl⟩ | ⟨-, old⟩ := Lacks.get?_place held found
  · cases free
  · exact old

lemma Awaited.bind (h : t.bind id offset = .ok u) : t.Awaited u := by
  obtain ⟨old, held, -, rfl⟩ := bind_ok.1 h
  exact .place held

lemma Awaited.define (h : t.define name kind offset = .ok (id, u)) : t.Awaited u := by
  obtain ⟨new, rfl, rfl⟩ | ⟨old, -, held, -, rfl⟩ := define_ok.1 h
  · intro s symbol found free
    obtain old | rfl := Lacks.get?_append (symbols_added new) found
    · exact old
    · cases free
  · exact .place held

lemma unbound_of_define (h : t.define name kind offset = .ok (id, u)) {symbol : Symbol}
    (found : t.get? id = some symbol) : symbol.isBound ≠ true := by
  obtain ⟨-, rfl, -⟩ | ⟨old, -, held, free, -⟩ := define_ok.1 h
  · exact absurd (List.getElem?_eq_some_iff.1 found).1 (lt_irrefl _)
  · obtain rfl := Option.some.inj (held.symm.trans found)
    simp [free]

end SymbolTable

namespace Pool

def intern (p : Pool) : Constant → Outcome (SymbolId × Pool)
  | .text content => p.internText content
  | .word value => p.internWord value

/-- The constants so far, with their symbols. -/
def pooled (p : Pool) : List (Constant × SymbolId) :=
  p.texts.map (fun e => (.text e.1, e.2)) ++ p.words.map fun e => (.word e.1, e.2)

/-- The pool after a request. If the name of a constant were taken, its bytes would stay behind. -/
def grant (p : Pool) (c : Constant) : Pool :=
  match p.intern c with
  | .ok (_, q) => q
  | .error _ => if c.hasNul then p else { p with rodata := (p.rodata.append c.content c.align).2 }

def after (p : Pool) (requests : List Constant) : Pool := requests.foldl grant p

/-- A symbol that some request was answered with. -/
def Answers (p : Pool) (requests : List Constant) (c : Constant) (s : SymbolId) : Prop :=
  ∃ earlier later q, requests = earlier ++ c :: later ∧ (p.after earlier).intern c = .ok (s, q)

def offset (p : Pool) (s : SymbolId) : Nat := ((p.symbols.get? s).map (·.offset)).getD 0

def range (p : Pool) (e : Constant × SymbolId) : Set Nat := Set.Ico (p.offset e.2)
    (p.offset e.2 + e.1.content.length)

structure Stands (p : Pool) (c : Constant) (s : SymbolId) : Prop where
  holds : HoldsConstant p.symbols p.rodata s c.content
  aligned : c.align ∣ p.offset s

/-- What the requests have made of the pool. -/
structure PoolsOnce (p : Pool) (requests : List Constant) : Prop where
  refuses : ∀ c, (∃ fault, (p.after requests).intern c = .error fault) ↔
    c.hasNul = true ∧ ∀ s, (c, s) ∉ (p.after requests).pooled
  unchanged : ∀ c fault, (p.after requests).intern c = .error fault → (p.after requests).grant c =
    p.after requests
  same : ∀ c c' s s', p.Answers requests c s → p.Answers requests c' s' → (s = s' ↔ c = c')
  stands : ∀ c s, p.Answers requests c s → (c, s) ∈ (p.after requests).pooled ∧
    (p.after requests).Stands c s
  disjoint : ∀ e ∈ (p.after requests).pooled, ∀ e' ∈ (p.after requests).pooled, e ≠ e' →
    Disjoint ((p.after requests).range e) ((p.after requests).range e')

/-- Symbols that wait for their offsets have other names than constants, and no two constants have
the same symbol or a byte in common. -/
structure IsFiled (p : Pool) : Prop where
  kind : p.rodata.kind = .rodata
  waits : ∀ s symbol, p.symbols.get? s = some symbol → symbol.isBound = false →
    '.' ∉ symbol.name.toList
  stands : ∀ e ∈ p.pooled, p.Stands e.1 e.2
  apart : ∀ e ∈ p.pooled, ∀ e' ∈ p.pooled, e ≠ e' → e.1 ≠ e'.1 ∧ e.2 ≠ e'.2 ∧ Disjoint (p.range e)
    (p.range e')

variable {p q : Pool} {c : Constant} {s : SymbolId} {symbols : SymbolTable}

lemma intern_ok (run : p.intern c = .ok (s, q)) : ((c, s) ∈ p.pooled ∧ q = p) ∨
    (∀ e ∈ p.pooled, e.1 ≠ c) ∧ (∀ e, e ∈ q.pooled ↔ e ∈ p.pooled ∨ e = (c, s)) ∧
      q.rodata = (p.rodata.append c.content c.align).2 ∧ ∃ name, '.' ∈ name.toList ∧
      p.symbols.define name .rodata (p.rodata.append c.content c.align).1 = .ok (s, q.symbols) := by
  cases c with
  | text content =>
    obtain ⟨found, rfl⟩ | ⟨missing, -, symbols, defined, rfl⟩ := p.internText_ok run
    · exact .inl ⟨mem_append_left _ (mem_map.2 ⟨_, mem_of_lookup_eq_some found, rfl⟩), rfl⟩
    · refine .inr ⟨?_, ?_, rfl, _, dotted _ (by decide), defined⟩
      · rw [pooled, forall_mem_append, forall_mem_map, forall_mem_map]
        refine ⟨fun e member same => ?_, by simp⟩
        simpa [Constant.text.inj same] using lookup_eq_none_iff.1 missing e member
      · simp only [pooled, map_append, mem_append, map_singleton, mem_singleton]
        tauto
  | word value =>
    obtain ⟨found, rfl⟩ | ⟨missing, symbols, defined, rfl⟩ := p.internWord_ok run
    · exact .inl ⟨mem_append_right _ (mem_map.2 ⟨_, mem_of_lookup_eq_some found, rfl⟩), rfl⟩
    · refine .inr ⟨?_, ?_, rfl, _, dotted _ (by decide), defined⟩
      · rw [pooled, forall_mem_append, forall_mem_map, forall_mem_map]
        refine ⟨by simp, fun e member same => ?_⟩
        simpa [Constant.word.inj same] using lookup_eq_none_iff.1 missing e member
      · simp only [pooled, map_append, mem_append, map_singleton, mem_singleton]
        tauto

lemma IsOrderly.intern_eq_error (orderly : p.IsOrderly) :
    (∃ fault, p.intern c = .error fault) ↔ c.hasNul = true ∧ ∀ s, (c, s) ∉ p.pooled := by
  cases c with
  | word value =>
    obtain ⟨s, q, run⟩ := orderly.exists_internWord value
    simp [intern, run, Constant.hasNul]
  | text content =>
    constructor
    · rintro ⟨fault, refused⟩
      have bad : hasNul content = true := by
        by_contra plain
        obtain ⟨s, q, run⟩ := orderly.exists_internText (Bool.not_eq_true _ ▸ plain)
        cases run.symm.trans refused
      refine ⟨bad, fun s member => ?_⟩
      have old : (content, s) ∈ p.texts := by simpa [pooled] using member
      exact Bool.false_ne_true ((orderly.plain _ old).symm.trans bad)
    · rintro ⟨bad, -⟩
      cases run : p.internText content with
      | error fault => exact ⟨fault, run⟩
      | ok pair => exact absurd bad (by simp [Constant.hasNul, orderly.plain_of_internText run])

lemma IsOrderly.intern (orderly : p.IsOrderly) (run : p.intern c = .ok (s, q)) : q.IsOrderly := by
  cases c with
  | text content => exact orderly.internText run
  | word value => exact orderly.internWord run

section

variable (filed : p.IsFiled) {e : Constant × SymbolId}
include filed

section

variable (member : e ∈ p.pooled) (keeps : p.symbols.Keeps q.symbols)
include member keeps

lemma offset_eq : q.offset e.2 = p.offset e.2 := by
  obtain ⟨symbol, found, -, bound, -⟩ := (filed.stands e member).holds
  obtain ⟨_, found', -, -, same⟩ := keeps _ _ found
  simp [offset, found, found', same bound]

lemma stands_kept (bytes : p.rodata.bytes <+: q.rodata.bytes) : q.Stands e.1 e.2 :=
  ⟨(filed.stands e member).holds.keeps keeps bytes, offset_eq filed member keeps ▸
    (filed.stands e member).aligned⟩

end

lemma IsFiled.of_symbols (keeps : p.symbols.Keeps symbols)
    (awaited : p.symbols.Awaited symbols) : IsFiled { p with symbols } where
  kind := filed.kind
  waits s symbol found free := filed.waits s symbol (awaited s symbol found free) free
  stands e member := stands_kept filed member keeps prefix_rfl
  apart e member e' member' differ := by
    obtain ⟨constants, ids, ranges⟩ := filed.apart e member e' member' differ
    have first : offset { p with symbols } e.2 = p.offset e.2 := offset_eq filed member keeps
    have second : offset { p with symbols } e'.2 = p.offset e'.2 := offset_eq filed member' keeps
    simp only [range, first, second]
    exact ⟨constants, ids, ranges⟩

lemma IsFiled.add {name : String} (dot : '.' ∈ name.toList) (new : ∀ e ∈ p.pooled, e.1 ≠ c)
    (among : ∀ e, e ∈ q.pooled ↔ e ∈ p.pooled ∨ e = (c, s))
    (rodata : q.rodata = (p.rodata.append c.content c.align).2)
    (defined : p.symbols.define name .rodata (p.rodata.append c.content c.align).1 =
    .ok (s, q.symbols)) :
    q.IsFiled := by
  have keeps := Keeps.define defined
  obtain ⟨kind, bytes, stored⟩ := DataSection.append_bytes filed.kind (by decide) c.content c.align
  rw [← rodata] at kind bytes stored
  obtain ⟨dvd, behind⟩ := c.offset_append filed.kind
  -- Had the name been declared before, its section might be another; one with a dot never waits.
  have here : q.symbols.get? s = some ⟨name, .rodata, (p.rodata.append c.content c.align).1,
      true⟩ := by
    have new := new_of_define defined fun id symbol found free named => filed.waits id symbol found
      free (named ▸ dot)
    rw [get?_define defined, section?, new]
    rfl
  have place : q.offset s = (p.rodata.append c.content c.align).1 := by simp [offset, here]
  have beside {e : Constant × SymbolId} (member : e ∈ p.pooled) :
      e.1 ≠ c ∧ e.2 ≠ s ∧ Disjoint (q.range e) (q.range (c, s)) := by
    obtain ⟨symbol, found, -, bound, content⟩ := (filed.stands e member).holds
    have inside := content.length_le
    -- An offset past the end would satisfy `inside` if the constant were empty.
    have filled := e.1.length_pos
    rw [length_drop, ← show p.offset e.2 = symbol.offset by simp [offset, found]] at inside
    refine ⟨new e member, fun same => ?_, Set.disjoint_left.2 ?_⟩
    · exact unbound_of_define defined (same ▸ found) bound
    · rintro x ⟨-, below⟩ ⟨above, -⟩
      rw [offset_eq filed member keeps] at below
      rw [place] at above
      omega
  refine ⟨kind, fun id symbol found free => filed.waits _ _ (Awaited.define defined id symbol found
    free) free, fun e member => ?_, fun e member e' member' differ => ?_⟩
  · obtain old | rfl := (among e).1 member
    · exact stands_kept filed old keeps bytes
    · exact ⟨⟨_, here, rfl, rfl, [], (append_nil _).trans stored.symm⟩, place ▸ dvd⟩
  · obtain old | rfl := (among e).1 member <;> obtain old' | rfl := (among e').1 member'
    · obtain ⟨constants, ids, ranges⟩ := filed.apart e old e' old' differ
      simp only [range, offset_eq filed old keeps, offset_eq filed old' keeps]
      exact ⟨constants, ids, ranges⟩
    · exact beside old
    · obtain ⟨constants, ids, ranges⟩ := beside old'
      exact ⟨constants.symm, ids.symm, ranges.symm⟩
    · exact absurd rfl differ

lemma IsFiled.intern (run : p.intern c = .ok (s, q)) : q.IsFiled ∧ (c, s) ∈ q.pooled ∧
    p.pooled ⊆ q.pooled := by
  obtain ⟨known, rfl⟩ | ⟨new, among, rodata, name, dot, defined⟩ := intern_ok run
  · exact ⟨filed, known, .refl _⟩
  · exact ⟨filed.add dot new among rodata defined, (among _).2 (.inr rfl), fun e old =>
      (among e).2 (.inl old)⟩

end

lemma IsFiled.laid (laid : Laid p q) (filed : p.IsFiled) : q.IsFiled := by
  induction laid with
  | refl p => exact filed
  | bind bound _ ih => exact ih (filed.of_symbols (.bind bound) (.bind bound))
  | define defined _ ih => exact ih (filed.of_symbols (.define defined) (.define defined))
  | @text _ _ _ content _ run _ ih => exact ih (filed.intern (c := .text content) run).1

lemma make_isFiled {program : Program} {layout : Layout} {settings : Settings} {plan : Plan}
    (made : make program layout settings .initial = .ok (plan, q)) : q.IsFiled := by
  obtain ⟨handlers, helpers, p1, sections, p2, all, names, data, storage, rfl⟩ := make_ok made
  obtain ⟨⟨ls, named, -⟩, -, -⟩ := nameRoutines_ok names
  obtain ⟨_, p', symbols, run, heap, rfl, rfl⟩ := layOutStorage_ok storage
  have first : p1.IsFiled := by
    rw [named.rest_eq]
    refine ⟨rfl, ?_, by simp [pooled, initial], by simp [pooled, initial]⟩
    exact fun s symbol found free => (lacks_initial.due s symbol found free).2
  exact first.laid ((layOutData_laid data).1.trans (run.laid.trans (.bind heap (.refl _))))

lemma grant_of_ok (run : p.intern c = .ok (s, q)) : p.grant c = q := by simp [grant, run]

section

variable (filed : p.IsFiled) (orderly : p.IsOrderly)
include filed orderly

omit filed in
lemma grant_of_error {fault : Diagnostic} (refused : p.intern c = .error fault) :
    p.grant c = p := by
  have nul := (orderly.intern_eq_error.1 ⟨fault, refused⟩).1
  simp [grant, refused, nul]

lemma grant_keeps (c : Constant) : (p.grant c).IsFiled ∧ (p.grant c).IsOrderly ∧
    p.pooled ⊆ (p.grant c).pooled := by
  cases run : p.intern c with
  | error fault =>
    rw [grant_of_error orderly run]
    exact ⟨filed, orderly, .refl _⟩
  | ok pair =>
    obtain ⟨filed', -, older⟩ := filed.intern run
    rw [grant_of_ok run]
    exact ⟨filed', orderly.intern run, older⟩

lemma after_keeps (requests : List Constant) :
    (p.after requests).IsFiled ∧ (p.after requests).IsOrderly ∧
        p.pooled ⊆ (p.after requests).pooled := by
  induction requests generalizing p with
  | nil => exact ⟨filed, orderly, .refl _⟩
  | cons c rest ih =>
    obtain ⟨filed', orderly', older⟩ := grant_keeps filed orderly c
    obtain ⟨filed'', orderly'', older'⟩ := ih filed' orderly'
    exact ⟨filed'', orderly'', fun _ member => older' (older member)⟩

lemma mem_of_answers {requests : List Constant} (answers : p.Answers requests c s) :
    (c, s) ∈ (p.after requests).pooled := by
  obtain ⟨earlier, later, q, rfl, run⟩ := answers
  obtain ⟨filed', orderly', -⟩ := after_keeps filed orderly earlier
  obtain ⟨filed'', member, -⟩ := filed'.intern run
  have rest := after_keeps filed'' (orderly'.intern run) later
  rw [after, foldl_append, foldl_cons, ← after, ← after, grant_of_ok run]
  exact rest.2.2 member

lemma poolsOnce (requests : List Constant) : p.PoolsOnce requests := by
  obtain ⟨filed', orderly', -⟩ := after_keeps filed orderly requests
  exact {
    refuses := fun c => orderly'.intern_eq_error
    unchanged := fun c fault refused => grant_of_error orderly' refused
    same := fun c c' s s' answers answers' => by
      have member := mem_of_answers filed orderly answers
      have member' := mem_of_answers filed orderly answers'
      constructor
      · rintro rfl
        by_contra differ
        exact (filed'.apart _ member _ member' (by simpa using differ)).2.1 rfl
      · rintro rfl
        by_contra differ
        exact (filed'.apart _ member _ member' (by simpa using differ)).1 rfl
    stands := fun c s answers =>
      have member := mem_of_answers filed orderly answers
      ⟨member, filed'.stands _ member⟩
    disjoint := fun e member e' member' differ => (filed'.apart e member e' member' differ).2.2 }

end

/-- Every accepted program has a pool, and whatever is asked of it, each constant is stored once and
stays. -/
theorem constants_are_pooled_once {program : Program} {layout : Layout} {settings : Settings}
    (analyzed : Layout.analyze program settings = .ok layout) : ∃ plan p,
      Plan.make program layout settings .initial = .ok (plan, p) ∧ ∀ requests,
      p.PoolsOnce requests := by
  obtain ⟨plan, p, made, orderly, -⟩ := Plan.yields_make settings
    (Layout.analyze_isAccepted analyzed) (Layout.analyze_isDeclared analyzed)
  exact ⟨plan, p, made, poolsOnce (make_isFiled made) orderly⟩

theorem constants_are_pooled_once_counter : ∃ layout plan p, Layout.analyze counterProgram {} =
    .ok layout ∧ Plan.make counterProgram layout {} .initial = .ok (plan, p) ∧
    p.PoolsOnce [.text "tick", .word 7, .text "a\x00b", .word 7, .text "tick", .text ""] := by
  obtain ⟨layout, object, -, analyzed, -⟩ := counterProgram_generates
  obtain ⟨plan, p, made, once⟩ := constants_are_pooled_once analyzed
  exact ⟨layout, plan, p, analyzed, made, once _⟩

end Pool

end AgentCompiler
