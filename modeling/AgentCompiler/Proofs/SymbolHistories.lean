import AgentCompiler.Proofs.FreshNames

/-!
A symbol table over its history. Whatever is asked of it, names stay distinct, so that a name finds
its symbol and no other; what is known of a symbol is never taken back, and a refused request
changes nothing. The first request for a name settles its section.
-/

namespace AgentCompiler

open List Option

namespace SymbolTable

inductive Request
  | declare (name : String) (kind : SectionKind)
  | define (name : String) (kind : SectionKind) (offset : Nat)
  | bind (id : SymbolId) (offset : Nat)

/-- The section that a request gives for a name. -/
def Request.section? (name : String) : Request → Option SectionKind
  | .declare other kind | .define other kind _ => if other = name then some kind else none
  | .bind _ _ => none

/-- What a request comes to, and the table after it. -/
def serve (t : SymbolTable) : Request → Outcome Unit × SymbolTable
  | .declare name kind => (pure (), (t.declare name kind).2)
  | .define name kind offset => ((t.tryDefine name kind offset).1.map fun _ => (),
      (t.tryDefine name kind offset).2)
  | .bind id offset => t.tryBind id offset

def after (t : SymbolTable) (r : Request) : SymbolTable := (t.serve r).2

def Refuses (t : SymbolTable) (r : Request) : Prop := ∃ fault, (t.serve r).1 = .error fault

/-- Each symbol is found by its name, which no other symbol has. -/
structure IsConsistent (t : SymbolTable) : Prop where
  distinct : t.usedNames.Nodup
  finds : ∀ name id, t.lookup? name = some id ↔ ∃ s, t.get? id = some s ∧ s.name = name

variable {t u : SymbolTable} {name : String} {kind : SectionKind} {offset : Nat} {id : SymbolId}

/-- The index gives each name one number, so no name stands at two. -/
lemma isConsistent (t : SymbolTable) : t.IsConsistent := by
  refine ⟨nodup_iff_injective_get.2 fun i j same => ?_, t.finds⟩
  have number (k : Fin t.usedNames.length) : t.lookup? (t.usedNames.get k) = some ⟨k⟩ := by
    have inside : k < t.symbols.length := by simpa [usedNames] using k.isLt
    exact (t.finds _ _).2 ⟨_, getElem?_eq_getElem inside, by rw [get_eq_getElem]; simp [usedNames]⟩
  have equal := (number i).symm.trans (same ▸ number j)
  simpa [Fin.ext_iff] using equal

lemma Keeps.declare (t : SymbolTable) (name : String) (kind : SectionKind) :
    t.Keeps (t.declare name kind).2 := by
  obtain new | ⟨id, found⟩ := eq_none_or_eq_some (t.lookup? name)
  · rw [declare_new new]
    exact .append rfl
  · rw [declare_known found]
    exact .refl t

/-- An offset is stored or refused, and if it is refused the table is the same. -/
lemma tryBind_cases (t : SymbolTable) (id : SymbolId) (offset : Nat) :
    (∃ u, t.tryBind id offset = (.ok (), u) ∧ t.bind id offset = .ok u) ∨ ∃ d, t.tryBind id offset =
        (.error d, t) := by
  unfold bind tryBind
  cases t.read id with
  | error d => exact .inr ⟨d, rfl⟩
  | ok s =>
    dsimp only
    split
    · exact .inr ⟨_, rfl⟩
    · exact .inl ⟨_, rfl, rfl⟩

lemma after_bind (t : SymbolTable) (id : SymbolId) (offset : Nat) :
    t.bind id offset = .ok (t.after (.bind id offset)) ∨ t.after (.bind id offset) = t := by
  obtain ⟨u, run, bound⟩ | ⟨d, run⟩ := tryBind_cases t id offset
  · exact .inl (by rw [bound, after, serve, run])
  · exact .inr (by rw [after, serve, run])

lemma after_define (t : SymbolTable) (name : String) (kind : SectionKind) (offset : Nat) :
    t.after (.define name kind offset) = (t.declare name kind).2.after
        (.bind (t.declare name kind).1 offset) := rfl

/-- What declarations and offsets keep, every run of requests keeps. -/
lemma foldl_after {P : SymbolTable → Prop}
    (declares : ∀ t name kind, P t → P (t.declare name kind).2) (binds : ∀ t id offset u,
    t.bind id offset = .ok u → P t → P u) (requests : List Request) (h : P t) :
    P (requests.foldl after t) := by
  have bind (t id offset) (h : P t) : P (t.after (.bind id offset)) := by
    obtain bound | same := after_bind t id offset
    · exact binds _ _ _ _ bound h
    · rwa [same]
  induction requests generalizing t with
  | nil => exact h
  | cons r rest ih =>
    apply ih
    cases r with
    | declare name kind => exact declares t name kind h
    | define name kind offset =>
      exact after_define t name kind offset ▸ bind _ _ _ (declares t name kind h)
    | bind id offset => exact bind t id offset h

lemma map_eq_error {α β : Type} {x : Outcome α} {f : α → β} {fault : Diagnostic} :
    x.map f = .error fault ↔ x = .error fault := by cases x <;> simp [Except.map]

lemma bind_refused {fault : Diagnostic} (refused : (t.tryBind id offset).1 = .error fault) :
    (t.tryBind id offset).2 = t := by
  obtain ⟨u, run, -⟩ | ⟨d, run⟩ := tryBind_cases t id offset
  · simp [run] at refused
  · rw [run]

/-- A new name can always be defined, so a refused definition has declared nothing. -/
lemma after_eq_of_refuses {r : Request} (refused : t.Refuses r) : t.after r = t := by
  obtain ⟨fault, refused⟩ := refused
  cases r with
  | declare name kind => simp [serve, pure, Except.pure] at refused
  | bind id offset => exact bind_refused refused
  | define name kind offset =>
    have refused := map_eq_error.1 refused
    obtain new | ⟨id, found⟩ := eq_none_or_eq_some (t.lookup? name)
    · have defined : t.define name kind offset = .ok _ := define_ok.2 (.inl ⟨new, rfl, rfl⟩)
      simp [define, refused, Except.map] at defined
    · rw [tryDefine, declare_known found] at refused
      rw [after_define, declare_known found]
      exact bind_refused (map_eq_error.1 refused)

lemma keeps_foldl (t : SymbolTable) (requests : List Request) : t.Keeps (requests.foldl after t) :=
  foldl_after (P := t.Keeps) (fun u name kind kept => kept.trans (.declare u name kind))
    (fun _ _ _ _ bound kept => kept.trans (.bind bound)) requests (.refl t)

/-- After any requests the table is consistent, later ones keep what it says of its symbols, and
nothing comes of a request that is refused or declares what is known. -/
theorem symbols_are_written_once (earlier : List Request) :
    let t := earlier.foldl after {}
    t.IsConsistent ∧ (∀ later : List Request, t.Keeps (later.foldl after t)) ∧
      (∀ r, t.Refuses r → t.after r = t) ∧ ∀ name kind id, t.lookup? name = some id →
      t.declare name kind = (id, t) :=
  ⟨isConsistent _, keeps_foldl _, fun _ => after_eq_of_refuses, fun _ _ _ => declare_known⟩

lemma section?_bind (bound : t.bind id offset = .ok u) : u.section? name = t.section? name := by
  obtain ⟨old, -, -, rfl⟩ := bind_ok.1 bound
  have same (other : SymbolId) : ((t.place id offset).get? other).map (·.kind) = (t.get? other).map
      (·.kind) := by
    simp only [get?, place, getElem?_modify]
    cases t.symbols[other.index]? with
    | none => rfl
    | some s => by_cases here : id.index = other.index <;> simp [here]
  rw [section?, section?, Option.map_bind, Option.map_bind]
  exact congrArg _ (funext same)

lemma section?_declare (t : SymbolTable) (name other : String) (kind : SectionKind) :
    (t.declare other kind).2.section? name = (t.section? name).or
        (if other = name then some kind else none) := by
  obtain new | ⟨id, found⟩ := eq_none_or_eq_some (t.lookup? other)
  · rw [declare_new new, section?, lookup?, push, lookup_cons]
    by_cases same : other = name
    · subst same
      simp [section?, new, get?, size]
    · rw [if_neg same, or_none, beq_false_of_ne (Ne.symm same)]
      cases found : t.lookup? name with
      | none => simp [section?, found, show t.byName.lookup name = none from found]
      | some id =>
        have here : (t.symbols ++ [⟨other, kind, 0, false⟩])[id.index]? = t.symbols[id.index]? :=
          getElem?_append_left (index_lt_of_lookup found)
        simp [section?, found, show t.byName.lookup name = some id from found, get?, here]
  · rw [declare_known found]
    split
    next same =>
      subst same
      rw [section?_of_lookup found (getElem?_eq_getElem (index_lt_of_lookup found)), some_or]
    next => rw [or_none]

lemma section?_after (t : SymbolTable) (r : Request) (name : String) :
    (t.after r).section? name = (t.section? name).or (r.section? name) := by
  have bind (t : SymbolTable) (id offset) : (t.after (.bind id offset)).section? name =
      t.section? name := by
    obtain bound | same := after_bind t id offset
    · exact section?_bind bound
    · rw [same]
  cases r with
  | declare other kind => exact section?_declare t name other kind
  | define other kind offset => rw [after_define, bind, section?_declare, Request.section?]
  | bind id offset => rw [bind, Request.section?, or_none]

/-- The first request for a name gives its section, and later ones do not change it. -/
lemma section?_foldl (t : SymbolTable) (requests : List Request) (name : String) :
    (requests.foldl after t).section? name = (t.section? name).or
        (requests.findSome? (·.section? name)) := by
  induction requests generalizing t with
  | nil => simp
  | cons r rest ih =>
    rw [foldl_cons, ih, section?_after, findSome?_cons, Option.or_assoc]
    cases r.section? name <;> rfl

/-- A definition records its name and offset, in the section that the first request for the name
gave: the one it names itself exactly if no earlier request gave another. The linker counts from
that section. -/
theorem define_records_first_section (earlier : List Request)
    (defined : (earlier.foldl after {}).define name kind offset = .ok (id, u)) :
    let first := earlier.findSome? (·.section? name)
    u.get? id = some ⟨name, first.getD kind, offset, true⟩ ∧
      (u.get? id = some ⟨name, kind, offset, true⟩ ↔ ∀ other, first = some other → other = kind) ∧
      ∀ (b : Blueprint) (s : Symbol) (start : Nat), u.get? id = some s →
        b.sectionAddress? (first.getD kind) = some start → b.symbolAddress s = .ok
        (toWord (start + offset)) := by
  intro first
  have recorded : u.get? id = some ⟨name, first.getD kind, offset, true⟩ := by
    rw [get?_define defined, section?_foldl]
    rfl
  refine ⟨recorded, ?_, fun b s start here placed => ?_⟩
  · rw [recorded]
    cases first <;> simp
  · obtain rfl := Option.some.inj (recorded.symm.trans here)
    simp only [Blueprint.symbolAddress, placed, if_true]
    rfl

theorem define_records_first_section_heap :
    let earlier : List Request := [.declare "heap" .bss, .define "queue" .bss 0]
    ∃ u, (earlier.foldl after {}).define "heap" .bss 32 = .ok (⟨0⟩, u) ∧ u.get? ⟨0⟩ = some
        ⟨"heap", .bss, 32, true⟩ := by
  intro earlier
  have defined : (earlier.foldl after {}).define "heap" .bss 32 = .ok (⟨0⟩, _) := rfl
  exact ⟨_, defined, (define_records_first_section earlier defined).2.1.2 fun _ first =>
    (Option.some.inj first).symm⟩

/-- A name declared for one section and defined in another stays in the first. -/
theorem define_elsewhere_keeps_section : ¬ ∀ (earlier : List Request) (name : String)
    (kind : SectionKind) (offset : Nat) (id : SymbolId) (u : SymbolTable),
    (earlier.foldl after {}).define name kind offset = .ok (id, u) →
      u.get? id = some ⟨name, kind, offset, true⟩ := by
  intro records
  have recorded := records [.declare "heap" .bss] "heap" .data 8 ⟨0⟩ _ rfl
  exact absurd recorded (by decide)

end SymbolTable

end AgentCompiler
