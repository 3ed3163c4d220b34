import AgentCompiler.Proofs.Emission

/-!
How the names and constants grow while code is written. A definition adds a bound symbol, or binds
one that was declared before; nothing is taken away, and the number of a symbol or label stays
below the size of its table.
-/

namespace AgentCompiler

open List

def labelsFrom (start count : Nat) : List Label := (List.range' start count).map Label.mk

@[simp] lemma labelsFrom_zero (start : Nat) : labelsFrom start 0 = [] := rfl

lemma labelsFrom_append (start m n : Nat) :
    labelsFrom start m ++ labelsFrom (start + m) n = labelsFrom start (m + n) := by
  simp [labelsFrom, ← map_append, range'_append_1]

lemma labelsFrom_split {a b c : Nat} (ab : a ≤ b) (bc : b ≤ c) :
    labelsFrom a (b - a) ++ labelsFrom b (c - b) = labelsFrom a (c - a) := by
  have same : b = a + (b - a) := by omega
  have count : c - a = (b - a) + (c - b) := by omega
  rw [count, ← labelsFrom_append, ← same]

lemma mem_labelsFrom {start count : Nat} {l : Label} :
    l ∈ labelsFrom start count ↔ start ≤ l.id ∧ l.id < start + count := by
  simp only [labelsFrom, mem_map, mem_range'_1]
  constructor
  · rintro ⟨id, named, rfl⟩
    exact named
  · intro named
    exact ⟨l.id, named, rfl⟩

namespace LabelTable

lemma entry_ok {t u : LabelTable} {name : String} {l : Label} (h : t.entry name = .ok (l, u)) :
    l = ⟨t.size⟩ ∧ u.size = t.size + 1 := by
  unfold entry at h
  split at h
  next => simp at h
  next =>
    obtain ⟨rfl, rfl⟩ := Prod.mk.inj (pure_ok.1 h)
    exact ⟨rfl, by simp [size]⟩

end LabelTable

namespace SymbolTable

variable {t u : SymbolTable} {name : String} {kind : SectionKind} {offset : Nat} {id : SymbolId}

lemma declare_known (found : t.lookup? name = some id) : t.declare name kind = (id, t) := by
  unfold declare
  split <;> simp_all

lemma declare_new (new : t.lookup? name = none) : t.declare name kind =
    (⟨t.size⟩, t.push name kind new) := by
  unfold declare
  split <;> simp_all

lemma symbols_place {old : Symbol} (here : t.get? id = some old) :
    (t.place id offset).symbols = t.symbols.set id.index
        { old with offset := offset, isBound := true } := by
  obtain ⟨inside, rfl⟩ := List.getElem?_eq_some_iff.1 here
  simp [place, modify_eq_set_get, inside]

lemma bind_ok : t.bind id offset = .ok u ↔
    ∃ old, t.get? id = some old ∧ old.isBound = false ∧ u = t.place id offset := by
  unfold bind tryBind read
  cases t.get? id with
  | none => simp [throw_eq_error, Except.map]
  | some old =>
    cases free : old.isBound <;> simp [free, pure, Except.pure, Except.map, throw_eq_error,
        eq_comm (a := u)]

/-- The table with a new symbol that has its offset. -/
def added (t : SymbolTable) (name : String) (kind : SectionKind) (offset : Nat)
    (new : t.lookup? name = none) : SymbolTable := (t.push name kind new).place ⟨t.size⟩ offset

@[simp] lemma symbols_added (new : t.lookup? name = none) :
    (t.added name kind offset new).symbols = t.symbols ++ [⟨name, kind, offset, true⟩] := by
  have here : (t.push name kind new).get? ⟨t.size⟩ = some ⟨name, kind, 0, false⟩ := by
    simp [get?, push, size]
  rw [added, symbols_place here]
  simp [push, size]

lemma define_ok : t.define name kind offset = .ok (id, u) ↔
    (∃ new, id = ⟨t.size⟩ ∧ u = t.added name kind offset new) ∨
      ∃ old, t.lookup? name = some id ∧ t.get? id = some old ∧ old.isBound = false ∧
      u = t.place id offset := by
  have steps : t.define name kind offset = .ok (id, u) ↔ id = (t.declare name kind).1 ∧
      (t.declare name kind).2.bind (t.declare name kind).1 offset = .ok u := by
    simp only [define, tryDefine, bind]
    cases ((t.declare name kind).2.tryBind (t.declare name kind).1 offset).1 <;> simp [Except.map,
        eq_comm (a := id)]
  rw [steps, bind_ok]
  obtain found | ⟨known, found⟩ := Option.eq_none_or_eq_some (t.lookup? name)
  · have here : (t.push name kind found).get? ⟨t.size⟩ = some
      ⟨name, kind, 0, false⟩ := by simp [get?, push, size]
    simp [declare_new found, here, added, found]
  · rw [declare_known found]
    constructor
    · rintro ⟨rfl, old, here, free, rfl⟩
      exact .inr ⟨old, found, here, free, rfl⟩
    · rintro (⟨new, -⟩ | ⟨old, same, here, free, rfl⟩)
      · simp [found] at new
      · obtain rfl := Option.some.inj (found.symm.trans same)
        exact ⟨rfl, old, here, free, rfl⟩

lemma index_lt_of_lookup (found : t.lookup? name = some id) : id.index < t.size := by
  obtain ⟨s, here, -⟩ := (t.finds name id).1 found
  exact (List.getElem?_eq_some_iff.1 here).1

lemma name_of_lookup (found : t.lookup? name = some id) {s : Symbol} (here : t.get? id = some s) :
    s.name = name := by
  obtain ⟨s', here', named⟩ := (t.finds name id).1 found
  obtain rfl := Option.some.inj (here.symm.trans here')
  exact named

/-- The section of the symbol that a name finds. -/
def section? (t : SymbolTable) (name : String) : Option SectionKind :=
  ((t.lookup? name).bind t.get?).map (·.kind)

lemma section?_of_lookup {s : Symbol} (found : t.lookup? name = some id)
    (here : t.get? id = some s) :
    t.section? name = some s.kind := by simp [section?, found, here]

/-- A definition does not move a name that was declared before to another section. -/
lemma get?_define (h : t.define name kind offset = .ok (id, u)) :
    u.get? id = some ⟨name, (t.section? name).getD kind, offset, true⟩ := by
  obtain ⟨new, rfl, rfl⟩ | ⟨old, found, here, -, rfl⟩ := define_ok.1 h
  · simp [get?, size, section?, new]
  · rw [section?_of_lookup found here, Option.getD_some, ← name_of_lookup found here, get?,
      symbols_place here]
    exact getElem?_set_self (index_lt_of_lookup found)

lemma new_of_define (h : t.define name kind offset = .ok (id, u))
    (waits : ∀ other s, t.get? other = some s → s.isBound = false → s.name ≠ name) :
    t.lookup? name = none := by
  obtain ⟨new, -⟩ | ⟨old, found, here, free, -⟩ := define_ok.1 h
  · exact new
  · exact absurd (name_of_lookup found here) (waits id old here free)

/-- A later table: symbols keep their numbers, names and sections, and bound ones their offsets. -/
def Keeps (t u : SymbolTable) : Prop :=
  ∀ id s, t.get? id = some s → ∃ s', u.get? id = some s' ∧ s'.name = s.name ∧ s'.kind = s.kind ∧
    (s.isBound = true → s' = s)

namespace Keeps

lemma refl (t : SymbolTable) : t.Keeps t := fun _ s h => ⟨s, h, rfl, rfl, fun _ => rfl⟩

lemma trans {v : SymbolTable} (h : t.Keeps u) (h' : u.Keeps v) : t.Keeps v := by
  intro id s hs
  obtain ⟨s1, hs1, name1, kind1, bound1⟩ := h id s hs
  obtain ⟨s2, hs2, name2, kind2, bound2⟩ := h' id s1 hs1
  refine ⟨s2, hs2, name2.trans name1, kind2.trans kind1, ?_⟩
  intro bound
  obtain rfl := bound1 bound
  exact bound2 bound

lemma size_le (h : t.Keeps u) : t.size ≤ u.size := by
  by_contra lt
  have last := not_le.1 lt
  obtain ⟨s', hs', -⟩ := h ⟨u.size⟩ _ (getElem?_eq_getElem last)
  simp [get?, size] at hs'

lemma place {old : Symbol} (known : t.get? id = some old) (free : old.isBound = false) :
    t.Keeps (t.place id offset) := by
  intro other o here
  rw [get?, symbols_place known]
  by_cases same : other = id
  · subst same
    obtain rfl := Option.some.inj (known.symm.trans here)
    exact ⟨_, getElem?_set_self (List.getElem?_eq_some_iff.1 known).1, rfl, rfl, by simp [free]⟩
  · have apart : id.index ≠ other.index := fun h => same (congrArg SymbolId.mk h.symm)
    exact ⟨o, (getElem?_set_ne apart).trans here, rfl, rfl, fun _ => rfl⟩

lemma append {s : Symbol} (grown : u.symbols = t.symbols ++ [s]) : t.Keeps u := by
  intro other o here
  rw [get?, grown]
  exact ⟨o, (getElem?_append_left (List.getElem?_eq_some_iff.1 here).1).trans here, rfl, rfl,
    fun _ => rfl⟩

lemma define (h : t.define name kind offset = .ok (id, u)) : t.Keeps u := by
  obtain ⟨new, rfl, rfl⟩ | ⟨old, -, known, free, rfl⟩ := define_ok.1 h
  · exact append (symbols_added new)
  · exact place known free

lemma bind (h : t.bind id offset = .ok u) : t.Keeps u := by
  obtain ⟨old, known, free, rfl⟩ := bind_ok.1 h
  exact place known free

end Keeps

end SymbolTable

lemma toList_append_toString (first rest : String) :
    (toString first ++ toString rest).toList = first.toList ++ rest.toList := String.toList_append

lemma dotted {first : String} (rest : String) (dot : '.' ∈ first.toList) :
    '.' ∈ (toString first ++ toString rest).toList := by
  rw [toList_append_toString]
  exact mem_append_left _ dot

lemma mem_of_lookup_eq_some {α β : Type} [BEq α] [LawfulBEq α] {entries : List (α × β)}
    {a : α} {b : β} (h : entries.lookup a = some b) : (a, b) ∈ entries := by
  obtain ⟨before, after, rfl, -⟩ := lookup_eq_some_iff.1 h
  simp

namespace Pool

variable {p q : Pool} {s : SymbolId}

lemma internText_ok {text : String} (h : p.internText text = .ok (s, q)) :
      (p.texts.lookup text = some s ∧ q = p) ∨ (p.texts.lookup text = none ∧ hasNul text = false ∧
        ∃ symbols, p.symbols.define (toString "str." ++ toString p.texts.length) .rodata
            (p.rodata.append (terminated text) 1).1 = .ok (s, symbols) ∧
          q = { p with
            symbols
            rodata := (p.rodata.append (terminated text) 1).2
            texts := p.texts ++ [(text, s)] }) := by
  unfold internText at h
  split at h
  next s' hs =>
    obtain ⟨rfl, rfl⟩ := Prod.mk.inj (pure_ok.1 h)
    exact .inl ⟨hs, rfl⟩
  next absent =>
    split at h
    next => simp at h
    next nul =>
      simp only [bind_ok, Prod.exists, pure_ok, Prod.mk.injEq] at h
      obtain ⟨s', symbols, define, rfl, rfl⟩ := h
      exact .inr ⟨absent, by simpa using nul, symbols, define, rfl⟩

lemma internWord_ok {value : Int64} (h : p.internWord value = .ok (s, q)) :
    (p.words.lookup value = some s ∧ q = p) ∨ (p.words.lookup value = none ∧
        ∃ symbols, p.symbols.define (toString "i64." ++ toString p.words.length) .rodata
            (p.rodata.append (littleEndianInt 8 value.toInt) 8).1 = .ok (s, symbols) ∧
          q = { p with
            symbols
            rodata := (p.rodata.append (littleEndianInt 8 value.toInt) 8).2
            words := p.words ++ [(value, s)] }) := by
  unfold internWord at h
  split at h
  next s' hs =>
    obtain ⟨rfl, rfl⟩ := Prod.mk.inj (pure_ok.1 h)
    exact .inl ⟨hs, rfl⟩
  next absent =>
    simp only [bind_ok, Prod.exists, pure_ok, Prod.mk.injEq] at h
    obtain ⟨s', symbols, define, rfl, rfl⟩ := h
    exact .inr ⟨absent, symbols, define, rfl⟩

def constants (p : Pool) : List (Bytes × SymbolId) :=
  p.texts.map (fun c => (terminated c.1, c.2)) ++ p.words.map fun c =>
    (littleEndianInt 8 c.1.toInt, c.2)

inductive Interns (p : Pool) : Bytes → SymbolId → Pool → Prop
  | text {content : String} {s : SymbolId} {q : Pool} :
      p.internText content = .ok (s, q) → Interns p (terminated content) s q
  | word {value : Int64} {s : SymbolId} {q : Pool} :
      p.internWord value = .ok (s, q) → Interns p (littleEndianInt 8 value.toInt) s q

namespace Interns

variable {content : Bytes} (h : p.Interns content s q)
include h

lemma cases : ((content, s) ∈ p.constants ∧ q = p) ∨ ∃ name align symbols texts words,
    '.' ∈ name.toList ∧ content ≠ [] ∧
      p.symbols.define name .rodata (p.rodata.append content align).1 = .ok (s, symbols) ∧
      q = { p with symbols, rodata := (p.rodata.append content align).2, texts, words } ∧
      p.words ⊆ words ∧ ∀ c ∈ q.constants, c ∈ p.constants ∨ c = (content, s) := by
  cases h with
  | text run =>
    obtain ⟨found, rfl⟩ | ⟨-, -, symbols, defined, rfl⟩ := p.internText_ok run
    · exact .inl ⟨mem_append_left _ (mem_map_of_mem (mem_of_lookup_eq_some found)), rfl⟩
    · refine .inr ⟨_, _, symbols, _, _, dotted _ (by decide), by simp [terminated], defined, rfl,
        .refl _, ?_⟩
      simp only [constants, map_append, mem_append, map_singleton, mem_singleton]
      tauto
  | word run =>
    obtain ⟨found, rfl⟩ | ⟨-, symbols, defined, rfl⟩ := p.internWord_ok run
    · exact .inl ⟨mem_append_right _ (mem_map_of_mem (mem_of_lookup_eq_some found)), rfl⟩
    · refine .inr ⟨_, _, symbols, _, _, dotted _ (by decide), ne_nil_of_length_pos (by simp),
        defined, rfl, subset_append_left _ _, ?_⟩
      simp only [constants, map_append, mem_append, map_singleton, mem_singleton]
      tauto

lemma keeps : p.symbols.Keeps q.symbols := by
  obtain ⟨-, rfl⟩ | ⟨_, _, _, _, _, -, -, defined, rfl, -⟩ := h.cases
  · exact .refl _
  · exact .define defined

lemma labels_eq : q.labels = p.labels := by
  obtain ⟨-, rfl⟩ | ⟨_, _, _, _, _, -, -, -, rfl, -⟩ := h.cases <;> rfl

end Interns

structure Names (p : Pool) (ls : List Label) (q : Pool) : Prop where
  labels_eq : ls = labelsFrom p.labels.size ls.length
  size_eq : q.labels.size = p.labels.size + ls.length
  rest_eq : q = { p with labels := q.labels }

namespace Names

variable {r : Pool} {l : Label} {ls ms : List Label} {hint : String}

lemma nil (p : Pool) : p.Names [] p := ⟨rfl, rfl, rfl⟩

lemma append (h : p.Names ls q) (h' : q.Names ms r) : p.Names (ls ++ ms) r where
  labels_eq := by
    rw [length_append, ← labelsFrom_append, ← h.labels_eq, ← h.size_eq, ← h'.labels_eq]
  size_eq := by rw [h'.size_eq, h.size_eq, length_append, add_assoc]
  rest_eq := by rw [h'.rest_eq, h.rest_eq]

lemma fresh (h : Emit.fresh hint p = .ok (l, q)) : p.Names [l] q := by
  obtain ⟨rfl, rfl⟩ := Emit.fresh_ok.1 h
  exact ⟨rfl, LabelTable.size_fresh .., rfl⟩

lemma entry {name : String} (h : Emit.entry name p = .ok (l, q)) : p.Names [l] q := by
  obtain ⟨labels, labelled, rfl⟩ := Emit.entry_ok.1 h
  obtain ⟨rfl, size⟩ := LabelTable.entry_ok labelled
  exact ⟨rfl, size, rfl⟩

lemma cons (h : Emit.fresh hint p = .ok (l, q)) (h' : q.Names ms r) :
    p.Names (l :: ms) r := (fresh h).append h'

lemma symbols_eq (h : p.Names ls q) : q.symbols = p.symbols := by rw [h.rest_eq]

end Names

end Pool

end AgentCompiler
