import AgentCompiler.Proofs.SymbolBinding

/-!
Names that are free when they are taken. Constants are numbered on in the pool, so the name of the
next one is new, and a text or a word is always interned; only a text with a NUL is refused.
-/

namespace AgentCompiler

open SymbolTable List

variable {first : String}

lemma toString_injective {m n : Nat} (h : toString m = toString n) : m = n := by
  have digits : (Nat.repr m).toList = (Nat.repr n).toList := congrArg String.toList h
  rw [Nat.toList_repr, Nat.toList_repr] at digits
  rw [← Nat.ofDigitChars_ten_toDigits (n := m), digits, Nat.ofDigitChars_ten_toDigits]

lemma numbered_injective {m n : Nat}
    (h : toString first ++ toString m = toString first ++ toString n) : m = n := by
  apply toString_injective
  apply String.toList_inj.1
  have lists := congrArg String.toList h
  rwa [String.toList_append, String.toList_append, append_cancel_left_eq] at lists

lemma append_ne {other : String} (rest tail : String)
    (differ : ¬ first.toList <+: other.toList ∧ ¬ other.toList <+: first.toList) :
    toString first ++ toString rest ≠ toString other ++ toString tail := by
  intro same
  have lists := congrArg String.toList same
  rw [toList_append_toString, toList_append_toString] at lists
  rcases prefix_or_prefix_of_prefix (prefix_append first.toList rest.toList)
    (lists ▸ prefix_append other.toList tail.toList) with short | long
  · exact differ.1 short
  · exact differ.2 long

namespace SymbolTable

variable {t u : SymbolTable} {name : String} {offset : Nat} {id : SymbolId}

def usedNames (t : SymbolTable) : List String := t.symbols.map (·.name)

lemma lookup?_eq_none : t.lookup? name = none ↔ name ∉ t.usedNames := by
  simp only [Option.eq_none_iff_forall_ne_some, ne_eq, lookup?, t.finds, usedNames]
  constructor
  · intro absent used
    obtain ⟨s, mem, rfl⟩ := mem_map.1 used
    obtain ⟨index, here⟩ := getElem?_of_mem mem
    exact absent ⟨index⟩ ⟨s, here, rfl⟩
  · rintro absent id ⟨s, here, rfl⟩
    exact absent (mem_map_of_mem (mem_of_getElem? here))

@[simp] lemma mem_usedNames_added {other : String} {kind : SectionKind}
    {new : t.lookup? other = none} :
    name ∈ (t.added other kind offset new).usedNames ↔ name ∈ t.usedNames ∨ name = other := by
  simp [usedNames]

lemma define_new (new : name ∉ t.usedNames) (kind : SectionKind) (offset : Nat) :
    t.define name kind offset = .ok (⟨t.size⟩, t.added name kind offset (lookup?_eq_none.2 new)) :=
  define_ok.2 (.inl ⟨_, rfl, rfl⟩)

/-- An offset changes nothing else about the symbols. -/
lemma map_bind {α : Type} {f : Symbol → α}
    (other : ∀ s offset, f { s with offset := offset, isBound := true } = f s)
    (h : t.bind id offset = .ok u) : u.symbols.map f = t.symbols.map f := by
  obtain ⟨old, here, -, rfl⟩ := bind_ok.1 h
  obtain ⟨inside, rfl⟩ := List.getElem?_eq_some_iff.1 here
  refine ext_getElem (by simp [symbols_place here]) fun i _ _ => ?_
  simp only [symbols_place here, getElem_map, getElem_set]
  split
  next same => subst same; exact other _ _
  next => rfl

lemma usedNames_bind (h : t.bind id offset = .ok u) : u.usedNames = t.usedNames :=
  map_bind (fun _ _ => rfl) h

end SymbolTable

namespace Pool

variable {p q : Pool} {s : SymbolId} {text : String} {value : Int64}

/-- The pool as it is while code is written: pooled texts have no NUL, and the names of the
constants to come are free. -/
structure IsOrderly (p : Pool) : Prop where
  plain : ∀ pair ∈ p.texts, hasNul pair.1 = false
  texts : ∀ n, p.texts.length ≤ n → toString "str." ++ toString n ∉ p.symbols.usedNames
  words : ∀ n, p.words.length ≤ n → toString "i64." ++ toString n ∉ p.symbols.usedNames

namespace IsOrderly

section

variable (h : p.IsOrderly)
include h

lemma exists_internText (plain : hasNul text = false) : ∃ s q, p.internText text = .ok (s, q) := by
  cases found : p.texts.lookup text with
  | some s => exact ⟨s, p, by simp [Pool.internText, found, pure, Except.pure]⟩
  | none =>
    have defined := define_new (h.texts _ le_rfl) .rodata (p.rodata.append (terminated text) 1).1
    simp only [Pool.internText, found, plain, Bool.false_eq_true, if_false]
    exact ⟨_, _, bind_ok.2 ⟨_, defined, rfl⟩⟩

lemma exists_internWord (value : Int64) : ∃ s q, p.internWord value = .ok (s, q) := by
  cases found : p.words.lookup value with
  | some s => exact ⟨s, p, by simp [Pool.internWord, found, pure, Except.pure]⟩
  | none =>
    have defined := define_new (h.words _ le_rfl) .rodata
      (p.rodata.append (littleEndianInt 8 value.toInt) 8).1
    simp only [Pool.internWord, found]
    exact ⟨_, _, bind_ok.2 ⟨_, defined, rfl⟩⟩

lemma plain_of_internText (run : p.internText text = .ok (s, q)) : hasNul text = false := by
  obtain ⟨found, -⟩ | ⟨-, plain, -⟩ := p.internText_ok run
  · exact h.plain (text, s) (mem_of_lookup_eq_some found)
  · exact plain

lemma internText (run : p.internText text = .ok (s, q)) : q.IsOrderly := by
  obtain ⟨-, rfl⟩ | ⟨-, plain, symbols, defined, rfl⟩ := p.internText_ok run
  · exact h
  · rw [define_new (h.texts _ le_rfl)] at defined
    obtain ⟨rfl, rfl⟩ := Prod.mk.inj (Except.ok.inj defined)
    refine ⟨forall_mem_append.2 ⟨h.plain, forall_mem_singleton.2 plain⟩, fun n later => ?_,
      fun n later => ?_⟩
    · rw [length_append, length_singleton] at later
      have other : n ≠ p.texts.length := by omega
      rw [mem_usedNames_added, not_or]
      exact ⟨h.texts n (by omega), fun same => other (numbered_injective same)⟩
    · rw [mem_usedNames_added, not_or]
      exact ⟨h.words n later, append_ne _ _ (by decide)⟩

lemma internWord (run : p.internWord value = .ok (s, q)) : q.IsOrderly := by
  obtain ⟨-, rfl⟩ | ⟨-, symbols, defined, rfl⟩ := p.internWord_ok run
  · exact h
  · rw [define_new (h.words _ le_rfl)] at defined
    obtain ⟨rfl, rfl⟩ := Prod.mk.inj (Except.ok.inj defined)
    refine ⟨h.plain, fun n later => ?_, fun n later => ?_⟩
    · rw [mem_usedNames_added, not_or]
      exact ⟨h.texts n later, append_ne _ _ (by decide)⟩
    · rw [length_append, length_singleton] at later
      have other : n ≠ p.words.length := by omega
      rw [mem_usedNames_added, not_or]
      exact ⟨h.words n (by omega), fun same => other (numbered_injective same)⟩

lemma added (rest : String) (kind : SectionKind) (offset : Nat)
    (new : p.symbols.lookup? (toString first ++ toString rest) = none)
    (text : ¬ "str.".toList <+: first.toList ∧ ¬ first.toList <+: "str.".toList)
    (word : ¬ "i64.".toList <+: first.toList ∧ ¬ first.toList <+: "i64.".toList) :
    Pool.IsOrderly { p with symbols := p.symbols.added _ kind offset new } := by
  refine ⟨h.plain, fun n later => ?_, fun n later => ?_⟩
  · rw [mem_usedNames_added, not_or]
    exact ⟨h.texts n later, append_ne _ _ text⟩
  · rw [mem_usedNames_added, not_or]
    exact ⟨h.words n later, append_ne _ _ word⟩

lemma grows (grows : p.Grows q) : q.IsOrderly := by
  induction grows with
  | names names =>
    rw [names.rest_eq]
    exact ⟨h.plain, h.texts, h.words⟩
  | interns interns =>
    cases interns with
    | text run => exact h.internText run
    | word run => exact h.internWord run
  | trans _ _ first second => exact second (first h)

end

end IsOrderly

end Pool

end AgentCompiler
