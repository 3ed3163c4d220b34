import Mathlib

/-!
Computations that may fail, opened from their results: a sequence succeeds when each of its steps
does, and so does a run through a list.
-/

namespace AgentCompiler

variable {ε α β : Type} {f : α → Except ε β} {x : Except ε α} {fault : ε} {results : List β}
  {items : List α} {a b : α}

lemma bind_ok {b : β} : x >>= f = .ok b ↔ ∃ a, x = .ok a ∧ f a = .ok b := by
  cases x with
  | error fault => simp [bind, Except.bind]
  | ok a => simp [bind, Except.bind]

lemma bind_eq_error :
    x >>= f = .error fault ↔ x = .error fault ∨ ∃ a, x = .ok a ∧ f a = .error fault := by
  cases x with
  | error other => simp [bind, Except.bind]
  | ok a => simp [bind, Except.bind]

@[simp] lemma pure_ok : (pure a : Except ε α) = .ok b ↔ a = b := by
  simp [pure, Except.pure]

@[simp] lemma pure_eq_error : (pure a : Except ε α) = .error fault ↔ False := by
  simp [pure, Except.pure]

lemma bind_pure_ok {f : α → β} {b : β} :
    (x >>= fun a => pure (f a)) = .ok b ↔ ∃ a, x = .ok a ∧ f a = b := by
  simp only [bind_ok, pure_ok]

lemma exists_bind_pure_iff {f : α → β} :
    (∃ b, (x >>= fun a => pure (f a)) = .ok b) ↔ ∃ a, x = .ok a := by
  cases x with
  | error fault => simp [bind, Except.bind]
  | ok a => simp [bind, Except.bind]

@[simp] lemma throw_ok : (throw fault : Except ε α) = .ok b ↔ False := ⟨nofun, False.elim⟩

lemma throw_eq_error : (throw fault : Except ε α) = .error fault := rfl

/-- Whatever a computation gives has a property. -/
def Provides (P : α → Prop) (x : Except ε α) : Prop := ∀ a, x = .ok a → P a

namespace Provides

lemma pure {P : α → Prop} (h : P a) : Provides P (pure a : Except ε α) := by
  rintro _ ⟨⟩
  exact h

lemma throw {P : α → Prop} : Provides P (throw fault : Except ε α) := by
  rintro _ ⟨⟩

lemma bind {P : β → Prop} (h : ∀ a, x = .ok a → Provides P (f a)) :
    Provides P (x >>= f) := by
  intro b run
  obtain ⟨a, first, rest⟩ := bind_ok.1 run
  exact h a first b rest

end Provides

lemma mapM_ok :
    items.mapM f = .ok results ↔ List.Forall₂ (fun a b => f a = .ok b) items results := by
  induction items generalizing results with
  | nil =>
    simp only [List.mapM_nil, pure_ok, List.forall₂_nil_left_iff]
    exact eq_comm
  | cons a rest ih =>
    simp only [List.mapM_cons, bind_ok, pure_ok, List.forall₂_cons_left_iff, ih]
    constructor
    · rintro ⟨b, hb, tail, ht, rfl⟩
      exact ⟨b, tail, hb, ht, rfl⟩
    · rintro ⟨b, tail, hb, ht, rfl⟩
      exact ⟨b, hb, tail, ht, rfl⟩

lemma mapM_ok_iff_map {g : α → β} {c : α → Prop} (step : ∀ a b, f a = .ok b ↔ c a ∧ g a = b) :
    items.mapM f = .ok results ↔ (∀ a ∈ items, c a) ∧ items.map g = results := by
  induction items generalizing results with
  | nil => simp
  | cons a rest ih =>
    simp only [List.mapM_cons, bind_ok, pure_ok, step, ih, List.forall_mem_cons, List.map_cons]
    constructor
    · rintro ⟨_, ⟨first, rfl⟩, _, ⟨later, rfl⟩, rfl⟩
      exact ⟨⟨first, later⟩, rfl⟩
    · rintro ⟨⟨first, later⟩, rfl⟩
      exact ⟨_, ⟨first, rfl⟩, _, ⟨later, rfl⟩, rfl⟩

lemma forall₂_getElem? {r : α → β → Prop}
    (h : List.Forall₂ r items results) {k : Nat} (found : items[k]? = some a) :
    ∃ b, results[k]? = some b ∧ r a b := by
  induction h generalizing k with
  | nil => simp at found
  | @cons first result rest results begins _ ih =>
    cases k with
    | zero =>
      obtain rfl : first = a := by simpa using found
      exact ⟨result, rfl, begins⟩
    | succ k => exact ih (by simpa using found)

end AgentCompiler
