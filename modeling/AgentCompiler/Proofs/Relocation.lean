import AgentCompiler.Object.Image
import AgentCompiler.Proofs.ByteStrings
import AgentCompiler.Proofs.Success

/-!
Relocations applied to section contents. One relocation replaces the bytes of its site by those it
calls for and leaves all others alone. So a run of relocations fills every site that no later one
covers, and keeps every byte outside all sites.
-/

namespace AgentCompiler

namespace SymbolTable

lemma read_ok {t : SymbolTable} {id : SymbolId} {s : Symbol} : t.read id = .ok s ↔
    t.get? id = some s := by
  unfold read
  cases t.get? id <;> simp

def single (name : String) (kind : SectionKind) : SymbolTable where
  symbols := [⟨name, kind, 0, true⟩]
  byName := [(name, ⟨0⟩)]
  finds other id := by
    rw [List.lookup_cons]
    obtain ⟨_ | n⟩ := id
    · cases same : other == name with
      | true => simp [eq_of_beq same]
      | false => simp [(ne_of_beq_false same).symm]
    · cases other == name <;> simp

@[simp] lemma symbols_single (name : String) (kind : SectionKind) :
    (single name kind).symbols = [⟨name, kind, 0, true⟩] := rfl

end SymbolTable

namespace Contents

def part (c : Contents) (kind : SectionKind) : Bytes := (c.get? kind).getD []

lemma part_set {c : Contents} {kind : SectionKind} {old : Bytes} (h : c.get? kind = some old)
    (new : Bytes) : (c.set kind new).part kind = new := by
  cases kind <;> first | rfl | simp [get?] at h

lemma part_set_of_ne (c : Contents) {kind other : SectionKind} (h : other ≠ kind)
    (new : Bytes) : (c.set kind new).part other = c.part other := by
  cases kind <;> cases other <;> first | rfl | exact absurd rfl h

end Contents

namespace Relocation

/-- The byte at offset `x` of a section is one of those that the relocation replaces. -/
def Covers (r : Relocation) (kind : SectionKind) (x : Nat) : Prop :=
  r.site = kind ∧ r.offset ≤ x ∧ x < r.offset + r.kind.width

def Apart (kind : SectionKind) (r q : Relocation) : Prop := ∀ x, r.Covers kind x → ¬ q.Covers kind x

lemma Apart.symm {kind : SectionKind} {r q : Relocation} (h : Apart kind r q) :
    Apart kind q r := fun x hq hr => h x hr hq

end Relocation

namespace Blueprint

variable {b : Blueprint} {symbols : SymbolTable} {c c' : Contents} {r : Relocation}
  {rs : List Relocation} {kind : SectionKind} {patch : Bytes} {x : Nat}

def IsPatch (b : Blueprint) (symbols : SymbolTable) (r : Relocation) (patch : Bytes) : Prop :=
  ∃ s goal start, symbols.get? r.symbol = some s ∧ b.symbolAddress s = .ok goal ∧
    b.sectionAddress? r.site = some start ∧ patchFor r s.name goal (start + r.offset) = .ok patch

section

variable {name : String} {goal place : Nat}

lemma patchFor_absolute (same : r.kind = .absolute) (h : patchFor r name goal place = .ok patch) :
    patch = littleEndianInt 8 (goal + r.addend) := by
  rw [patchFor, same] at h
  exact (pure_ok.1 h).symm

lemma patchFor_relative (same : r.kind = .relative) (h : patchFor r name goal place = .ok patch) :
    fitsInt32 (toSignedWord (goal + r.addend - place)) = true ∧
      patch = littleEndianInt 4 (toSignedWord (goal + r.addend - place)) := by
  rw [patchFor, same] at h
  dsimp only at h
  split at h
  next fits => exact ⟨fits, (pure_ok.1 h).symm⟩
  next => simp at h

lemma patchFor_eq_error {d : Diagnostic} : patchFor r name goal place = .error d ↔
    r.kind = .relative ∧ fitsInt32 (toSignedWord (goal + r.addend - place)) = false ∧
      d = .range s!"{r.site.name}+{hexText r.offset} -> `{name}`"
      (toSignedWord (goal + r.addend - place)) 32 := by
  unfold patchFor
  cases r.kind with
  | absolute => simp
  | relative =>
    dsimp only
    split
    next fits => simp [fits]
    next far => simp [far, throw_eq_error, eq_comm (a := d)]

lemma IsPatch.length (h : b.IsPatch symbols r patch) : patch.length = r.kind.width := by
  obtain ⟨s, goal, start, -, -, -, patched⟩ := h
  cases hr : r.kind with
  | absolute => simp [patchFor_absolute hr patched, RelocationKind.width]
  | relative => simp [(patchFor_relative hr patched).2, RelocationKind.width]

end

section

section

variable (h : b.relocate symbols c r = .ok c')
include h

lemma relocate_step : ∃ patch, b.IsPatch symbols r patch ∧ r.offset + patch.length ≤
      (c.part r.site).length ∧ c'.part r.site = overwrite (c.part r.site) r.offset patch ∧
      ∀ kind, kind ≠ r.site → c'.part kind = c.part kind := by
  unfold relocate at h
  obtain ⟨s, hs, h⟩ := bind_ok.1 h
  obtain ⟨goal, leads, h⟩ := bind_ok.1 h
  dsimp only at h
  split at h
  next => simp at h
  next start begins =>
    split at h
    next => simp at h
    next bytes read =>
      split at h
      next inside =>
        obtain ⟨patch, patched, h⟩ := bind_ok.1 h
        obtain rfl := pure_ok.1 h
        have his : b.IsPatch symbols r patch :=
          ⟨s, goal, start, SymbolTable.read_ok.1 hs, leads, begins, patched⟩
        have part : c.part r.site = bytes := by rw [Contents.part, read, Option.getD_some]
        refine ⟨patch, his, ?_, ?_, ?_⟩
        · rwa [part, his.length]
        · rw [part, Contents.part_set read]
        · exact fun kind typed => c.part_set_of_ne typed _
      next => simp at h

lemma length_part_relocate (kind : SectionKind) : (c'.part kind).length = (c.part kind).length := by
  obtain ⟨patch, -, inside, site, other⟩ := relocate_step h
  by_cases typed : kind = r.site
  · rw [typed, site, length_overwrite inside]
  · rw [other kind typed]

lemma relocate_outside (covers : ¬ r.Covers kind x) : (c'.part kind)[x]? = (c.part kind)[x]? := by
  obtain ⟨patch, his, inside, site, other⟩ := relocate_step h
  by_cases typed : kind = r.site
  · subst typed
    have length := his.length
    have outside : x < r.offset ∨ r.offset + patch.length ≤ x := by
      simp only [Relocation.Covers, true_and] at covers
      omega
    rw [site, getElem?_overwrite_outside inside outside]
  · rw [other kind typed]

lemma relocate_site : b.IsPatch symbols r
    (slice (c'.part r.site) r.offset (r.offset + r.kind.width)) := by
  obtain ⟨patch, his, inside, site, -⟩ := relocate_step h
  rwa [site, ← his.length, slice_overwrite inside]

end

end

section

section

variable (h : rs.foldlM (b.relocate symbols) c = .ok c')
include h

lemma length_part_relocated (kind : SectionKind) : (c'.part kind).length =
    (c.part kind).length := by
  induction rs generalizing c with
  | nil =>
    obtain rfl := pure_ok.1 h
    rfl
  | cons r rest ih =>
    rw [List.foldlM_cons] at h
    obtain ⟨mid, hmid, h⟩ := bind_ok.1 h
    rw [ih h, length_part_relocate hmid]

lemma relocated_outside (hx : ∀ r ∈ rs, ¬ r.Covers kind x) : (c'.part kind)[x]? =
    (c.part kind)[x]? := by
  induction rs generalizing c with
  | nil =>
    obtain rfl := pure_ok.1 h
    rfl
  | cons r rest ih =>
    rw [List.foldlM_cons] at h
    obtain ⟨mid, hmid, h⟩ := bind_ok.1 h
    rw [ih h fun q hq => hx q (List.mem_cons_of_mem r hq),
      relocate_outside hmid (hx r List.mem_cons_self)]

lemma relocated_site (mem : r ∈ rs) (apart : rs.Pairwise (Relocation.Apart r.site)) :
    b.IsPatch symbols r (slice (c'.part r.site) r.offset (r.offset + r.kind.width)) := by
  induction rs generalizing c with
  | nil => simp at mem
  | cons q rest ih =>
    rw [List.foldlM_cons] at h
    obtain ⟨mid, hmid, tail⟩ := bind_ok.1 h
    obtain ⟨first, more⟩ := List.pairwise_cons.1 apart
    obtain rfl | mem := List.mem_cons.1 mem
    · -- later relocations do not reach the site
      have kept : slice (c'.part r.site) r.offset (r.offset + r.kind.width) =
          slice (mid.part r.site) r.offset (r.offset + r.kind.width) := by
        apply slice_congr
        intro x le lt
        exact relocated_outside tail fun q hq => first q hq x ⟨rfl, le, lt⟩
      rw [kept]
      exact relocate_site hmid
    · exact ih tail mem more

end

end

end Blueprint

end AgentCompiler
