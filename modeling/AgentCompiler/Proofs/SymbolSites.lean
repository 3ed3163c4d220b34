import AgentCompiler.Proofs.CodeLayout

/-!
The places at which the assembler asks for relocations. There is one at each field that names a
symbol, and these fields do not overlap, since every byte of the output belongs to one instruction.
-/

namespace AgentCompiler

open List

/-- The byte at offset `x` of an instruction belongs to a field that names a symbol. -/
def Encoding.NamesSymbolAt (e : Encoding) (x : Nat) : Prop :=
  ((∃ s d, e.disp = .symbol s d) ∧ e.dispOffset ≤ x ∧ x < e.immOffset) ∨
    ((∃ s v, e.imm = .address s v) ∧ e.immOffset ≤ x ∧ x < e.size)

lemma Encoding.NamesSymbolAt.lt_size {e : Encoding} {x : Nat} (h : e.NamesSymbolAt x) :
    x < e.size := by
  obtain ⟨-, -, hx⟩ | ⟨-, -, hx⟩ := h
  · exact hx.trans_le le_self_add
  · exact hx

namespace Assembly

variable {names : Names} {code : List Instruction} {a : Assembly} {r : Relocation} {p : Placed}
  {placed : List Placed}

section

lemma mem_relocationsOf : r ∈ relocationsOf p ↔ (∃ s d, p.encoding.disp = .symbol s d ∧
        r = ⟨.text, p.offset + p.encoding.dispOffset, s, .relative,
          d.toInt - (p.encoding.size - p.encoding.dispOffset)⟩) ∨
      (∃ s v, p.encoding.imm = .address s v ∧ r = ⟨.text, p.offset + p.encoding.immOffset, s,
          .absolute, v.toInt⟩) := by
  unfold relocationsOf
  cases p.encoding.disp <;> cases p.encoding.imm <;> simp

lemma site_relocationsOf (mem : r ∈ relocationsOf p) : r.site = .text := by
  obtain ⟨s, d, -, rfl⟩ | ⟨s, v, -, rfl⟩ := mem_relocationsOf.1 mem <;> rfl

lemma namesSymbolAt_of_covers (mem : r ∈ relocationsOf p) {kind : SectionKind} {x : Nat}
    (covers : r.Covers kind x) : ∃ y, x = p.offset + y ∧ p.encoding.NamesSymbolAt y := by
  obtain ⟨-, le, lt⟩ := covers
  obtain ⟨s, d, disp, rfl⟩ | ⟨s, v, imm, rfl⟩ := mem_relocationsOf.1 mem
  · have field : p.encoding.immOffset = p.encoding.dispOffset + 4 := by
      rw [Encoding.immOffset, disp, Displacement.size]
    simp only [RelocationKind.width] at le lt
    exact ⟨x - p.offset, by omega, .inl ⟨⟨s, d, disp⟩, by omega, by omega⟩⟩
  · have field : p.encoding.size = p.encoding.immOffset + 8 := by
      rw [Encoding.size, imm, Immediate.size]
    simp only [RelocationKind.width] at le lt
    exact ⟨x - p.offset, by omega, .inr ⟨⟨s, v, imm⟩, by omega, by omega⟩⟩

lemma encoding_size_le (h : p.IsSound) : p.offset + p.encoding.size ≤ p.next := by
  obtain ⟨i, e, offset⟩ := p
  by_cases hi : ∃ n, i = .align n
  · obtain ⟨n, rfl⟩ := hi
    obtain rfl := Except.ok.inj h.encoded
    exact le_self_add
  · have next : Placed.next ⟨i, e, offset⟩ = offset + e.size :=
      next_of_ne_align (not_exists.1 hi)
    exact next.symm.le

lemma apart_relocationsOf (p : Placed) : (relocationsOf p).Pairwise (Relocation.Apart .text) := by
  unfold relocationsOf
  cases disp : p.encoding.disp <;> cases p.encoding.imm <;> simp
  rename_i s d t v
  rintro x ⟨-, -, hx⟩ ⟨-, hx', -⟩
  simp only [Encoding.immOffset, disp, Displacement.size, RelocationKind.width] at hx hx'
  omega

lemma apart_relocations {offset : Nat} (consecutive : Consecutive offset placed)
    (sound : ∀ p ∈ placed, p.IsSound) : (∀ r ∈ placed.flatMap relocationsOf, ∀ x, r.Covers .text x →
      offset ≤ x) ∧ (placed.flatMap relocationsOf).Pairwise (Relocation.Apart .text) := by
  induction placed generalizing offset with
  | nil => simp
  | cons p rest ih =>
    obtain ⟨rfl, more⟩ := consecutive
    obtain ⟨later, apart⟩ := ih more fun q hq => sound q (mem_cons_of_mem p hq)
    have ends := encoding_size_le (sound p mem_cons_self)
    have field : ∀ r ∈ relocationsOf p, ∀ x, r.Covers .text x → p.offset ≤ x ∧ x < p.next := by
      intro r hr x hx
      obtain ⟨y, rfl, hy⟩ := namesSymbolAt_of_covers hr hx
      have := hy.lt_size
      omega
    rw [flatMap_cons]
    constructor
    · intro r hr x hx
      obtain hr | hr := mem_append.1 hr
      · exact (field r hr x hx).1
      · exact le_self_add.trans (later r hr x hx)
    · refine pairwise_append.2 ⟨apart_relocationsOf p, apart, ?_⟩
      intro r hr q hq x hx hx'
      exact absurd (later q hq x hx') (not_le.2 (field r hr x hx).2)

lemma mem_relocations (h : assemble names code = .ok a) :
    r ∈ a.relocations ↔ ∃ k i e, code[k]? = some i ∧ i.encode = .ok e ∧
      r ∈ relocationsOf ⟨i, e, outputSize names code k⟩ := by
  obtain ⟨placed, layout⟩ := exists_isLayout h
  rw [layout.relocations, mem_flatMap]
  constructor
  · rintro ⟨p, hp, hr⟩
    obtain ⟨k, hk⟩ := getElem?_of_mem hp
    obtain ⟨hi, sound⟩ := layout.entry hk
    refine ⟨k, p.instruction, p.encoding, hi, sound.encoded, ?_⟩
    rwa [← layout.offset hk]
  · rintro ⟨k, i, e, hk, he, hr⟩
    obtain ⟨e', he', hp⟩ := layout.exists_entry hk
    obtain rfl := Except.ok.inj (he'.symm.trans he)
    exact ⟨_, mem_of_getElem? hp, hr⟩

lemma position_unique (h : assemble names code = .ok a) {j k y z : Nat} {i i' : Instruction}
    {e e' : Encoding} (found : code[j]? = some i) (below : i.encode = .ok e) (bound : y < e.size)
    (known : code[k]? = some i') (below' : i'.encode = .ok e') (hz : z < e'.size)
    (same : outputSize names code j + y = outputSize names code k + z) : j = k := by
  have ends : ∀ {k i e}, code[k]? = some i → i.encode = .ok e →
      outputSize names code k + e.size ≤ outputSize names code (k + 1) := by
    intro k i e known below
    obtain ⟨placed, layout⟩ := exists_isLayout h
    obtain ⟨e', below', hp⟩ := layout.exists_entry known
    obtain rfl := Except.ok.inj (below'.symm.trans below)
    rw [← layout.next hp]
    exact encoding_size_le (layout.entry hp).2
  have endj := ends found below
  have endk := ends known below'
  rcases lt_trichotomy j k with lt | eq | lt
  · have mono : outputSize names code (j + 1) ≤ outputSize names code k :=
      outputSize_mono names code lt
    omega
  · exact eq
  · have mono : outputSize names code (k + 1) ≤ outputSize names code j :=
      outputSize_mono names code lt
    omega

end

end Assembly

end AgentCompiler
