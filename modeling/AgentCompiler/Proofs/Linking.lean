import AgentCompiler.Proofs.ShortBranches
import AgentCompiler.Proofs.SymbolSites

/-!
From generated code to an image. Code whose labels and symbols are complete is always laid out, and
every patch has its place; the one thing that can still go wrong is a distance that does not fit
four bytes.
-/

namespace AgentCompiler

open Instruction List

namespace Assembly

variable {names : Names} {bound : LabelOffsets} {code : Code}
  {placed : List Placed} {i : Instruction}

lemma distanceWidth_cases {l : Label} (h : i.target? = some l) :
    (i.shortTarget? = some l ∧ i.distanceWidth = 1) ∨ i.distanceWidth = 4 := by
  cases i with
  | jmpShort | jccShort => exact .inl ⟨h, rfl⟩
  | call | jmp | jcc => exact .inr rfl
  | _ => simp [target?] at h

lemma relocation_facts {a : Assembly} {r : Relocation} (h : assemble names code = .ok a)
    (mem : r ∈ a.relocations) : r.site = .text ∧ r.offset + r.kind.width ≤ a.bytes.length ∧
      ∃ i ∈ code, r.symbol ∈ i.symbols := by
  obtain ⟨placed, layout⟩ := exists_isLayout h
  rw [layout.relocations, mem_flatMap] at mem
  obtain ⟨p, hp, mem⟩ := mem
  obtain ⟨k, hk⟩ := getElem?_of_mem hp
  obtain ⟨hi, sound⟩ := layout.entry hk
  have named := namesAs_encode sound.encoded
  have ends : p.offset + p.encoding.size ≤ a.bytes.length := by
    have next := outputSize_succ_le h hi
    rw [← layout.next hk] at next
    exact (encoding_size_le sound).trans next
  refine ⟨site_relocationsOf mem, ?_, p.instruction, mem_of_getElem? hi, ?_⟩
  all_goals obtain ⟨s, d, field, rfl⟩ | ⟨s, v, field, rfl⟩ := mem_relocationsOf.1 mem
  · simp only [RelocationKind.width]
    simp only [Encoding.size, Encoding.immOffset, field, Displacement.size] at ends
    omega
  · simp only [RelocationKind.width]
    simp only [Encoding.size, field, Immediate.size] at ends
    omega
  · exact mem_append_left _ (mem_filterMap.2 ⟨_, (named.symbol s d).1 field, rfl⟩)
  · obtain ⟨dst, hi⟩ := (named.address s v).1 field
    exact mem_append_right _ (by simp [hi, loadedSymbols])

lemma long_distance {p : Placed} {d : Diagnostic} (sound : p.IsSound)
    (below : ∀ l, p.instruction.target? = some l → ∃ goal : Nat, bound.lookup l = some goal)
    (short : ∀ l, p.instruction.shortTarget? = some l →
      ∃ goal : Nat, bound.lookup l = some goal ∧ fitsInt8 (goal - p.next) = true)
    (h : distance names bound p = .error d) :
    ∃ (l : Label) (goal : Nat), p.encoding.imm.target? = some (l, 32) ∧ bound.lookup l = some goal ∧
      fitsInt32 (goal - p.next) = false ∧
      ∃ text, p.instruction.render names = .ok text ∧ d = .range text (goal - p.next) 32 := by
  obtain ⟨l, hl, ⟨absent, -⟩ | ⟨goal, leads, far, text, shown, rfl⟩⟩ :=
    (distance_eq_error sound).1 h
  · obtain ⟨goal, leads⟩ := below l hl
    simp [leads] at absent
  have fits := mt (fits_iff hl _).1 far
  obtain ⟨hi, width⟩ | width := distanceWidth_cases hl
  · obtain ⟨goal', leads', fits'⟩ := short l hi
    obtain rfl := Option.some.inj (leads.symm.trans leads')
    simp [width, fits'] at fits
  · have named := (namesAs_encode sound.encoded).target
    rw [width] at named fits ⊢
    exact ⟨l, goal, by rw [named, hl]; rfl, leads, Bool.eq_false_iff.2 fits, text, shown, rfl⟩

end Assembly

namespace Blueprint

variable {b : Blueprint} {symbols : SymbolTable} {c : Contents} {r : Relocation} {d : Diagnostic}
  {s : DataSection} {kind : SectionKind}

lemma withSection_rodata (h : s.kind = .rodata) : b.withSection s =
    { b with rodata := s, rodata_kind := h } := by
  unfold withSection
  split <;> rename_i typed <;> simp [h] at typed
  rfl

lemma withSection_data (h : s.kind = .data) : b.withSection s =
    { b with data := s, data_kind := h } := by
  unfold withSection
  split <;> rename_i typed <;> simp [h] at typed
  rfl

lemma withSection_bss (h : s.kind = .bss) : b.withSection s =
    { b with bss := s, bss_kind := h } := by
  unfold withSection
  split <;> rename_i typed <;> simp [h] at typed
  rfl

structure CanApply (b : Blueprint) (symbols : SymbolTable) (r : Relocation) : Prop where
  goal : ∃ s address, symbols.get? r.symbol = some s ∧ b.symbolAddress s = .ok address
  site : ∃ start, b.sectionAddress? r.site = some start
  bytes : r.site ≠ .bss
  inside : r.offset + r.kind.width ≤ (b.contents.part r.site).length

inductive DistanceOverflow (b : Blueprint) (symbols : SymbolTable) (r : Relocation) :
    Diagnostic → Prop
  | intro {s : Symbol} {goal start : Nat} : r.kind = .relative →
      symbols.get? r.symbol = some s → b.symbolAddress s = .ok goal →
      b.sectionAddress? r.site = some start →
      fitsInt32 (toSignedWord (goal + r.addend - (start + r.offset : Nat))) = false →
      DistanceOverflow b symbols r (.range s!"{r.site.name}+{hexText r.offset} -> `{s.name}`"
          (toSignedWord (goal + r.addend - (start + r.offset : Nat))) 32)

lemma relocate_eq_error (apply : b.CanApply symbols r)
    (length : (c.part r.site).length = (b.contents.part r.site).length)
    (h : b.relocate symbols c r = .error d) : DistanceOverflow b symbols r d := by
  obtain ⟨s, goal, hs, leads⟩ := apply.goal
  obtain ⟨start, begins⟩ := apply.site
  obtain ⟨bytes, read⟩ : ∃ bytes, c.get? r.site = some bytes := by
    have ne := apply.bytes
    cases typed : r.site <;> simp [Contents.get?, typed] at ne ⊢
  have inside : r.offset + r.kind.width ≤ bytes.length := by
    have part : c.part r.site = bytes := by rw [Contents.part, read, Option.getD_some]
    rw [← part, length]
    exact apply.inside
  have patched : patchFor r s.name goal (start + r.offset) = .error d := by
    rw [relocate, SymbolTable.read_ok.2 hs] at h
    change (b.symbolAddress s >>= _) = _ at h
    obtain h | ⟨address, addressed, h⟩ := bind_eq_error.1 h
    · simp [leads] at h
    obtain rfl := Except.ok.inj (addressed.symm.trans leads)
    simp only [begins, read, if_pos inside] at h
    obtain h | ⟨patch, -, h⟩ := bind_eq_error.1 h
    · exact h
    · exact absurd h (by simp)
  obtain ⟨typed, fits, rfl⟩ := patchFor_eq_error.1 patched
  exact .intro typed hs leads begins fits

lemma relocations_eq_error {rs : List Relocation} (apply : ∀ r ∈ rs, b.CanApply symbols r)
    (length : ∀ kind, (c.part kind).length = (b.contents.part kind).length)
    (h : rs.foldlM (b.relocate symbols) c = .error d) : ∃ r ∈ rs, DistanceOverflow b symbols
    r d := by
  induction rs generalizing c with
  | nil => exact absurd h (by simp)
  | cons r rest ih =>
    rw [forall_mem_cons] at apply
    rw [foldlM_cons] at h
    obtain h | ⟨c', hc', h⟩ := bind_eq_error.1 h
    · exact ⟨r, mem_cons_self, relocate_eq_error apply.1 (length _) h⟩
    · obtain ⟨q, hq, overflow⟩ := ih apply.2 (fun kind => (length_part_relocate hc' kind).trans
        (length kind)) h
      exact ⟨q, mem_cons_of_mem r hq, overflow⟩

lemma build_eq_error (apply : ∀ r ∈ b.relocations, b.CanApply symbols r)
    (h : b.build symbols = .error d) : ∃ r ∈ b.relocations, DistanceOverflow b symbols r d := by
  obtain h | ⟨c, -, h⟩ := bind_eq_error.1 h
  · exact relocations_eq_error apply (fun _ => rfl) h
  · exact absurd h (by simp)

lemma exists_section (typed : kind = .text ∨
    (kind = .rodata ∧ b.rodata.isEmpty = false) ∨ (kind = .data ∧ b.data.isEmpty = false) ∨
    (kind = .bss ∧ b.bss.isEmpty = false)) : ∃ s ∈ b.sections, s.kind = kind := by
  obtain rfl | ⟨rfl, full⟩ | ⟨rfl, full⟩ | ⟨rfl, full⟩ := typed
  · exact ⟨b.placedText, by simp [sections], rfl⟩
  · exact ⟨b.placedRodata, by simp [sections, hasRodata, full], rfl⟩
  · exact ⟨b.placedData, by simp [sections, hasData, full], rfl⟩
  · exact ⟨b.placedBss, by simp [sections, full], rfl⟩

lemma sectionAddress?_isSome (h : ∃ s ∈ b.sections, s.kind = kind) :
    ∃ address, b.sectionAddress? kind = some address := by
  have find : (b.sections.find? (·.kind = kind)).isSome = true := by
    simpa only [find?_isSome, decide_eq_true_eq] using h
  obtain ⟨s, hs⟩ := Option.isSome_iff_exists.1 find
  exact ⟨s.address, by rw [sectionAddress?, hs, Option.map_some]⟩

end Blueprint

end AgentCompiler
