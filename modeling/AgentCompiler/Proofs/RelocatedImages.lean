import AgentCompiler.Compile
import AgentCompiler.Proofs.MemoryLayout
import AgentCompiler.Proofs.RefusedCode

/-!
What the linker makes of relocations. A relocation is refused for what it is, whatever was patched
before, so a build fails with the first one that is refused. Where the sites are apart, each of them
holds what its relocation calls for and no other byte changes, so the order of the relocations is
not seen in the image.
-/

namespace AgentCompiler

open List Option Relocation

/-- What a relocation stores, from the address of its symbol and that of its site. -/
def Relocation.value (r : Relocation) (goal place : Nat) : Int :=
  match r.kind with
  | .absolute => goal + r.addend
  | .relative => goal + r.addend - place

namespace Blueprint

variable {b : Blueprint} {symbols : SymbolTable} {c c' : Contents} {r : Relocation}
  {rs : List Relocation} {d : Diagnostic} {s : Symbol} {goal place : Nat}

def goal? (b : Blueprint) (s : Symbol) : Option Nat :=
  if s.isBound then (b.sectionAddress? s.kind).map (· + s.offset) else none

/-- Where the site of a relocation stands in memory, if its section is part of the image. -/
def place? (b : Blueprint) (r : Relocation) : Option Nat := (b.sectionAddress? r.site).map
    (· + r.offset)

/-- The addresses that a relocation deals with are below a bound: that of its symbol, the one that
it refers to, and that of its site. -/
structure StaysBelow (b : Blueprint) (symbols : SymbolTable) (limit : Nat) (r : Relocation) :
    Prop where
  goal : ∀ s goal, symbols.get? r.symbol = some s → b.goal? s = some goal →
    goal < limit ∧ 0 ≤ goal + r.addend ∧ goal + r.addend < limit
  place : ∀ place, b.place? r = some place → place < limit

/-- What is wrong with a relocation: its symbol, its site or the distance between them, in this
order. -/
@[mk_iff]
inductive Refuses (b : Blueprint) (symbols : SymbolTable) (r : Relocation) : Diagnostic → Prop
  | symbol {s : Symbol} (known : symbols.get? r.symbol = some s) (lost : b.goal? s = none) :
      Refuses b symbols r (.unresolved s.name)
  | absent {s : Symbol} {goal : Nat} (known : symbols.get? r.symbol = some s)
      (found : b.goal? s = some goal) (lost : b.place? r = none) : Refuses b symbols r
        (.unencodable s!"relocation against `{s.name}`"
        s!"site section {r.site.name} is not part of the image")
  | zeroed {s : Symbol} {goal place : Nat} (known : symbols.get? r.symbol = some s)
      (found : b.goal? s = some goal) (here : b.place? r = some place) (is : r.site = .bss) :
        Refuses b symbols r (.unencodable s!"relocation against `{s.name}`"
        "zero-initialized sections cannot hold relocations")
  | outside {s : Symbol} {goal place : Nat} (known : symbols.get? r.symbol = some s)
      (found : b.goal? s = some goal) (here : b.place? r = some place) (other : r.site ≠ .bss)
      (beyond : (b.contents.part r.site).length < r.offset + r.kind.width) : Refuses b symbols r
        (.unencodable s!"relocation against `{s.name}`"
          s!"site {r.site.name}+{hexText r.offset} lies outside the section")
  | far {s : Symbol} {goal place : Nat} (known : symbols.get? r.symbol = some s)
      (found : b.goal? s = some goal) (here : b.place? r = some place) (other : r.site ≠ .bss)
      (inside : r.offset + r.kind.width ≤ (b.contents.part r.site).length)
      (relative : r.kind = .relative) (long : (goal + r.addend - place : Int) ∉ Set.Icc
        (-0x80000000) 0x7FFFFFFF) : Refuses b symbols r
        (.range s!"{r.site.name}+{hexText r.offset} -> `{s.name}`" (goal + r.addend - place) 32)

section

variable (below : b.StaysBelow symbols 0x8000000000000000 r)
  (length : (c.part r.site).length = (b.contents.part r.site).length)

include below in
lemma symbolAddress_eq (known : symbols.get? r.symbol = some s) :
    b.symbolAddress s = (b.goal? s).elim (.error (.unresolved s.name)) .ok := by
  have small := below.goal s
  unfold symbolAddress
  unfold goal? at small ⊢
  cases found : b.sectionAddress? s.kind with
  | none => simp [throw_eq_error]
  | some address =>
    by_cases bound : s.isBound = true
    · have word := toWord_eq_self ((small (address + s.offset) known
        (by simp [bound, found])).1.trans (by decide))
      simp [bound, word, pure, Except.pure]
    · simp [bound, throw_eq_error]

include below in
lemma StaysBelow.signed (known : symbols.get? r.symbol = some s) (found : b.goal? s = some goal)
    (here : b.place? r = some place) : toSignedWord (goal + r.addend - place) =
    goal + r.addend - place := by
  have reached := (below.goal s goal known found).2
  have near := below.place place here
  exact toSignedWord_eq_self (by omega) (by omega)

include below length in
lemma relocate_eq_error_iff (known : symbols.get? r.symbol = some s) :
    b.relocate symbols c r = .error d ↔ b.Refuses symbols r d := by
  rw [relocate, SymbolTable.read_ok.2 known]
  change (b.symbolAddress s >>= _) = _ ↔ _
  simp only [known, symbolAddress_eq below known, refuses_iff, Option.some.injEq, exists_and_left,
    exists_eq_left']
  cases found : b.goal? s with
  | none => simp [bind, Except.bind, eq_comm (a := d)]
  | some goal =>
    simp only [elim_some, bind, Except.bind, place?]
    cases found' : b.sectionAddress? r.site with
    | none => simp [throw_eq_error, eq_comm (a := d)]
    | some start =>
      have signed := below.signed known found
        (show b.place? r = some (start + r.offset) by simp [place?, found'])
      dsimp only
      cases has : c.get? r.site with
      | none =>
        have is : r.site = .bss := by cases kind : r.site <;> simp [Contents.get?, kind] at has ⊢
        simp [is, throw_eq_error, eq_comm (a := d)]
      | some bytes =>
        have other : r.site ≠ .bss := fun is => by simp [Contents.get?, is] at has
        rw [Contents.part, has, getD_some] at length
        dsimp only
        rw [length]
        by_cases inside : r.offset + r.kind.width ≤ (b.contents.part r.site).length
        · have patch := @patchFor_eq_error r s.name goal (start + r.offset) d
          rw [signed] at patch
          cases result : patchFor r s.name goal (start + r.offset) <;>
            simp [result, inside, inside.not_gt, other, fitsInt32] at patch ⊢ <;> exact patch
        · simp [inside, other, not_le.1 inside, throw_eq_error, eq_comm (a := d)]

end

section

variable (known : ∀ r ∈ rs, ∃ s, symbols.get? r.symbol = some s)
  (below : ∀ r ∈ rs, b.StaysBelow symbols 0x8000000000000000 r)
include known below

lemma relocations_report (lengths : ∀ kind, (c.part kind).length = (b.contents.part kind).length) :
    Reports (fun k d => ∃ r, rs[k]? = some r ∧ b.Refuses symbols r d)
        (rs.foldlM (b.relocate symbols) c) := by
  induction rs generalizing c with
  | nil => simp [Reports, pure, Except.pure]
  | cons r rest ih =>
    obtain ⟨⟨s, here⟩, known⟩ := forall_mem_cons.1 known
    obtain ⟨low, below⟩ := forall_mem_cons.1 below
    have step (d : Diagnostic) := relocate_eq_error_iff (d := d) low (lengths r.site) here
    rw [foldlM_cons]
    refine .bind (fun d fails => ⟨r, rfl, (step d).1 fails⟩) fun c' runs => ⟨?_, ?_⟩
    · rintro d ⟨q, first, refuses⟩
      obtain rfl := some.inj first
      simp [(step d).2 refuses] at runs
    · exact ih known below fun kind => (length_part_relocate runs kind).trans (lengths kind)

omit known in
lemma IsPatch.eq {patch : Bytes} (h : b.IsPatch symbols r patch) (mem : r ∈ rs) : ∃ s goal place,
    symbols.get? r.symbol = some s ∧ b.goal? s = some goal ∧ b.place? r = some place ∧
      patch = littleEndianInt r.kind.width (r.value goal place) := by
  obtain ⟨s, goal, start, here, found, address, patches⟩ := h
  rw [symbolAddress_eq (below r mem) here] at found
  cases stands : b.goal? s with
  | none => simp [stands] at found
  | some goal' =>
    obtain rfl : goal' = goal := by simpa [stands] using found
    have site : b.place? r = some (start + r.offset) := by simp [place?, address]
    refine ⟨s, goal', _, here, stands, site, ?_⟩
    cases kind : r.kind with
    | absolute =>
      simp only [value, kind]
      exact patchFor_absolute kind patches
    | relative =>
      simp only [value, kind]
      rw [← (below r mem).signed here stands site]
      exact (patchFor_relative kind patches).2

end

section

lemma Contents.ext_part (same : ∀ kind, c.part kind = c'.part kind) : c = c' := by
  obtain ⟨text, rodata, data⟩ := c
  obtain ⟨text', rodata', data'⟩ := c'
  exact congr (congr (congrArg Contents.mk (same .text)) (same .rodata)) (same .data)

lemma IsPatch.unique {patch other : Bytes} (h : b.IsPatch symbols r patch)
    (h' : b.IsPatch symbols r other) :
    patch = other := by
  obtain ⟨s, goal, start, here, found, address, patches⟩ := h
  obtain ⟨s', goal', start', here', found', address', patches'⟩ := h'
  obtain rfl := some.inj (here.symm.trans here')
  obtain rfl := Except.ok.inj (found.symm.trans found')
  obtain rfl := some.inj (address.symm.trans address')
  exact Except.ok.inj (patches.symm.trans patches')

lemma relocated_unique {rs' : List Relocation} {c1 c2 : Contents} (perm : rs'.Perm rs)
    (apart : ∀ kind, rs.Pairwise (Apart kind)) (h : rs.foldlM (b.relocate symbols) c = .ok c1)
    (h' : rs'.foldlM (b.relocate symbols) c = .ok c2) : c2 = c1 := by
  refine Contents.ext_part fun kind => ext_getElem? fun x => ?_
  by_cases covered : ∃ r ∈ rs, r.Covers kind x
  · obtain ⟨r, mem, rfl, low, high⟩ := covered
    have patch := relocated_site h mem (apart r.site)
    have patch' := relocated_site h' (perm.mem_iff.2 mem)
      ((perm.pairwise_iff fun apart => apart.symm).2 (apart r.site))
    have same := congrArg (·[x - r.offset]?) (patch'.unique patch)
    simpa [getElem?_slice, Nat.sub_lt_left_of_lt_add low high, Nat.add_sub_of_le low] using same
  · have free := fun r mem covers => covered ⟨r, mem, covers⟩
    rw [relocated_outside h free, relocated_outside h' fun r mem => free r (perm.mem_iff.1 mem)]

end

end Blueprint

open Blueprint in
/-- A build fails with the first relocation that is refused, and only if there is one. Where the
sites of the relocations are apart, an image holds at each of them the value that it calls for, all
its other bytes are those that were given, and it is the same for every order of the relocations. -/
theorem build_relocates (b : Blueprint) (symbols : SymbolTable)
    (known : ∀ r ∈ b.relocations, ∃ s, symbols.get? r.symbol = some s)
    (below : ∀ r ∈ b.relocations, b.StaysBelow symbols 0x8000000000000000 r) :
    ((∃ d, b.build symbols = .error d) ↔ ∃ r ∈ b.relocations, ∃ d, b.Refuses symbols r d) ∧
    (∀ d, b.build symbols = .error d ↔
      IsFirst (fun k d => ∃ r, b.relocations[k]? = some r ∧ b.Refuses symbols r d) d) ∧
    ∀ image, b.build symbols = .ok image → (∀ kind,
      b.relocations.Pairwise (Relocation.Apart kind)) → (∀ r ∈ b.relocations, ∃ part s goal place,
        image.section? r.site = some part ∧ symbols.get? r.symbol = some s ∧ b.goal? s = some goal ∧
        b.place? r = some place ∧ slice (image.sectionBytes part) r.offset
          (r.offset + r.kind.width) = littleEndianInt r.kind.width (r.value goal place)) ∧
      (∀ part ∈ image.sections, ∀ x, (∀ r ∈ b.relocations, ¬ r.Covers part.kind x) →
        (image.sectionBytes part)[x]? = (b.contents.part part.kind)[x]?) ∧
      ∀ rs, rs.Perm b.relocations → ({ b with relocations := rs } : Blueprint).build symbols =
          .ok image := by
  have reports := relocations_report known below fun _ => rfl
  have fails (d : Diagnostic) : b.build symbols = .error d ↔
      IsFirst (fun k d => ∃ r, b.relocations[k]? = some r ∧ b.Refuses symbols r d) d := by
    rw [← reports.eq_error_iff (by
      rintro k _ _ ⟨r, here, refuses⟩ ⟨_, here', refuses'⟩
      obtain rfl := Option.some.inj (here.symm.trans here')
      have mem := List.mem_of_getElem? here
      obtain ⟨s, symbol⟩ := known r mem
      rw [← relocate_eq_error_iff (below r mem) rfl symbol] at refuses refuses'
      exact Except.error.inj (refuses.symm.trans refuses'))]
    simp only [build, bind_eq_error, pure_eq_error, and_false, exists_false, or_false]
  refine ⟨⟨?_, ?_⟩, fails, fun image built apart => ⟨?_, ?_, ?_⟩⟩
  · rintro ⟨d, fault⟩
    obtain ⟨k, ⟨r, here, refuses⟩, -⟩ := (fails d).1 fault
    exact ⟨r, List.mem_of_getElem? here, d, refuses⟩
  · rintro ⟨r, mem, d, refuses⟩
    obtain ⟨k, here⟩ := List.getElem?_of_mem mem
    have faults : ∃ k d, ∃ r, b.relocations[k]? = some r ∧ b.Refuses symbols r d :=
      ⟨k, d, r, here, refuses⟩
    obtain ⟨e, least⟩ := exists_isFirst faults
    exact ⟨e, (fails e).2 least⟩
  all_goals obtain ⟨c, run, rfl⟩ := build_ok built
  · intro r mem
    have patch := relocated_site run mem (apart r.site)
    obtain ⟨s, goal, place, symbol, stands, site, bytes⟩ := patch.eq below mem
    obtain ⟨start, address, -⟩ := Option.map_eq_some_iff.1 site
    obtain ⟨part, found, -⟩ := Option.map_eq_some_iff.1 (sectionAddress?_eq built r.site ▸ address)
    have inside := List.mem_of_find?_eq_some found
    have kind : part.kind = r.site := by simpa using List.find?_some found
    refine ⟨part, s, goal, place, found, symbol, stands, site, ?_⟩
    rw [sectionBytes_build built run inside (length_contents part inside), kind, bytes]
  · intro part inside x free
    rw [sectionBytes_build built run inside (length_contents part inside),
      relocated_outside run free]
  · intro rs perm
    have reports' := relocations_report (c := b.contents)
      (fun r mem => known r (perm.mem_iff.1 mem)) (fun r mem => below r (perm.mem_iff.1 mem))
      fun _ => rfl
    cases again : rs.foldlM (b.relocate symbols) b.contents with
    | error d =>
      obtain ⟨_, ⟨r, here, refuses⟩, -⟩ := again ▸ reports'
      obtain ⟨k, there⟩ := List.getElem?_of_mem (perm.mem_iff.1 (List.mem_of_getElem? here))
      exact absurd ⟨r, there, refuses⟩ ((run ▸ reports) k d)
    | ok c' =>
      obtain rfl := relocated_unique perm apart run again
      change (rs.foldlM (b.relocate symbols) b.contents >>= _) = _
      rw [again]
      rfl

/-- An instruction that refers to a datum, and a pointer into the same datum. -/
def pointing : Blueprint where
  text := List.replicate 8 0
  data := ⟨.data, 16, List.replicate 16 0, 0⟩
  relocations := [⟨.text, 3, ⟨0⟩, .relative, 0⟩, ⟨.data, 8, ⟨0⟩, .absolute, 4⟩]
  rodata_kind := (rfl : SectionKind.rodata = _)
  data_kind := (rfl : SectionKind.data = _)
  bss_kind := (rfl : SectionKind.bss = _)

theorem build_relocates_pointing : ∃ image part, pointing.build (.single "datum" .data) =
    .ok image ∧ image.section? .data = some part ∧ slice (image.sectionBytes part) 8 16 =
    littleEndianInt 8 0x401004 := by
  have stands : pointing.goal? ⟨"datum", .data, 0, true⟩ = some 0x401000 := rfl
  have below : ∀ r ∈ pointing.relocations, (∃ s, (SymbolTable.single "datum" .data).get? r.symbol =
      some s) ∧ pointing.StaysBelow (.single "datum" .data) 0x8000000000000000 r := by
    simp only [pointing, List.mem_cons, List.not_mem_nil, or_false]
    rintro r (rfl | rfl) <;> refine ⟨⟨_, rfl⟩,
      ⟨fun s goal symbol goals => ?_, fun place here => ?_⟩⟩
    · obtain rfl := Option.some.inj symbol
      obtain rfl := Option.some.inj (stands.symm.trans goals)
      decide
    · obtain rfl : 0x4000B3 = place := Option.some.inj here
      decide
    · obtain rfl := Option.some.inj symbol
      obtain rfl := Option.some.inj (stands.symm.trans goals)
      decide
    · obtain rfl : 0x401008 = place := Option.some.inj here
      decide
  have apart : ∀ kind, pointing.relocations.Pairwise (Relocation.Apart kind) := by
    intro kind
    refine List.pairwise_pair.2 ?_
    rintro x ⟨rfl, -⟩ ⟨other, -⟩
    cases other
  obtain ⟨-, -, relocates⟩ := build_relocates pointing _ (fun r mem => (below r mem).1)
    fun r mem => (below r mem).2
  obtain ⟨sites, -⟩ := relocates _ rfl apart
  obtain ⟨part, s, goal, place, found, symbol, goals, -, bytes⟩ :=
    sites ⟨.data, 8, ⟨0⟩, .absolute, 4⟩ (by simp [pointing])
  obtain rfl := Option.some.inj symbol
  obtain rfl := Option.some.inj (stands.symm.trans goals)
  exact ⟨_, part, rfl, found, bytes⟩

end AgentCompiler
