import AgentCompiler.Proofs.FileLayout
import AgentCompiler.Proofs.RoundTrip
import AgentCompiler.Proofs.SymbolSites

/-!
References to symbols in linked code. Linking fills the fields that name symbols and changes no
other byte of the code. So the processor reads each instruction of the image as it was written,
with the address of the symbol in the place of its name.
-/

namespace AgentCompiler

open Assembly Option
open MachineCode (Action decode)

def Image.addressOf? (image : Image) (symbols : SymbolTable) (s : SymbolId) : Option Nat := do
  let symbol ← symbols.get? s
  let place ← image.section? symbol.kind
  pure (place.address + symbol.offset)

/-- A distance from the address `next` reaches the byte `d` bytes behind a symbol. -/
def Image.Reaches (image : Image) (symbols : SymbolTable) (next : Nat) (distance : Int32)
    (s : SymbolId) (d : Int32) : Prop :=
  ∃ goal, image.addressOf? symbols s = some goal ∧ next + distance.toInt = goal + d.toInt

/-- A word holds the address `v` bytes behind a symbol. -/
def Image.Locates (image : Image) (symbols : SymbolTable) (word : Int64) (s : SymbolId)
    (v : Int64) : Prop :=
  ∃ goal, image.addressOf? symbols s = some goal ∧
    word.toInt % 0x10000000000000000 = (goal + v.toInt) % 0x10000000000000000

/-- The code of the blueprint is the assembled one, and nothing but its own relocations patches
it. -/
structure Blueprint.Contains (b : Blueprint) (a : Assembly) : Prop where
  text : b.text = a.bytes
  relocations : ∃ others, b.relocations.Perm (a.relocations ++ others) ∧ ∀ r ∈ others,
    r.site ≠ .text

structure Image.AddressesBelow (image : Image) (symbols : SymbolTable) (limit : Nat) : Prop where
  ends : ∀ s ∈ image.sections, s.address + s.memSize ≤ limit
  symbols : ∀ s address, image.addressOf? symbols s = some address → address < limit

namespace Blueprint

variable {b : Blueprint} {symbols : SymbolTable} {image : Image} {c : Contents} {patch : Bytes}
  {r : Relocation}

section

lemma IsPatch.addressOf? (h : b.IsPatch symbols r patch) (hbuild : b.build symbols = .ok image) :
    ∃ goal start name, image.addressOf? symbols r.symbol = some goal ∧ b.sectionAddress? r.site =
      some start ∧ patchFor r name (toWord goal) (start + r.offset) = .ok patch := by
  obtain ⟨s, goal, start, hs, leads, begins, patched⟩ := h
  unfold symbolAddress at leads
  split at leads
  next address addressed =>
    split at leads
    next =>
      obtain rfl := pure_ok.1 leads
      rw [sectionAddress?_eq hbuild] at addressed
      obtain ⟨place, places, rfl⟩ := map_eq_some_iff.1 addressed
      refine ⟨_, start, s.name, ?_, begins, patched⟩
      simp [Image.addressOf?, hs, places]
    next => simp at leads
  next => simp at leads

/-- A distance that fits four bytes is the true one, unless addresses wrap around. -/
lemma toSignedWord_of_fits {value : Int} (fits : fitsInt32 (toSignedWord value) = true)
    (low : -0x8000000080000000 ≤ value) (high : value ≤ 0x8000000080000000) :
    toSignedWord value = value := by
  simp only [fitsInt32, toSignedWord, Int.bmod, UInt64.size, Bool.and_eq_true,
    decide_eq_true_eq] at fits ⊢
  split at fits <;> omega

/-- A relative field holds the distance from the end of its instruction, which is `tail` bytes
after the start of the field. -/
lemma relative_value {offset tail : Nat} {s : SymbolId} {d : Int32}
    (hbuild : b.build symbols = .ok image) (below : image.AddressesBelow symbols 0x8000000000000000)
    (ends : offset + tail ≤ b.text.length)
    (h : b.IsPatch symbols ⟨.text, offset, s, .relative, d.toInt - tail⟩ patch) :
    ∃ disp, patch = littleEndianInt 4 disp.toInt ∧
      image.Reaches symbols (b.placedText.address + (offset + tail)) disp s d := by
  obtain ⟨goal, start, name, leads, begins, patched⟩ := h.addressOf? hbuild
  rw [sectionAddress?_eq hbuild, section?_text hbuild] at begins
  obtain rfl := some.inj begins
  have text : b.placedText.address + b.text.length ≤ 0x8000000000000000 :=
    below.ends _ (List.mem_of_find?_eq_some (section?_text hbuild))
  have goal' := below.symbols s goal leads
  have limit : 0x8000000000000000 < UInt64.size := by decide
  have low := d.le_toInt
  have high := d.toInt_lt
  rw [toWord_eq_self (goal'.trans limit)] at patched
  obtain ⟨fits, bytes⟩ := patchFor_relative rfl patched
  dsimp only at fits bytes
  have same := toSignedWord_of_fits fits (by omega) (by omega)
  rw [same] at fits bytes
  simp only [fitsInt32, Bool.and_eq_true, decide_eq_true_eq] at fits
  refine ⟨Int32.ofInt (goal + (d.toInt - tail) - (b.placedText.address + offset : Nat)), ?_, goal,
    leads, ?_⟩
  all_goals rw [Int32.toInt_ofInt_of_le (by omega) (by omega)]
  · exact bytes
  · omega

lemma absolute_value {offset : Nat} {s : SymbolId} {v : Int64}
    (hbuild : b.build symbols = .ok image)
    (h : b.IsPatch symbols ⟨.text, offset, s, .absolute, v.toInt⟩ patch) :
    ∃ address, patch = littleEndianInt 8 address.toInt ∧ image.Locates symbols address s v := by
  obtain ⟨goal, start, name, leads, -, patched⟩ := h.addressOf? hbuild
  have word : (toWord goal + v.toInt) % 0x10000000000000000 =
      (goal + v.toInt) % 0x10000000000000000 := by
    simp only [toWord, UInt64.size]
    omega
  refine ⟨Int64.ofInt (toWord goal + v.toInt), ?_, goal, leads, ?_⟩
  all_goals rw [Int64.toInt_ofInt]
  · rw [patchFor_absolute rfl patched, littleEndianInt, littleEndianInt]
    exact congrArg (fun n : Int => littleEndian 8 n.toNat) Int.bmod_emod.symm
  · rw [← word]
    exact Int.bmod_emod

end

section

variable {names : Names} {code : List Instruction} {a : Assembly} {k : Nat} {i : Instruction}
  {e : Encoding} (hb : b.Contains a) (h : assemble names code = .ok a)
  (hc : b.relocations.foldlM (b.relocate symbols) b.contents = .ok c)

include hb h

lemma Contains.apart : b.relocations.Pairwise (Relocation.Apart .text) := by
  obtain ⟨others, perm, differ⟩ := hb.relocations
  obtain ⟨placed, layout⟩ := exists_isLayout h
  obtain ⟨-, consecutive, sound⟩ := place_sound layout.placing
  have own := (apart_relocations consecutive sound).2
  rw [← layout.relocations] at own
  rw [perm.pairwise_iff fun h => h.symm, List.pairwise_append]
  refine ⟨own, List.pairwise_of_forall_mem_list ?_, ?_⟩
  · intro r hr q _ x hx
    exact absurd hx.1 (differ r hr)
  · intro r _ q hq x _ hx
    exact absurd hx.1 (differ q hq)

include hc

lemma Contains.outside {x : Nat}
    (hx : ∀ k i e y, code[k]? = some i → i.encode = .ok e → x = outputSize names code k + y →
      ¬ e.NamesSymbolAt y) : (c.part .text)[x]? = a.bytes[x]? := by
  have text := hb.text
  rw [← text]
  apply relocated_outside hc
  intro r hr covers
  obtain ⟨others, perm, differ⟩ := hb.relocations
  obtain hr | hr := List.mem_append.1 (perm.mem_iff.1 hr)
  · obtain ⟨k, i, e, hk, he, hr⟩ := (mem_relocations h).1 hr
    obtain ⟨y, hy, named⟩ := namesSymbolAt_of_covers hr covers
    exact hx k i e y hk he hy named
  · exact differ r hr covers.1

lemma Contains.slice_outside (found : code[k]? = some i) (same : i.encode = .ok e) {x z : Nat}
    (below : z ≤ e.size) (free : ∀ y, x ≤ y → y < z → ¬ e.NamesSymbolAt y) :
    slice (c.part .text) (outputSize names code k + x) (outputSize names code k + z) =
      slice a.bytes (outputSize names code k + x) (outputSize names code k + z) := by
  apply slice_congr
  intro w le lt
  apply hb.outside h hc
  intro j i' e' y hj he' hw named
  have same' : w = outputSize names code k + (w - outputSize names code k) := by omega
  obtain rfl := position_unique h hj he' named.lt_size found same (by omega) (hw.symm.trans same')
  obtain rfl := some.inj (found.symm.trans hj)
  obtain rfl := Except.ok.inj (same.symm.trans he')
  exact free y (by omega) (by omega) named

lemma Contains.site (found : code[k]? = some i) (same : i.encode = .ok e)
    (among : r ∈ relocationsOf ⟨i, e, outputSize names code k⟩) :
    b.IsPatch symbols r (slice (c.part .text) r.offset (r.offset + r.kind.width)) := by
  obtain ⟨others, perm, -⟩ := hb.relocations
  have mem : r ∈ b.relocations := by
    rw [perm.mem_iff, List.mem_append]
    exact .inl ((mem_relocations h).2 ⟨k, i, e, found, same, among⟩)
  have site := site_relocationsOf among
  have patched := relocated_site hc mem (by rw [site]; exact hb.apart h)
  rwa [site] at patched

section

variable (hbuild : b.build symbols = .ok image)
include hbuild

lemma Contains.disp_filled
    (below : image.AddressesBelow symbols 0x8000000000000000) (found : code[k]? = some i)
    (same : i.encode = .ok e) (next : outputSize names code (k + 1) = outputSize names code
    k + e.size) (bytes : slice a.bytes (outputSize names code k + e.dispOffset)
      (outputSize names code k + e.immOffset) = e.disp.bytes) : ∃ disp,
        (∀ fill : Filling, fill.disp = disp →
        slice (c.part .text) (outputSize names code k + e.dispOffset)
          (outputSize names code k + e.immOffset) = e.disp.filled fill) ∧
      ∀ s d, e.disp = .symbol s d →
        image.Reaches symbols (b.placedText.address + outputSize names code (k + 1)) disp s d := by
  have kept : (∀ s d, e.disp ≠ .symbol s d) → slice (c.part .text)
        (outputSize names code k + e.dispOffset) (outputSize names code k + e.immOffset) =
        e.disp.bytes := by
    intro plain
    rw [hb.slice_outside h hc found same le_self_add, bytes]
    rintro y - hy (⟨⟨s, d, near⟩, -⟩ | ⟨-, hy', -⟩)
    · exact plain s d near
    · omega
  cases near : e.disp with
  | symbol s d =>
    have imm : e.immOffset = e.dispOffset + 4 := by
      rw [Encoding.immOffset, near, Displacement.size]
    have size : e.size = e.immOffset + e.imm.size := rfl
    have tail : (e.size : Int) - e.dispOffset = (e.size - e.dispOffset : Nat) := by omega
    have finish : outputSize names code k + e.dispOffset + (e.size - e.dispOffset) =
        outputSize names code (k + 1) := by omega
    have ends := outputSize_succ_le h found
    have patched := hb.site h hc found same (mem_relocationsOf.2 (.inl ⟨s, d, near, rfl⟩))
    dsimp only at patched
    rw [tail] at patched
    obtain ⟨disp, field, reaches⟩ := relative_value hbuild below (by rw [hb.text]; omega) patched
    rw [finish] at reaches
    refine ⟨disp, ?_, ?_⟩
    · rintro fill rfl
      rw [imm, ← add_assoc]
      exact field
    · rintro _ _ ⟨⟩
      exact reaches
  | none | byte v | dword v =>
    refine ⟨0, ?_, by simp⟩
    intro fill _
    rw [kept (by simp [near]), near]
    rfl

lemma Contains.imm_filled (found : code[k]? = some i) (same : i.encode = .ok e)
    {delta : Int} (bytes : slice a.bytes (outputSize names code k + e.immOffset)
      (outputSize names code k + e.size) = e.imm.bytes delta) : ∃ address,
      (∀ fill : Filling, fill.distance = delta → fill.address = address →
        slice (c.part .text) (outputSize names code k + e.immOffset)
          (outputSize names code k + e.size) = e.imm.filled fill) ∧
      ∀ s v, e.imm = .address s v → image.Locates symbols address s v := by
  have kept : (∀ s v, e.imm ≠ .address s v) → slice (c.part .text)
        (outputSize names code k + e.immOffset) (outputSize names code k + e.size) =
        e.imm.bytes delta := by
    intro plain
    rw [hb.slice_outside h hc found same le_rfl, bytes]
    rintro y hy - (⟨-, -, hy'⟩ | ⟨⟨s, v, imm⟩, -⟩)
    · omega
    · exact plain s v imm
  cases imm : e.imm with
  | address s v =>
    have size : e.size = e.immOffset + 8 := by rw [Encoding.size, imm, Immediate.size]
    have patched := hb.site h hc found same (mem_relocationsOf.2 (.inr ⟨s, v, imm, rfl⟩))
    obtain ⟨address, field, locates⟩ := absolute_value hbuild patched
    refine ⟨address, ?_, ?_⟩
    · rintro fill - rfl
      rw [size, ← add_assoc]
      exact field
    · rintro _ _ ⟨⟩
      exact locates
  | none | byte v | dword v | qword v | short l | near l =>
    refine ⟨0, ?_, by simp⟩
    rintro fill rfl -
    rw [kept (by simp [imm]), imm]
    rfl

lemma Contains.instruction_filled
    (below : image.AddressesBelow symbols 0x8000000000000000) (found : code[k]? = some i)
    (differs : ∀ n, i ≠ .align n) :
    ∃ e fill, i.encode = .ok e ∧
      slice (c.part .text) (outputSize names code k) (outputSize names code (k + 1)) =
      e.filled fill ∧ (∀ s d, e.disp = .symbol s d →
        image.Reaches symbols (b.placedText.address + outputSize names code (k + 1))
        fill.disp s d) ∧
      ∀ s v, e.imm = .address s v → image.Locates symbols fill.address s v := by
  obtain ⟨e, delta, he, next, -, fields⟩ := instruction_row h found differs
  have dispImm : e.dispOffset ≤ e.immOffset := le_self_add
  have immSize : e.immOffset ≤ e.size := le_self_add
  have dispBytes := (fields e.dispOffset e.immOffset immSize).trans (e.slice_disp delta)
  have immBytes := (fields e.immOffset e.size le_rfl).trans (e.slice_imm delta)
  obtain ⟨disp, near, relative⟩ := hb.disp_filled h hc hbuild below found he next dispBytes
  obtain ⟨address, imm, absolute⟩ := hb.imm_filled h hc hbuild found he immBytes
  refine ⟨e, ⟨delta, disp, address⟩, he, ?_, relative, absolute⟩
  have head : slice (c.part .text) (outputSize names code k)
      (outputSize names code k + e.dispOffset) = e.head := by
    have kept := hb.slice_outside h hc found he (dispImm.trans immSize) (x := 0)
        (z := e.dispOffset) (by
        rintro y - hy (⟨-, hy', -⟩ | ⟨-, hy', -⟩) <;> omega)
    rw [fields _ _ (dispImm.trans immSize), e.slice_head] at kept
    exact kept
  rw [Encoding.filled, ← head, ← near _ rfl, ← imm _ rfl rfl, slice_append_slice (by omega)
    (by omega), slice_append_slice (by omega) (by omega), next]

end

end

end Blueprint

section

variable {names : Names} {code : List Instruction} {a : Assembly} {b : Blueprint}
  {symbols : SymbolTable} {image : Image}

/-- The processor reads every instruction of the linked code as it was written: a memory operand
reaches its symbol from the end of the instruction, and a loaded address is that of its symbol.
All bytes of the code outside the fields for this are the assembler's. -/
theorem build_references (h : assemble names code = .ok a) (hb : b.Contains a)
    (hbuild : b.build symbols = .ok image)
    (below : image.AddressesBelow symbols 0x8000000000000000) :
    ∃ t, image.section? .text = some t ∧
      (∀ k i, code[k]? = some i → i.isDirective = false →
        ∃ (e : Encoding) (fill : Filling) (action : Action), i.encode = .ok e ∧
          slice (image.sectionBytes t) (outputSize names code k) (outputSize names code (k + 1)) =
            e.filled fill ∧
          i.seen fill = some action ∧
          decode ((image.sectionBytes t).drop (outputSize names code k)) =
            some (action, (image.sectionBytes t).drop (outputSize names code (k + 1))) ∧
          (∀ s d, ⟨.symbol s, none, d⟩ ∈ i.memory →
            image.Reaches symbols (t.address + outputSize names code (k + 1)) fill.disp s d) ∧
          ∀ dst s v, i = .movAddress dst s v → image.Locates symbols fill.address s v) ∧
      (image.sectionBytes t).length = a.bytes.length ∧
      ∀ x, (∀ k i e y, code[k]? = some i → i.encode = .ok e → x = outputSize names code k + y →
          ¬ e.NamesSymbolAt y) → (image.sectionBytes t)[x]? = a.bytes[x]? := by
  obtain ⟨c, hc, -⟩ := Blueprint.build_ok hbuild
  have bytes : image.sectionBytes b.placedText = c.part .text :=
    Blueprint.sectionBytes_build hbuild hc
      (List.mem_of_find?_eq_some (Blueprint.section?_text hbuild)) rfl
  refine ⟨b.placedText, Blueprint.section?_text hbuild, ?_, ?_, ?_⟩
  all_goals rw [bytes]
  · intro k i hk hi
    have align : ∀ n, i ≠ .align n := by
      rintro n rfl
      simp [Instruction.isDirective] at hi
    obtain ⟨e, fill, he, sliced, relative, absolute⟩ :=
      hb.instruction_filled h hc hbuild below hk align
    obtain ⟨action, acts⟩ := Instruction.exists_seen hi fill
    have named := Instruction.namesAs_encode he
    have mono : outputSize names code k ≤ outputSize names code (k + 1) :=
      outputSize_mono names code (Nat.le_succ k)
    refine ⟨e, fill, action, he, sliced, acts, ?_, ?_, ?_⟩
    · have cut := drop_eq_slice_append (c.part .text) mono
      rw [cut, sliced]
      exact Instruction.reads_encode he acts _
    · intro s d mem
      exact relative s d ((named.symbol s d).2 mem)
    · intro dst s v load
      exact absolute s v ((named.address s v).2 ⟨dst, load⟩)
  · have length := Blueprint.length_part_relocated hc .text
    rw [length, ← hb.text]
    rfl
  · intro x
    exact hb.outside h hc

/-- A store into the middle of a datum; the stored constant follows the distance. -/
theorem build_references_store :
    ∃ a image t action disp,
      assemble ⟨fun _ => "", fun _ => pure ""⟩
        [.mov .qword (.mem ⟨.symbol ⟨0⟩, none, 8⟩) (.imm 7)] = .ok a ∧
      Blueprint.build
        { text := a.bytes, data := ⟨.data, 16, List.replicate 16 0, 0⟩
          relocations := a.relocations } (.single "datum" .data) = .ok image ∧
      image.section? .text = some t ∧
      decode (image.sectionBytes t) = some (action, (image.sectionBytes t).drop 11) ∧
      action = .mov .qword (.place (.mem ⟨.next, none, disp⟩)) (.imm 7) ∧
      (t.address + 11 : Nat) + disp = 0x401000 + 8 := by
  have h : assemble ⟨fun _ => "", fun _ => pure ""⟩
      [.mov .qword (.mem ⟨.symbol ⟨0⟩, none, 8⟩) (.imm 7)] = .ok _ := rfl
  have hbuild : Blueprint.build
      { text := [0x48, 0xC7, 0x05, 0, 0, 0, 0, 7, 0, 0, 0]
        data := ⟨.data, 16, List.replicate 16 0, 0⟩
        relocations := [⟨.text, 3, ⟨0⟩, .relative, 0⟩] } (.single "datum" .data) = .ok _ :=
    rfl
  obtain ⟨t, ht, coded, -⟩ := build_references h ⟨rfl, [], .of_eq rfl, by simp⟩ hbuild
    ⟨by decide, by
      rintro ⟨_ | n⟩ address addressed
      · obtain rfl : 0x401000 = address := Option.some.inj addressed
        decide
      · simp [Image.addressOf?, SymbolTable.get?] at addressed⟩
  obtain ⟨e, fill, action, -, -, seen, decoded, near, -⟩ := coded 0 _ rfl rfl
  obtain ⟨goal, leads, value⟩ := near ⟨0⟩ 8 List.mem_cons_self
  obtain rfl : 0x401000 = goal := Option.some.inj leads
  exact ⟨_, _, t, action, fill.disp.toInt, h, hbuild, ht, decoded, (Option.some.inj seen).symm,
    value⟩

end

end AgentCompiler
