import AgentCompiler.Proofs.SymbolBinding

/-!
Where the constants of the pool stand. Each has a symbol of its own in the read-only section, in
front of its bytes, and neither moves while more code is written.
-/

namespace AgentCompiler

open List

def HoldsConstant (symbols : SymbolTable) (rodata : DataSection) (id : SymbolId) (content : Bytes) :
    Prop :=
  ∃ symbol, symbols.get? id = some symbol ∧ symbol.kind = .rodata ∧ symbol.isBound = true ∧
    content <+: rodata.bytes.drop symbol.offset

def HoldsWord (symbols : SymbolTable) (rodata : DataSection) (id : SymbolId)
    (value : Int64) : Prop :=
  ∃ symbol, symbols.get? id = some symbol ∧ symbol.kind = .rodata ∧ symbol.isBound = true ∧
    littleEndianInt 8 value.toInt <+: rodata.bytes.drop symbol.offset

section

variable {d e : DataSection} {content : Bytes} {align : Nat}

lemma DataSection.append_bytes {kind : SectionKind} (is : d.kind = kind) (bytes : kind ≠ .bss)
    (content : Bytes) (align : Nat) :
    (d.append content align).2.kind = kind ∧ d.bytes <+: (d.append content align).2.bytes ∧
      (d.append content align).2.bytes.drop (d.append content align).1 = content := by
  subst is
  have offset : d.nextOffset align = alignUp d.bytes.length align := by
    cases kind : d.kind <;> simp [nextOffset, size, kind] at bytes ⊢
  have room : d.bytes.length ≤ d.nextOffset align := offset ▸ le_alignUp _ _
  have whole : (d.append content align).2.bytes = resize d.bytes
      (d.nextOffset align) ++ content := by
    cases kind : d.kind <;> simp [append, kind] at bytes ⊢
  have same : (d.append content align).2.kind = d.kind := by
    cases kind : d.kind <;> simp [append, kind] at bytes ⊢
  have first : (d.append content align).1 = d.nextOffset align := rfl
  rw [whole, first, resize_of_length_le room]
  refine ⟨same, (prefix_append _ _).trans (prefix_append _ _), ?_⟩
  rw [drop_append_of_le_length (by simp; omega), drop_eq_nil_of_le (by simp; omega)]
  rfl

lemma HoldsConstant.keeps {t u : SymbolTable} {id : SymbolId} (h : HoldsConstant t d id content)
    (symbols : t.Keeps u) (bytes : d.bytes <+: e.bytes) : HoldsConstant u e id content := by
  obtain ⟨symbol, found, kind, bound, stored⟩ := h
  obtain ⟨_, found', -, -, same⟩ := symbols id symbol found
  rw [same bound] at found'
  refine ⟨symbol, found', kind, bound, stored.trans ?_⟩
  obtain ⟨rest, whole⟩ := bytes
  rw [← whole, drop_append]
  exact prefix_append _ _

end

namespace Pool

open DataSection

variable {p q : Pool} {s : SymbolId} {content : Bytes} {symbols : SymbolTable} {due : List SymbolId}

structure Extends (p q : Pool) : Prop where
  symbols : p.symbols.Keeps q.symbols
  rodata : p.rodata.kind = .rodata → q.rodata.kind = .rodata ∧ p.rodata.bytes <+: q.rodata.bytes

namespace Extends

lemma refl (p : Pool) : p.Extends p := ⟨.refl _, fun kind => ⟨kind, prefix_rfl⟩⟩

lemma trans {r : Pool} (first : p.Extends q) (second : q.Extends r) : p.Extends r := by
  refine ⟨first.symbols.trans second.symbols, fun kind => ?_⟩
  obtain ⟨kind, before⟩ := first.rodata kind
  obtain ⟨kind, between⟩ := second.rodata kind
  exact ⟨kind, before.trans between⟩

lemma of_symbols (keeps : p.symbols.Keeps symbols) :
    p.Extends { p with symbols } := ⟨keeps, fun kind => ⟨kind, prefix_rfl⟩⟩

lemma interns (run : p.Interns content s q) : p.Extends q := by
  obtain ⟨-, rfl⟩ | ⟨_, align, _, _, _, -, -, defined, rfl, -⟩ := run.cases
  · exact refl _
  · refine ⟨.define defined, fun kind => ?_⟩
    obtain ⟨kind, before, -⟩ := append_bytes kind (by decide) content align
    exact ⟨kind, before⟩

lemma grows (grows : p.Grows q) : p.Extends q := by
  induction grows with
  | names names =>
    rw [names.rest_eq]
    exact ⟨.refl _, fun kind => ⟨kind, prefix_rfl⟩⟩
  | interns run => exact interns run
  | trans _ _ first second => exact first.trans second

lemma laid (laid : Plan.Laid p q) : p.Extends q := by
  induction laid with
  | refl p => exact refl p
  | bind bound _ later => exact (of_symbols (.bind bound)).trans later
  | define defined _ later => exact (of_symbols (.define defined)).trans later
  | text text _ later => exact (interns (.text text)).trans later

lemma holds {id : SymbolId} {content : Bytes} (extended : p.Extends q)
    (kind : p.rodata.kind = .rodata) (holds : HoldsConstant p.symbols p.rodata id content) :
    HoldsConstant q.symbols q.rodata id content :=
  holds.keeps extended.symbols (extended.rodata kind).2

end Extends

structure Stores (p : Pool) : Prop where
  kind : p.rodata.kind = .rodata
  constants : ∀ c ∈ p.constants, HoldsConstant p.symbols p.rodata c.2 c.1

namespace Stores

variable (stores : p.Stores)
include stores

lemma word {value : Int64} (mem : (value, s) ∈ p.words) : HoldsWord p.symbols p.rodata s value :=
  stores.constants (_, s) (mem_append_right _ (mem_map.2 ⟨_, mem, rfl⟩))

lemma extended (extended : p.Extends q) (same : q.constants = p.constants) : q.Stores where
  kind := (extended.rodata stores.kind).1
  constants c mem := extended.holds stores.kind (stores.constants c (same ▸ mem))

lemma of_symbols (keeps : p.symbols.Keeps symbols) : Stores { p with symbols } := stores.extended
    (.of_symbols keeps) rfl

lemma interns (lacks : p.Lacks due) (run : p.Interns content s q) :
    q.Stores ∧ HoldsConstant q.symbols q.rodata s content := by
  have extended := Extends.interns run
  obtain ⟨known, rfl⟩ | ⟨_, align, symbols, _, _, dotted, -, defined, rfl, -, among⟩ := run.cases
  · exact ⟨stores, stores.constants _ known⟩
  · obtain ⟨kind, -, stored⟩ := append_bytes stores.kind (by decide) content align
    have new : HoldsConstant symbols (p.rodata.append content align).2 s content :=
      ⟨_, lacks.toLacks.get?_define dotted defined, rfl, rfl, [], (append_nil _).trans stored.symm⟩
    refine ⟨⟨kind, fun c mem => ?_⟩, new⟩
    obtain old | rfl := among c mem
    · exact extended.holds stores.kind (stores.constants c old)
    · exact new

lemma grows (lacks : p.Lacks due) (grows : p.Grows q) : q.Stores := by
  induction grows with
  | names names => exact stores.extended (.grows (.names names)) (by rw [names.rest_eq]; rfl)
  | interns run => exact (stores.interns lacks run).1
  | trans first _ ih ih' => exact ih' (ih stores lacks) (lacks.grows first)

end Stores

end Pool

end AgentCompiler
