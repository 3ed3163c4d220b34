import AgentCompiler.Proofs.FrameUse
import AgentCompiler.Proofs.PlainCode
import AgentCompiler.Proofs.PoolGrowth

/-!
Bodies are written in few kinds of steps: plain instructions, new constants, new labels and their
bindings, jumps inside the routine, and whole call sequences. What holds of every step holds of
every body, so each property of generated code is one induction over these steps.
-/

namespace AgentCompiler

open List

variable {i : Instruction} {args : List Argument}

/-- The symbols of pooled constants, and those that every program starts from, are in the table. -/
structure Pool.IsSound (p : Pool) : Prop where
  fixed : 3 ≤ p.symbols.size
  texts : ∀ pair ∈ p.texts, pair.2.index < p.symbols.size
  words : ∀ pair ∈ p.words, pair.2.index < p.symbols.size

/-- The symbols at hand while code is written are in the table. -/
structure Plan.Knows (plan : Plan) (p : Pool) : Prop extends p.IsSound where
  queues : ∀ agent storage, plan.storage? agent = some storage →
    storage.queue.index < p.symbols.size ∧ storage.slot.index < p.symbols.size

def Plan.HasSmallNumbers (plan : Plan) : Prop :=
  ∀ schema ∈ plan.layout.schemas, fitsInt32 (Int64.ofNat schema.id).toInt = true

/-- The calls that a routine which speaks for `source` may make. A message goes to an agent only if
a route takes it there. -/
inductive Plan.Permits (plan : Plan) (source : Endpoint) : Label → List Argument → Prop
  | service {s : Service} {args : List Argument} : s ≠ .enqueue → Permits plan source s.label args
  | helper {agent name : String} {l : Label} {args : List Argument} :
      plan.helper? agent name = some l → Permits plan source l args
  | handler {agent schema : String} {l : Label} : plan.handler? agent schema = some l →
      Permits plan source l []
  | delivery {name goal : String} {schema : SchemaLayout} {storage : Storage} {payload : Register} :
      plan.layout.schema? name = some schema →
      goal ∈ plan.layout.destinations source schema.name → plan.storage? goal = some storage →
      payload ∈ Register.scratch →
      Permits plan source Service.enqueue.label (Lower.deliveryArguments schema payload storage)

/-- Code written from pool to pool. The labels that have been named and not yet bound are kept from
step to step; jumps go to labels from `lo` on. -/
inductive Written (plan : Plan) (source : Endpoint) (lo : Nat) :
    Pool → Multiset Label → Code → Pool → Multiset Label → Prop
  | plain {p : Pool} {P : Multiset Label} {code : Code} :
      (∀ i ∈ code, i.IsPlain plan.HasSmallNumbers p.symbols.size) → Written plan source lo p
        P code p P
  | interns {p q : Pool} {P : Multiset Label} {content : Bytes} {s : SymbolId} :
      p.Interns content s q → Written plan source lo p P [] q P
  | fresh {p q : Pool} {P : Multiset Label} {hint : String} {l : Label} :
      Emit.fresh hint p = .ok (l, q) → Written plan source lo p P [] q (l ::ₘ P)
  | bind {p : Pool} {P Q : Multiset Label} {l : Label} : P = l ::ₘ Q → Written plan source lo p P
      [.label l] p Q
  | jump {p : Pool} {P : Multiset Label} {l : Label} :
      lo ≤ l.id → l.id < p.labels.size → Written plan source lo p P [.jmp l] p P
  | branch {p : Pool} {P : Multiset Label} {cond : Condition} {l : Label} :
      lo ≤ l.id → l.id < p.labels.size → Written plan source lo p P [.jcc cond l] p P
  | call {p : Pool} {P : Multiset Label} {live : List Register} {target : Label}
      {args : List Argument} :
      live <+: Register.scratch → plan.Permits source target args →
      (∀ s d, Argument.address s d ∈ args → s.index < p.symbols.size) →
      Written plan source lo p P (callSequence live target args) p P
  | append {p s q : Pool} {P S Q : Multiset Label} {first second : Code} :
      Written plan source lo p P first s S → Written plan source lo s S second q Q →
        Written plan source lo p P (first ++ second) q Q

inductive CallPart (target : Label) (args : List Argument) : Instruction → Prop
  | push (r : Register) : CallPart target args (.push r)
  | pop {r : Register} (scratch : r.isCallerSaved = true) : CallPart target args (.pop r)
  | adjust (op : AluOp) : CallPart target args (.arith op Register.rsp (.imm 8))
  | reg {dst : Register} (passes : dst ∈ Register.arguments) (src : Register) : CallPart target args
      (.move dst src)
  | imm {dst : Register} (passes : dst ∈ Register.arguments) (value : Int64) : CallPart target args
      (.move dst value)
  | address {dst : Register} {s : SymbolId} {addend : Int32} (passes : dst ∈ Register.arguments)
      (given : .address s addend ∈ args) : CallPart target args (.lea dst (.symbol s addend))
  | call : CallPart target args (.call target)

lemma mem_passArguments (h : i ∈ passArguments args) :
    ∃ dst ∈ Register.arguments, (∃ src : Register, i = .move dst src) ∨
      (∃ value : Int64, i = .move dst value) ∨ ∃ s addend, .address s addend ∈ args ∧ i = .lea dst
      (.symbol s addend) := by
  simp only [passArguments, mem_flatMap] at h
  obtain ⟨⟨arg, dst⟩, pair, hi⟩ := h
  obtain ⟨harg, goes⟩ := of_mem_zip pair
  refine ⟨dst, goes, ?_⟩
  cases arg with
  | reg src =>
    simp only [Argument.pass] at hi
    split at hi
    · simp at hi
    · exact .inl ⟨src, mem_singleton.1 hi⟩
  | imm value => exact .inr (.inl ⟨value, mem_singleton.1 hi⟩)
  | address s addend => exact .inr (.inr ⟨s, addend, harg, mem_singleton.1 hi⟩)

lemma callPart_of_mem {live : List Register} {target : Label}
    (h : i ∈ callSequence live target args) : CallPart target args i := by
  have adjust : ∀ {op : AluOp} {c : Bool},
    i ∈ (if c then [Instruction.arith op Register.rsp (.imm 8)] else []) →
        CallPart target args i := by
    intro op c hi
    cases c
    · simp at hi
    · exact mem_singleton.1 hi ▸ .adjust op
  simp only [callSequence, mem_append, mem_map, mem_singleton, mem_reverse] at h
  obtain ((((⟨r, -, rfl⟩ | hi) | hi) | rfl) | hi) | ⟨r, hr, rfl⟩ := h
  · exact .push r
  · exact adjust hi
  · obtain ⟨dst, goes, ⟨src, rfl⟩ | ⟨value, rfl⟩ | ⟨s, addend, given, rfl⟩⟩ := mem_passArguments hi
    · exact .reg goes src
    · exact .imm goes value
    · exact .address goes given
  · exact .call
  · exact adjust hi
  · exact .pop (mem_filter.1 hr).2

inductive Pool.Grows : Pool → Pool → Prop
  | names {p q : Pool} {ls : List Label} : p.Names ls q → Grows p q
  | interns {p q : Pool} {content : Bytes} {s : SymbolId} : p.Interns content s q → Grows p q
  | trans {p s q : Pool} : Grows p s → Grows s q → Grows p q

section

variable {plan : Plan} {p q : Pool} {s : SymbolId} {hint : String} {content : Bytes}
  {ls : List Label} {l : Label}

lemma Emit.fresh_facts (h : fresh hint p = .ok (l, q)) :
    l.id = p.labels.size ∧ q.labels.size = p.labels.size + 1 ∧
        q = { p with labels := q.labels } := by
  obtain ⟨rfl, rfl⟩ := fresh_ok.1 h
  exact ⟨rfl, LabelTable.size_fresh .., rfl⟩

lemma Pool.isSound_iff : p.IsSound ↔ 3 ≤ p.symbols.size ∧ ∀ c ∈ p.constants,
    c.2.index < p.symbols.size := by
  refine ⟨fun h => ⟨h.fixed, ?_⟩, fun ⟨fixed, all⟩ =>
    ⟨fixed, fun pair paired => ?_, fun pair paired => ?_⟩⟩
  · rw [constants, forall_mem_append, forall_mem_map, forall_mem_map]
    exact ⟨h.texts, h.words⟩
  · exact all _ (mem_append_left _ (mem_map_of_mem paired))
  · exact all _ (mem_append_right _ (mem_map_of_mem paired))

namespace Pool.IsSound

lemma interns (hp : p.IsSound) (h : p.Interns content s q) : q.IsSound ∧
    s.index < q.symbols.size := by
  rw [isSound_iff] at hp ⊢
  obtain ⟨known, rfl⟩ | ⟨_, _, symbols, _, _, -, -, define, rfl, -, among⟩ := h.cases
  · exact ⟨hp, hp.2 _ known⟩
  · have le := (SymbolTable.Keeps.define define).size_le
    have lt := (List.getElem?_eq_some_iff.1 (SymbolTable.get?_define define)).1
    refine ⟨⟨hp.1.trans le, fun c hc => ?_⟩, lt⟩
    obtain hc | rfl := among c hc
    · exact (hp.2 c hc).trans_le le
    · exact lt

lemma names (hp : p.IsSound) (h : p.Names ls q) : q.IsSound := by
  rw [h.rest_eq]
  exact ⟨hp.fixed, hp.texts, hp.words⟩

end Pool.IsSound

namespace Plan.Knows

section

variable (hk : plan.Knows p)
include hk

lemma mono (knows : q.IsSound) (le : p.symbols.size ≤ q.symbols.size) : plan.Knows q := { knows with
    queues := fun agent storage h =>
      ⟨(hk.queues agent storage h).1.trans_le le, (hk.queues agent storage h).2.trans_le le⟩ }

lemma interns (h : p.Interns content s q) : plan.Knows q ∧ s.index < q.symbols.size := by
  obtain ⟨hq, lt⟩ := hk.toIsSound.interns h
  exact ⟨hk.mono hq h.keeps.size_le, lt⟩

lemma names (h : p.Names ls q) : plan.Knows q := by
  rw [h.rest_eq]
  exact ⟨⟨hk.fixed, hk.texts, hk.words⟩, hk.queues⟩

lemma fresh (h : Emit.fresh hint p = .ok (l, q)) : plan.Knows q := hk.names (.fresh h)

end

end Plan.Knows

namespace Pool.Grows

lemma refl (p : Pool) : p.Grows p := .names (.nil p)

lemma keeps (h : p.Grows q) : p.symbols.Keeps q.symbols := by
  induction h with
  | names h => exact h.symbols_eq ▸ .refl _
  | interns h => exact h.keeps
  | trans _ _ ih1 ih2 => exact ih1.trans ih2

lemma labels_le (h : p.Grows q) : p.labels.size ≤ q.labels.size := by
  induction h with
  | names h => exact h.size_eq ▸ le_self_add
  | interns h => rw [h.labels_eq]
  | trans _ _ ih1 ih2 => exact ih1.trans ih2

lemma words_subset (h : p.Grows q) : p.words ⊆ q.words := by
  induction h with
  | names h =>
    rw [h.rest_eq]
    exact List.Subset.refl _
  | interns h =>
    obtain ⟨-, rfl⟩ | ⟨_, _, _, _, _, -, -, -, rfl, words, -⟩ := h.cases
    · exact List.Subset.refl _
    · exact words
  | trans _ _ ih1 ih2 => exact List.Subset.trans ih1 ih2

lemma knows (h : p.Grows q) (hk : plan.Knows p) : plan.Knows q := by
  induction h with
  | names h => exact hk.names h
  | interns h => exact (hk.interns h).1
  | trans _ _ ih1 ih2 => exact ih2 (ih1 hk)

end Pool.Grows

end

namespace Written

variable {plan : Plan} {source : Endpoint} {lo : Nat} {p q s : Pool} {P Q S : Multiset Label}
  {code : Code}

section

variable (h : Written plan source lo p P code q Q)
include h

lemma grows : p.Grows q := by
  induction h with
  | interns h => exact .interns h
  | fresh h => exact .names (.fresh h)
  | append _ _ ih1 ih2 => exact ih1.trans ih2
  | _ => exact .refl _

lemma keeps : p.symbols.Keeps q.symbols := h.grows.keeps

lemma labels_le : p.labels.size ≤ q.labels.size := h.grows.labels_le

lemma knows (hk : plan.Knows p) : plan.Knows q := h.grows.knows hk

end

lemma nil : Written plan source lo p P [] p P := .plain (by simp)

lemma single (h : i.IsPlain plan.HasSmallNumbers p.symbols.size) :
    Written plan source lo p P [i] p P := .plain (by simpa using h)

lemma after_nil (h : Written plan source lo p P [] s S) (h' : Written plan source lo s S code q Q) :
    Written plan source lo p P code q Q := h.append h'

lemma cons (h : Written plan source lo p P [i] s S) (h' : Written plan source lo s S code q Q) :
    Written plan source lo p P (i :: code) q Q :=
  h.append h'

end Written

end AgentCompiler
