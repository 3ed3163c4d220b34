import AgentCompiler.Proofs.Deliveries
import AgentCompiler.Proofs.RegisterDiscipline

/-!
Every body stays in the territory of its routine. An expression is a computation, closed under its
jumps, that spares the scratch registers below it; a statement falls into such computations and into
the messages that it builds.
-/

namespace AgentCompiler

open Instruction List Territory
open Register (rbx rbp)

variable {e : Expr} {i : Instruction} {a : Access} {f1 : Frame} {record : Record} {target : Label}
  {slot : Slot}

structure Territory.Covers (T : Territory) (plan : Plan) (r : Routine) : Prop where
  state : T.state = r.agent.state
  message : T.message = r.message.map (·.payload)
  helpers : ∀ name l, plan.helper? r.agent.name name = some l → T.helpers l
  payloads : ∀ name schema, plan.layout.schema? name = some schema → schema.payload.IsSmall
  sent : ∀ name schema, plan.layout.schema? name = some schema → T.sent name =
    if plan.layout.destinations (.agent r.agent.name) schema.name = [] then [] else [schema.payload]
  small : T.IsSmall

section

lemma toInt_ofNat_offset {offset : Nat} (small : offset < 0x80000000) :
    (Int32.ofNat offset).toInt = offset := by
  rw [Int32.toInt_ofNat_of_lt]
  exact small

lemma isAt_field {base : Register} {isStore : Bool} (small : slot.offset < 0x80000000) :
    Access.IsAt ⟨.near base (Int32.ofNat slot.offset), slot.type.width, isStore⟩ base slot.offset
        slot.type.size :=
  ⟨rfl, rfl, toInt_ofNat_offset small, slot.type.bytes_width⟩

lemma isAt_slot {s : Nat} {isStore : Bool} (few : s < 0x8000000) :
    Access.IsAt ⟨Variable.address s, .qword, isStore⟩ rbp (-8 * (s + 1)) 8 := by
  refine ⟨rfl, rfl, ?_, rfl⟩
  exact Int32.toInt_ofInt_of_le (by omega) (by omega)

@[simp] lemma accesses_loadValue (type : ValueType) (dst : Register) (src : Address) :
    (loadValue type dst src).accesses = [⟨src, type.width, false⟩] := by cases type <;> rfl

end

namespace Lower

variable {plan : Plan} {r : Routine} {f f' : Frame} {p q : Pool} {v : Value} {code : Code}
  {T : Territory}

attribute [local simp] accesses changed move arith zero check Place.operand

section

variable {s : Pool}

lemma callValue_stays {args : List Argument} {kind : ValueKind}
    (allowed : (∃ s : Service, s ≠ .allocate ∧ target = s.label) ∨ T.helpers target ∧ ∃ rest,
    args = [.reg .stateBase, .reg .message] ++ rest) (h : callValue r target args kind f p = .ok
    (((v, code), f'), q)) : T.Computes [] code := by
  obtain ⟨reg, -, -, -, rfl, rfl⟩ := callValue_ok h
  exact (Territory.Computes.of_call (by simp) allowed).append (.silent (by simp))

lemma applyBinary_stays {op : BinaryOperator} {a b : Value}
    (h : applyBinary r op a b f p = .ok (((v, code), f'), q)) : T.Computes [] code := by
  obtain ⟨-, ⟨-, what, texts⟩ | ⟨-, cond, -, rfl, -, -, rfl, rfl⟩ | ⟨-, -, -, rfl, what, e,
      arith, -⟩⟩ :=
    applyBinary_ok h
  · obtain ⟨service, first, kind, last, call, other, rfl, ending⟩ := applyToTexts_ok texts
    refine (callValue_stays (.inl ⟨service, other.2, rfl⟩) call).append (.silent ?_)
    rcases ending with rfl | rfl <;> simp
  · exact .silent (by simp [compareCode])
  · obtain ⟨isQuotient, rfl, division⟩ | ⟨-, -, -, rfl, rfl, rfl⟩ := arithmetic_ok arith
    · obtain ⟨message, s, -, rfl, nonzero, s1, general, s2, done, -, -, -, rfl⟩ :=
        division_ok division
      refine .append (.append (.silent (by simp))
        (.of_call (by simp) (.inl ⟨.abort, by decide, rfl⟩))) (.silent ?_)
      cases isQuotient <;> simp
    · refine .silent ?_
      cases op <;> simp [arithmeticCode]

lemma mem_words_of_internWord {value : Int64} {s : SymbolId} (h : p.internWord value = .ok (s, q)) :
    (value, s) ∈ q.words := by
  obtain ⟨found, rfl⟩ | ⟨-, symbols, -, rfl⟩ := p.internWord_ok h
  · exact mem_of_lookup_eq_some found
  · exact mem_append_right _ (mem_singleton.2 rfl)

/-- What the frame and the pool of a routine have to do with its territory, at one point of its
body. -/
structure Stands (T : Territory) (plan : Plan) (f : Frame) (p : Pool) (q : Pool) : Prop where
  knows : plan.Knows p
  own : f.HasOwnSlots
  slots : f.slots ≤ T.slots
  constants : ∀ pair ∈ q.words, T.constants pair.2

section

variable (stands : Stands T plan f p q)
include stands

lemma Stands.before (later : s.Grows q) : Stands T plan f p s :=
  ⟨stands.knows, stands.own, stands.slots, fun pair mem =>
    stands.constants pair (later.words_subset mem)⟩

lemma Stands.behind (grows : p.Grows s) (own : f'.HasOwnSlots) (slots : f'.slots ≤ T.slots) :
    Stands T plan f' s q :=
  ⟨grows.knows stands.knows, own, slots, stands.constants⟩

lemma Stands.keeps (grows : p.Grows s) (keeps : f.Keeps f') : Stands T plan f' s q :=
  stands.behind grows (stands.own.of_scopes keeps.scopes keeps.slots.symm.le)
    (keeps.slots ▸ stands.slots)

end

lemma slot?_mem {name : String} (found : record.slot? name = some slot) :
    slot ∈ record.slots := mem_of_find?_eq_some found

section

variable {args : List Expr}
  (ih : ∀ e ∈ args, ∀ {f f' : Frame} {p q : Pool} {v : Value} {code : Code},
  Stands T plan f p q → expression plan r e f p = .ok (((v, code), f'), q) → T.Computes [] code)
include ih

lemma operands_stays {callee : String} {index : Nat} {wants : List ValueKind} {regs : List Register}
    (stands : Stands T plan f p q) (h : operands plan r callee index args wants f p =
    .ok (((regs, code), f'), q)) :
    T.Computes [] code := by
  induction args generalizing index wants regs code f p with
  | nil =>
    obtain ⟨-, rfl, -, rfl⟩ := operands_of_nil (.inl rfl) h
    exact .silent (by simp)
  | cons e rest more =>
    cases wants with
    | nil =>
      obtain ⟨-, rfl, -, rfl⟩ := operands_of_nil (.inr rfl) h
      exact .silent (by simp)
    | cons want wants =>
      obtain ⟨v, first, f1, p1, others, tail, begins, -, htail, -, rfl⟩ := operands_cons h
      have grows := expression_grows stands.knows begins
      have written : IsWritten plan .external 0 p1 tail q := operands_written
        (fun _ _ => expression_written) htail
      have later := written.grows (Nat.zero_le _) (grows.knows stands.knows)
      refine (ih e (mem_cons_self ..) (stands.before later) begins).append ?_
      exact more (fun e mem => ih e (mem_cons_of_mem _ mem))
        (stands.keeps grows (expression_takes begins).toKeeps) htail

lemma Application.stays (covers : T.Covers plan r) (stands : Stands T plan f p q)
    (h : Application plan r args f p v code f' q) : T.Computes [] code := by
  obtain ⟨begins, -, final, -, target, rfl⟩ := h
  rename_i regs first last f1 p1 goal given kind
  obtain ⟨-, -, -, rfl, -⟩ := callValue_ok final
  refine (operands_stays ih stands begins).append (callValue_stays ?_ final)
  obtain ⟨service, other, same⟩ | ⟨⟨name, own⟩, passes⟩ := target
  · exact .inl ⟨service, other.2, same⟩
  · exact .inr ⟨covers.helpers name goal own, _, passes⟩

end

lemma expression_stays (covers : T.Covers plan r) (stands : Stands T plan f p q)
    (h : expression plan r e f p = .ok (((v, code), f'), q)) : T.Computes [] code := by
  induction e using Expr.induction generalizing f f' p q v code with
  | int value =>
    rw [expression] at h
    obtain ⟨reg, -, rfl, ⟨-, -, rfl⟩ | ⟨s, pooled, rfl⟩⟩ := integer_ok h
    · exact .silent (by simp)
    · exact .access rfl (.constant (stands.constants _ (mem_words_of_internWord pooled))
        rfl rfl rfl) (by simp)
  | bool value =>
    obtain ⟨reg, -, -, rfl, rfl⟩ := expression_bool h
    exact .silent (by simp)
  | str value =>
    obtain ⟨s, reg, -, -, rfl, rfl⟩ := expression_str h
    exact .silent (by simp)
  | state field =>
    obtain ⟨slot, reg, found, -, -, rfl, rfl⟩ := expression_state h
    have mem := covers.state ▸ slot?_mem found
    exact .access (accesses_loadValue ..) (.state mem (isAt_field (covers.small.state.offset mem)))
      (by simp [-changed])
  | field field =>
    obtain ⟨schema, slot, reg, handled, found, -, -, rfl, rfl⟩ := expression_field h
    have message : T.message = some schema.payload := by rw [covers.message, handled]; rfl
    have mem := slot?_mem found
    exact .access (accesses_loadValue ..)
      (.message message mem (isAt_field ((covers.small.message _ message).offset mem)) rfl)
      (by simp [-changed])
  | var name =>
    obtain ⟨x, reg, found, -, -, rfl, rfl⟩ := expression_var h
    have handed := (stands.own.lookup_lt found).trans_le stands.slots
    exact .access rfl (.slot handed (isAt_slot (handed.trans covers.small.slots))) (by simp)
  | unary op operand ih =>
    obtain ⟨first, begins, -, rfl⟩ := expression_unary h
    refine (ih stands begins).append (.silent ?_)
    cases op <;> simp [unaryInstruction]
  | binary op lhs rhs ihl ihr =>
    obtain ⟨a, first, f1, p1, b, second, f2, p2, last, hlhs, right, final, rfl⟩ :=
      expression_binary h
    have left := expression_takes hlhs
    have grows1 := expression_grows stands.knows hlhs
    have knows1 := grows1.knows stands.knows
    have grows2 := expression_grows knows1 right
    have written : IsWritten plan .external 0 p2 last q :=
      applyBinary_written left.mem_scratch final
    have later := written.grows (Nat.zero_le _) (grows2.knows knows1)
    have firstPart := ihl (stands.before (grows2.trans later)) hlhs
    have secondPart := ihr ((stands.keeps grows1 left.toKeeps).before later) right
    exact (firstPart.append secondPart).append (applyBinary_stays final)
  | builtin name args ih =>
    exact Application.stays (fun e mem => ih e mem) covers stands (expression_builtin h)
  | call name args ih =>
    exact Application.stays (fun e mem => ih e mem) covers stands (expression_call h)

lemma expression_confines {kept : List Register} (covers : T.Covers plan r)
    (stands : Stands T plan f p q) (used : ∀ reg ∈ kept, reg ∈ f.kept ∧ reg.isCalleeSaved = true)
    (h : expression plan r e f p = .ok (((v, code), f'), q)) : T.Computes kept code :=
  (expression_stays covers stands h).keeping fun i mem reg inside =>
    (expression_spares h).untouched (used reg inside).1 (used reg inside).2 i mem

lemma expression_labels (knows : plan.Knows p)
    (h : expression plan r e f p = .ok (((v, code), f'), q)) :
    (∀ l ∈ boundLabels code, p.labels.size ≤ l.id ∧ l.id < q.labels.size) ∧
        jumpTargets code ⊆ boundLabels code := by
  have written : IsWritten plan .external p.labels.size p code q := expression_written h
  exact (written le_rfl knows 0).closed

end

end Lower

section

variable {T : Territory} {outer outer' : Label → Prop} {n k m : Nat} {pieces others : List Piece}
  {code : Code}

/-- Pieces whose messages have labels from a range, with jumps into the range or to outer labels. -/
structure Territory.Splits (T : Territory) (outer : Label → Prop) (n m : Nat)
    (pieces : List Piece) :
    Prop where
  sound : ∀ piece ∈ pieces, piece.IsSound T
  labels : ∀ piece ∈ pieces, ∀ l ∈ boundLabels piece.inner, n ≤ l.id ∧ l.id < m
  jumps : ∀ piece ∈ pieces, ∀ l ∈ jumpTargets piece.code, outer l ∨ n ≤ l.id ∧ l.id < m
  apart : pieces.Pairwise fun a b => a.Spares b ∧ b.Spares a

namespace Territory.Splits

lemma nil : T.Splits outer n m [] := ⟨by simp, by simp, by simp, .nil⟩

lemma own (computes : T.Computes fixedRegisters code)
    (jumps : ∀ l ∈ jumpTargets code, outer l ∨ n ≤ l.id ∧ l.id < m) : T.Splits outer n m
    [.own code] where
  sound := forall_mem_singleton.2 computes
  labels := forall_mem_singleton.2 (by simp [Piece.inner])
  jumps := forall_mem_singleton.2 jumps
  apart := pairwise_singleton _ _

lemma widen {n' m' : Nat} (h : T.Splits outer n m pieces) (low : n' ≤ n) (high : m ≤ m')
    (inside : ∀ l, outer l → outer' l ∨ n' ≤ l.id ∧ l.id < m') : T.Splits outer' n' m' pieces where
  sound := h.sound
  labels piece mem l bound := by
    have range := h.labels piece mem l bound
    omega
  jumps piece mem l jump := by
    rcases h.jumps piece mem l jump with known | range
    · exact inside l known
    · exact .inr (by omega)
  apart := h.apart

lemma append (first : T.Splits outer n k pieces) (second : T.Splits outer k m others)
    (below : ∀ l, outer l → l.id < n) (low : n ≤ k) (high : k ≤ m) : T.Splits outer n m
    (pieces ++ others) where
  sound := by
    rw [forall_mem_append]
    exact ⟨first.sound, second.sound⟩
  labels := by
    rw [forall_mem_append]
    constructor <;> intro piece mem l bound
    · have range := first.labels piece mem l bound
      omega
    · have range := second.labels piece mem l bound
      omega
  jumps := by
    rw [forall_mem_append]
    constructor <;> intro piece mem l jump
    · rcases first.jumps piece mem l jump with known | range
      · exact .inl known
      · exact .inr (by omega)
    · rcases second.jumps piece mem l jump with known | range
      · exact .inl known
      · exact .inr (by omega)
  apart := by
    refine pairwise_append.2 ⟨first.apart, second.apart, fun a inside b behind => ⟨?_, ?_⟩⟩
    · intro l jump bound
      have range := second.labels b behind l bound
      rcases first.jumps a inside l jump with known | target
      · have early := below l known
        omega
      · omega
    · intro l jump bound
      have range := first.labels a inside l bound
      rcases second.jumps b behind l jump with known | target
      · have early := below l known
        omega
      · omega

end Territory.Splits

lemma Fill.IsSound.code_labels {fill : Fill} (sound : fill.IsSound T) :
    boundLabels fill.code = boundLabels fill.compute ∧ jumpTargets fill.code =
        jumpTargets fill.compute := by
  obtain ⟨a, accesses, -⟩ := sound.store
  obtain ⟨jump, label, -⟩ := straight_of_accesses accesses
  simp [Fill.code, jumpTargets, jump, label]

lemma Territory.Splits.message {fills : List Fill} (payload : record.IsSmall)
    (slots : fills.map (·.slot) = record.slots) (sound : ∀ fill ∈ fills, fill.IsSound T)
    (labels : ∀ fill ∈ fills, ∀ l ∈ boundLabels fill.compute, n ≤ l.id ∧ l.id < m) :
    T.Splits outer n m [.message record fills] := by
  have bound : ∀ l ∈ boundLabels (fills.flatMap Fill.code), n ≤ l.id ∧ l.id < m := by
    intro l mem
    rw [boundLabels_flatMap, mem_flatMap] at mem
    obtain ⟨fill, inside, mem⟩ := mem
    rw [(sound fill inside).code_labels.1] at mem
    exact labels fill inside l mem
  refine ⟨forall_mem_singleton.2 ⟨payload, slots, sound⟩, forall_mem_singleton.2 bound,
    forall_mem_singleton.2 fun l jump => .inr ?_, pairwise_singleton _ _⟩
  have inner : l ∈ jumpTargets (fills.flatMap Fill.code) := by
    simpa [Piece.code, jumpTargets, jump?, move] using jump
  rw [jumpTargets, filterMap_flatMap, mem_flatMap] at inner
  obtain ⟨fill, inside, mem⟩ := inner
  change l ∈ jumpTargets fill.code at mem
  rw [(sound fill inside).code_labels.2] at mem
  exact labels fill inside l ((sound fill inside).closed mem)

def Territory.Encloses (T : Territory) (outer : Label → Prop) (n m : Nat) (records : List Record)
    (code : Code) : Prop :=
  ∃ pieces, code = pieces.flatMap Piece.code ∧ pieces.filterMap Piece.record? = records ∧
    T.Splits outer n m pieces

namespace Territory.Encloses

variable {first second : Code} {records later : List Record}

lemma nil : T.Encloses outer n m [] [] := ⟨[], rfl, rfl, .nil⟩

lemma own (computes : T.Computes fixedRegisters code)
    (jumps : ∀ l ∈ jumpTargets code, outer l ∨ n ≤ l.id ∧ l.id < m) : T.Encloses outer n m
    [] code :=
  ⟨[.own code], by simp [Piece.code], rfl, .own computes jumps⟩

lemma append (before : T.Encloses outer n k records first)
    (behind : T.Encloses outer k m later second) (below : ∀ l, outer l → l.id < n) (low : n ≤ k)
    (high : k ≤ m) :
    T.Encloses outer n m (records ++ later) (first ++ second) := by
  obtain ⟨pieces, rfl, rfl, splits⟩ := before
  obtain ⟨others, rfl, rfl, splits'⟩ := behind
  exact ⟨pieces ++ others, by rw [flatMap_append], by rw [filterMap_append],
    splits.append splits' below low high⟩

lemma within {a b : Label} (first : a.id = n) (second : b.id = n + 1) (more : n + 2 ≤ m)
    (h : T.Encloses (fun l => outer l ∨ l = a ∨ l = b) (n + 2) m records code) :
    T.Encloses outer n m records code := by
  obtain ⟨pieces, same, built, splits⟩ := h
  refine ⟨pieces, same, built, splits.widen (by omega) le_rfl ?_⟩
  rintro l (known | rfl | rfl)
  · exact .inl known
  · exact .inr (by omega)
  · exact .inr (by omega)

lemma confines (h : T.Encloses outer n m records code) : T.Confines records code := by
  obtain ⟨pieces, same, built, splits⟩ := h
  exact ⟨pieces, same, built, splits.sound, splits.apart⟩

end Territory.Encloses

end

namespace Lower

variable {plan : Plan} {r : Routine} {f f' : Frame} {p q : Pool} {v : Value} {code : Code}
  {T : Territory}

attribute [local simp] accesses changed move arith zero check Place.operand

section

variable {fields : List (String × Expr)} {outer : Label → Prop} {cond : Expr} {otherwise : Label}
  {what : String} {body : List Stmt}

lemma saved_fixed : ∀ reg ∈ fixedRegisters, reg.isCalleeSaved = true := by decide

lemma payload_used (level : f.depth = 1) : ∀ reg ∈ rbx :: fixedRegisters, reg ∈ f.kept ∧
    reg.isCalleeSaved = true := by
  rw [Frame.kept, Frame.live, level]
  decide

lemma reg_of_takes (level : f.depth = 0) (takes : f.Takes v.reg f') : v.reg = rbx := by
  have found := takes.reg_eq
  rw [level] at found
  exact (Option.some.inj found).symm

lemma messageFields_fills {schema : SchemaLayout} {slots : List Slot} (covers : T.Covers plan r)
    (given : ∀ slot ∈ slots, (fields.lookup slot.name).isSome = true)
    (offsets : ∀ slot ∈ slots, slot.offset < 0x80000000) (level : f.depth = 1)
    (stands : Stands T plan f p q) (h : messageFields plan r schema rbx fields slots f p =
    .ok ((code, f'), q)) :
    ∃ fills : List Fill, code = fills.flatMap Fill.code ∧ fills.map (·.slot) = slots ∧
      ∀ fill ∈ fills, fill.IsSound T ∧ ∀ l ∈ boundLabels fill.compute, p.labels.size ≤ l.id ∧
      l.id < q.labels.size := by
  induction slots generalizing f p code with
  | nil =>
    obtain ⟨rfl, -⟩ := pure_ok.1 h
    exact ⟨[], rfl, rfl, by simp⟩
  | cons slot rest ih =>
    rw [forall_mem_cons] at given offsets
    obtain ⟨e, found⟩ := Option.isSome_iff_exists.1 given.1
    rw [messageFields] at h
    simp only [found, bind_ok, expect_ok, release_ok, pure_ok, Prod.exists] at h
    obtain ⟨v, first, f1, p1, begins, _, _, _, ⟨-, rfl, rfl⟩, _, _, _, ⟨rfl, rfl⟩, tail, _, q, more,
      rfl, rfl, rfl⟩ := h
    have takes := expression_takes begins
    have grows := expression_grows stands.knows begins
    have written : IsWritten plan .external 0 p1 tail q := messageFields_written more
    have later := written.grows (Nat.zero_le _) (grows.knows stands.knows)
    have computes := expression_confines covers (stands.before later) (payload_used level) begins
    obtain ⟨labels, closed⟩ := expression_labels stands.knows begins
    obtain ⟨fills, rfl, same, sound⟩ := ih given.2 offsets.2 (takes.release.depth.trans level)
      (stands.keeps grows takes.release.toKeeps) more
    refine ⟨⟨slot, first, storeValue slot.type (.near rbx (Int32.ofNat slot.offset)) v.reg⟩ ::
      fills,
      by simp [Fill.code], by simp [same], forall_mem_cons.2 ⟨⟨?_, fun l bound => ?_⟩,
        fun fill mem => ?_⟩⟩
    · exact ⟨computes, closed, ⟨_, rfl, rfl, isAt_field offsets.1⟩, rfl⟩
    · have range := labels l bound
      have le := later.labels_le
      omega
    · refine ⟨(sound fill mem).1, fun l bound => ?_⟩
      have range := (sound fill mem).2 l bound
      have le := grows.labels_le
      omega

/-- A statement in the body of a routine: where it starts, and what there is around it. -/
structure Inside (T : Territory) (plan : Plan) (r : Routine) (outer : Label → Prop) (f : Frame)
    (p : Pool)
    (f' : Frame) (q : Pool) : Prop extends Stands T plan f p q where
  level : f.depth = 0
  final : f'.slots ≤ T.slots
  below : ∀ l, outer l → l.id < p.labels.size
  leave : outer r.epilogue

namespace Inside

variable {p1 : Pool} {n : Nat} (inside : Inside T plan r outer f p f' q)
include inside

lemma epilogue : r.epilogue.id < p.labels.size := inside.below _ inside.leave

lemma first (later : p1.Grows q) (more : f1.Advances n f') : Inside T plan r outer f p f1 p1 where
  toStands := inside.before later
  level := inside.level
  final := more.slots_le.trans inside.final
  below := inside.below
  leave := inside.leave

lemma next (grows : p.Grows p1) (level : f1.depth = 0) (own : f1.HasOwnSlots)
    (more : f1.Advances n f') : Inside T plan r outer f1 p1 f' q where
  toStands := inside.behind grows own (more.slots_le.trans inside.final)
  level := level
  final := inside.final
  below l known := (inside.below l known).trans_le grows.labels_le
  leave := inside.leave

lemma named {a b : Label} {x y : String} {p2 : Pool} (h1 : Emit.fresh x p = .ok (a, p1))
    (h2 : Emit.fresh y p1 = .ok (b, p2)) :
    Inside T plan r (fun l => outer l ∨ l = a ∨ l = b) f p2 f' q ∧ a.id = p.labels.size ∧
      b.id = p.labels.size + 1 ∧ p2.labels.size = p.labels.size + 2 := by
  obtain ⟨id1, size1, -⟩ := Emit.fresh_facts h1
  obtain ⟨id2, size2, -⟩ := Emit.fresh_facts h2
  have grows := (Pool.Grows.names (.fresh h1)).trans (.names (.fresh h2))
  refine ⟨{ inside with
    toStands := inside.behind grows inside.own inside.slots
    below := ?_
    leave := .inl inside.leave }, id1, by omega, by omega⟩
  rintro l (known | rfl | rfl)
  · exact (inside.below l known).trans_le grows.labels_le
  · omega
  · omega

end Inside

lemma encloses_call {n m : Nat} {live : List Register} {args : List Argument} {service : Service}
    (other : service ≠ .allocate) : T.Encloses outer n m []
    (callSequence live service.label args) :=
  .own (.of_call saved_fixed (.inl ⟨service, other, rfl⟩)) (by simp [jumpTargets_callSequence])

section

variable (covers : T.Covers plan r)
include covers

lemma message_encloses {schema : String} (inside : Inside T plan r outer f p f' q)
    (h : message plan r schema fields f p = .ok ((code, f'), q)) :
    T.Encloses outer p.labels.size q.labels.size (T.sent schema) code := by
  simp only [message, bind_ok, lift_ok] at h
  obtain ⟨s, _, _, ⟨checked, rfl, rfl⟩, h⟩ := h
  obtain ⟨known, -, given⟩ := messageSchema_ok_iff.1 checked
  have payload := covers.payloads schema s known
  rw [covers.sent schema s known]
  cases goals : plan.layout.destinations (.agent r.agent.name) s.name with
  | nil =>
    simp only [goals, pure_ok] at h
    obtain ⟨rfl, -⟩ := h
    exact .nil
  | cons goal rest =>
    simp only [goals, bind_ok, release_ok, pure_ok, Prod.exists] at h
    obtain ⟨value, first, f1, p1, begins, second, f2, p2, ends, last, _, _, final, _, _, _,
      ⟨rfl, rfl⟩, rfl, rfl, rfl⟩ := h
    obtain ⟨rfl, rfl, storages, -, rfl⟩ := deliver_ok final
    have takes := callValue_takes begins
    have reg := reg_of_takes inside.level takes
    obtain ⟨_, -, -, rfl, rfl, rfl⟩ := callValue_ok begins
    have depth : f1.depth = 1 := by rw [takes.depth_eq, inside.level]
    dsimp only at reg
    subst reg
    obtain ⟨fills, rfl, slots, sound⟩ := messageFields_fills covers given
      (fun slot => payload.offset) depth
      (inside.toStands.keeps (.refl p) takes.toKeeps) ends
    have live : f.live = [] := by rw [Frame.live, inside.level]; rfl
    have written : IsWritten plan .external 0 p (fills.flatMap Fill.code) p2 :=
      messageFields_written ends
    have grows := written.grows (Nat.zero_le _) inside.knows
    have delivers : T.Encloses outer p2.labels.size p2.labels.size []
        (storages.flatMap fun storage =>
        callSequence f2.live Service.enqueue.label (deliveryArguments s rbx storage)) := by
      clear final
      induction storages with
      | nil => exact .nil
      | cons storage rest ih =>
        exact (encloses_call (by decide)).append ih (fun l known => (inside.below l known).trans_le
          grows.labels_le) le_rfl le_rfl
    have filled : T.Splits outer p.labels.size p2.labels.size [.message s.payload fills] :=
      .message payload slots (fun fill mem => (sound fill mem).1) fun fill mem =>
        (sound fill mem).2
    refine Encloses.append ⟨_, ?_, rfl, filled⟩ delivers inside.below grows.labels_le le_rfl
    rw [live]
    simp [Piece.code, callSequence, passArguments, Argument.pass, Register.arguments,
      Register.result]

lemma value_encloses {last : Code} (stands : Stands T plan f p q)
    (h : expression plan r e f p = .ok (((v, code), f1), q))
    (computes : T.Computes fixedRegisters last) (jumps : ∀ l ∈ jumpTargets last, outer l) :
    T.Encloses outer p.labels.size q.labels.size [] (code ++ last) := by
  obtain ⟨labels, closed⟩ := expression_labels stands.knows h
  refine .own ((expression_confines covers stands (fun reg fixed =>
    ⟨mem_append_right _ fixed, saved_fixed reg fixed⟩) h).append computes) ?_
  rw [jumpTargets_append, forall_mem_append]
  exact ⟨fun l jump => .inr (labels l (closed jump)), fun l jump => .inl (jumps l jump)⟩

lemma stored_encloses {store : Instruction}
    (inside : Inside T plan r outer f p f' q)
    (h : expression plan r e f p = .ok (((v, code), f1), q)) (accesses : store.accesses = [a])
    (owns : T.Owns a) (changed : store.changed = []) : T.Encloses outer p.labels.size q.labels.size
    [] (code ++ [store]) :=
  value_encloses covers inside.toStands h
    (.access accesses owns (changed ▸ fun _ mem => absurd mem not_mem_nil))
    (by simp [jumpTargets, (straight_of_accesses accesses).1])

lemma condition_encloses (inside : Inside T plan r outer f p f' q)
    (known : outer otherwise) (h : condition plan r cond otherwise what f p = .ok ((code, f'), q)) :
    T.Encloses outer p.labels.size q.labels.size [] code := by
  obtain ⟨v, first, e, begins, -, rfl, rfl⟩ := condition_ok h
  exact value_encloses covers inside.toStands begins (.silent (by simp))
    (by simpa [jumpTargets, jump?] using known)

end

def IsEnclosed (T : Territory) (plan : Plan) (r : Routine) (s : Stmt) : Prop :=
  ∀ {outer : Label → Prop} {f f' : Frame} {p q : Pool} {code : Code},
    Inside T plan r outer f p f' q → statement plan r s f p = .ok ((code, f'), q) →
      T.Encloses outer p.labels.size q.labels.size (s.emits.flatMap T.sent) code

lemma block_encloses (each : ∀ s ∈ body, IsEnclosed T plan r s)
    (inside : Inside T plan r outer f p f' q) (h : block plan r body f p = .ok ((code, f'), q)) :
    T.Encloses outer p.labels.size q.labels.size ((Stmt.emitsIn body).flatMap T.sent) code := by
  obtain ⟨e, lowered, rfl⟩ := block_ok h
  replace inside : Inside T plan r outer f.openScope p e q :=
    { inside with toStands := inside.behind (.refl p) inside.own.openScope inside.slots }
  clear h
  generalize f.openScope = f at inside lowered
  induction body generalizing f p code with
  | nil =>
    obtain ⟨-, -, rfl⟩ := statements_nil lowered
    exact .nil
  | cons s rest ih =>
    rw [forall_mem_cons] at each
    obtain ⟨first, f1, p1, tail, begins, htail, rfl⟩ := statements_cons lowered
    have grows := statement_grows inside.knows inside.epilogue begins
    have later : p1.Grows q := by
      exact statements_grows (grows.knows inside.knows)
        (inside.epilogue.trans_le grows.labels_le) htail
    have more := statements_advances (fun _ _ => statement_passes) htail
    rw [Stmt.emitsIn, flatMap_append]
    refine (each.1 (inside.first later more) begins).append (ih each.2 f1 ?_ htail) inside.below
      grows.labels_le later.labels_le
    exact inside.next grows ((statement_advances begins).depth.trans inside.level)
      (statement_ownSlots inside.own begins) more

section

variable {p1 : Pool} {test inner : Code}
  (htest : condition plan r cond otherwise what f p = .ok ((test, f1), p1))
  (hinner : block plan r body f1 p1 = .ok ((inner, f'), q))
include htest hinner

lemma guarded_facts (knows : plan.Knows p) (own : f.HasOwnSlots)
    (epilogue : r.epilogue.id < p.labels.size) :
    p.Grows p1 ∧ p1.Grows q ∧ f'.HasOwnSlots ∧ f'.depth = f.depth := by
  obtain ⟨keeps, depth, -⟩ := condition_rests htest
  obtain ⟨advances, scopes⟩ := block_advances hinner
  have grows := condition_grows knows htest
  exact ⟨grows, block_grows (grows.knows knows) (epilogue.trans_le grows.labels_le) hinner,
    own.of_scopes (scopes.trans keeps.scopes) (keeps.slots ▸ advances.slots_le),
    advances.depth.trans depth⟩

lemma guarded_encloses (covers : T.Covers plan r) (each : ∀ s ∈ body, IsEnclosed T plan r s)
    (inside : Inside T plan r outer f p f' q) (known : outer otherwise) :
    T.Encloses outer p.labels.size q.labels.size ((Stmt.emitsIn body).flatMap T.sent)
        (test ++ inner) := by
  obtain ⟨keeps, depth, -⟩ := condition_rests htest
  have advances := (block_advances hinner).1
  obtain ⟨grows, later, -⟩ := guarded_facts htest hinner inside.knows inside.own inside.epilogue
  have own := inside.own.of_scopes keeps.scopes keeps.slots.symm.le
  exact (condition_encloses covers (inside.first later advances) known htest).append
    (block_encloses each (inside.next grows (depth.trans inside.level) own advances) hinner)
    inside.below grows.labels_le later.labels_le

end

lemma encloses_label {n m : Nat} (l : Label) : T.Encloses outer n m [] [label l] :=
  .own (.silent (by simp)) (by simp [jumpTargets, jump?])

lemma encloses_jmp {n m : Nat} (l : Label) (known : outer target) :
    T.Encloses outer n m [] [jmp target, .label l] := by
  refine .own (.silent (by simp)) fun goal jump => .inl ?_
  obtain rfl := mem_singleton.1 jump
  exact known

lemma statement_encloses {s : Stmt} (covers : T.Covers plan r) : IsEnclosed T plan r s := by
  intro outer f f' p q code inside h
  induction s using Stmt.induction generalizing outer f f' p q code with
  | declare name value =>
    obtain ⟨v, first, f1, x, f2, begins, hx, rfl, rfl⟩ := statement_declare h
    obtain ⟨scope, names, -, rfl, rfl⟩ := Frame.declare_ok hx
    have handed : f1.slots < T.slots := inside.final
    exact stored_encloses covers inside begins rfl
      (.slot handed (isAt_slot (handed.trans covers.small.slots))) rfl
  | assign target value =>
    obtain ⟨v, first, f1, store, begins, stores, rfl, rfl⟩ := statement_assign h
    cases target with
    | state field =>
      obtain ⟨slot, found, -, -, -, rfl⟩ := assignment_state stores
      have mem := covers.state ▸ slot?_mem found
      exact stored_encloses covers inside begins rfl
        (.state mem (isAt_field (covers.small.state.offset mem))) rfl
    | var name =>
      obtain ⟨x, found, -, -, -, rfl⟩ := assignment_var stores
      have takes := expression_takes begins
      have own := inside.own.of_scopes takes.scopes takes.slots.symm.le
      have handed := (own.lookup_lt found).trans_le (takes.slots ▸ inside.slots)
      exact stored_encloses covers inside begins rfl
        (.slot handed (isAt_slot (handed.trans covers.small.slots))) rfl
  | emit schema fields =>
    rw [statement] at h
    simpa [Stmt.emits] using message_encloses covers inside h
  | branch cond onTrue onFalse ihTrue ihFalse =>
    obtain ⟨other, p1, join, p2, test, f1, p3, first, f2, p4, second, h1, h2, htest, begins, ends,
      rfl⟩ := statement_branch h
    obtain ⟨within, id1, id2, size⟩ := inside.named h1 h2
    have more := (block_advances ends).1
    obtain ⟨grows1, grows2, own, depth⟩ := guarded_facts htest begins within.knows within.own
      within.epilogue
    have behind := within.next (grows1.trans grows2) (depth.trans within.level) own more
    have later := block_grows behind.knows behind.epilogue ends
    have ifTrue := guarded_encloses htest begins covers (fun s mem => ihTrue s mem)
      (within.first later more) (.inr (.inl rfl))
    have ifFalse := block_encloses (fun s mem => ihFalse s mem) behind ends
    have le := (grows1.trans grows2).labels_le
    have le' := later.labels_le
    have below := within.below
    rw [size] at ifTrue below
    rw [Stmt.emits, flatMap_append]
    have whole := ((ifTrue.append (encloses_jmp other (.inr (.inr rfl))) below (by omega)
      le_rfl).append ifFalse below (by omega) le').append (encloses_label join) below
      (by omega) le_rfl
    rw [append_nil, append_nil] at whole
    exact .within id1 id2 (by omega) whole
  | loop cond body ih =>
    obtain ⟨head, p1, exit, p2, test, f1, p3, inner, h1, h2, htest, hinner, rfl⟩ := statement_loop h
    obtain ⟨within, id1, id2, size⟩ := inside.named h1 h2
    obtain ⟨grows, later, -⟩ := guarded_facts htest hinner within.knows within.own within.epilogue
    have round := guarded_encloses htest hinner covers (fun s mem => ih s mem) within
      (.inr (.inr rfl))
    have le := (grows.trans later).labels_le
    have below := within.below
    rw [size] at round below
    rw [append_assoc [label head]]
    have whole := ((encloses_label head).append round below le_rfl (by omega)).append
      (encloses_jmp exit (.inr (.inl rfl))) below (by omega) le_rfl
    rw [append_nil, nil_append] at whole
    exact .within id1 id2 (by omega) whole
  | block body ih =>
    rw [statement_block] at h
    exact block_encloses (fun s mem => ih s mem) inside h
  | write value =>
    obtain ⟨v, first, f1, last, begins, final, rfl, rfl⟩ := statement_write h
    obtain ⟨service, other, -, -, rfl⟩ := print_ok final
    exact value_encloses covers inside.toStands begins
      (.of_call saved_fixed (.inl ⟨service, other.2, rfl⟩)) (by simp [jumpTargets_callSequence])
  | report value =>
    obtain ⟨-, -, rfl⟩ | ⟨newline, p1, v, first, f1, shown, last, text, begins, hshown, final,
        rfl, rfl⟩ :=
      statement_report h
    · exact .nil
    · obtain ⟨service, other, -, -, rfl⟩ := print_ok hshown
      obtain ⟨-, -, -, rfl⟩ := call_ok final
      rw [← (Pool.Interns.text text).labels_eq, append_assoc]
      exact value_encloses covers (inside.toStands.keeps (.interns (.text text)) (.refl f)) begins
        ((Territory.Computes.of_call saved_fixed (.inl ⟨service, other.2, rfl⟩)).append
          (.of_call saved_fixed (.inl ⟨.putText, by decide, rfl⟩)))
          (by simp [jumpTargets_callSequence])
  | ret value =>
    rw [statement] at h
    obtain ⟨-, -, rfl, rfl⟩ | ⟨e, v, first, f1, -, -, begins, rfl, rfl⟩ := returnCode_ok h
    · refine .own (.silent (by simp +decide [fixedRegisters])) fun l jump => .inl ?_
      exact mem_singleton.1 jump ▸ inside.leave
    · exact value_encloses covers inside.toStands begins
        (.silent (by simp +decide [Register.result, fixedRegisters]))
        (by simpa [jumpTargets, jump?] using inside.leave)

end

end Lower

end AgentCompiler
