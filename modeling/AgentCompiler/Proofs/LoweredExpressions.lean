import AgentCompiler.Proofs.DataInMemory
import AgentCompiler.Proofs.IsolatedRoutines

/-!
Expressions keep their meaning. The code of an expression, run where the records, the variables and
the pool hold what the expression reads, leaves its value in the register that was taken for it; a
division by zero leads to the call that stops the program. Memory stays as it is, and so do the
registers that hold earlier values.
-/

namespace AgentCompiler

open Process BinaryOperator List
open Register (rax rcx rdx rbp rsp)

variable {n : Nat} {reg : Register}

structure Workspace extends Bearings where
  stack : Word
  stateRecord : Record
  messageRecord : Option Record
  slots : Nat
  words : List (Int64 × SymbolId)

namespace Workspace

variable (W : Workspace) (P : Process)

/-- What a body may change: the fields of the state and the slots of variables. -/
def changeable : Set Word := W.stateRecord.cells W.state ∪ slotCells W.frame W.slots

/-- The stack that a call may use before it leaves the routine. -/
def below : Set Word := cells (W.stack - 16) 16

/-- What a body only reads: the fields of the message and the integers of the pool. -/
def fixed : Set Word := {a | (∃ record, W.messageRecord = some record ∧
    a ∈ record.cells W.message) ∨ ∃ pair ∈ W.words, a ∈ cells (P.symbolAt pair.2) Width.qword.bytes}

/-- All of it can be used, and its parts share no byte. -/
structure Stands : Prop where
  mapped : ∀ a ∈ W.changeable ∪ W.below ∪ W.fixed P, P.mapped a
  fields : Disjoint (W.stateRecord.cells W.state) (slotCells W.frame W.slots)
  stack : Disjoint W.changeable W.below
  fixed : Disjoint (W.fixed P) (W.changeable ∪ W.below)
  state : W.stateRecord.IsSound
  message : ∀ record, W.messageRecord = some record → record.IsInReach
  few : W.slots ≤ 0x10000000

structure Bears (s : Machine) : Prop where
  state : s.regs .stateBase = W.state
  message : s.regs .message = W.message
  frame : s.regs rbp = W.frame
  stack : s.regs rsp = W.stack

structure Shows (message : Fields) (names : List (String × Variable)) (store : Store) (m : Memory) :
    Prop where
  fields : m.HoldsRecord W.state W.stateRecord store.fields
  payload : ∀ record, W.messageRecord = some record → m.HoldsRecord W.message record message
  locals : m.HoldsLocals W.frame names store.locals
  words : ∀ pair ∈ W.words, m.load (P.symbolAt pair.2) .qword = pair.1.toBitVec

/-- Control gets to the call that stops the program. Only the stack below has been written to, and
the stack pointer has moved at most to its end. -/
def Panics (k : Nat) (s : Machine) : Prop :=
  ∃ c, P.Flows ⟨k, s⟩ c ∧ P.code[c.position]? = some (.call Service.abort.label) ∧
    Set.EqOn c.machine.memory s.memory W.belowᶜ ∧
    (∀ reg ∈ fixedRegisters, c.machine.regs reg = s.regs reg) ∧
    (c.machine.regs rsp = W.stack ∨ c.machine.regs rsp = W.stack - 16)

variable {W P} {s t : Machine} {message : Fields} {k : Nat} {reg : Register}

lemma Bears.of_changes (bears : W.Bears s) (changes : s.ChangesOnly (temporaries n) t) :
    W.Bears t where
  state := (changes _ (temporaries_spare n _ (by simp))).trans bears.state
  message := (changes _ (temporaries_spare n _ (by simp))).trans bears.message
  frame := (changes _ (temporaries_spare n _ (by simp))).trans bears.frame
  stack := (changes _ (temporaries_spare n _ (by simp))).trans bears.stack

lemma Panics.of_flows {j : Nat} (flows : P.Flows ⟨k, s⟩ ⟨j, t⟩) (memory : t.memory = s.memory)
    (changes : s.ChangesOnly (temporaries n) t) (panics : W.Panics P j t) : W.Panics P k s := by
  obtain ⟨c, later, stops, same, regs, stack⟩ := panics
  refine ⟨c, flows.trans later, stops, memory ▸ same, fun reg fixed => ?_, stack⟩
  have spared := temporaries_spare n reg (by
    simp only [fixedRegisters, mem_cons, not_mem_nil, or_false] at fixed ⊢
    tauto)
  exact (regs reg fixed).trans (changes reg spared)

end Workspace

namespace Lower

variable {plan : Plan} {r : Routine} {f f' : Frame} {p q : Pool} {v : Value} {code : Code}
  {W : Workspace} {P : Process} {s t : Machine} {message : Fields} {store : Store} {k depth : Nat}
  {word : Word} {e : Expr} {d : Datum} {spent : List Register}

/-- The code of a value, from its first instruction to behind its last. -/
def Gives (P : Process) (k : Nat) (code : Code) (s : Machine) (reg : Register) (word : Word)
    (spent : List Register) : Prop :=
  ∃ t, P.Flows ⟨k, s⟩ ⟨k + code.length, t⟩ ∧ s.Receives reg word spent t

lemma Gives.of_execute (placed : P.Holds k code)
    (runs : ∃ t, P.execute code s = some t ∧ s.Receives reg word spent t) :
    Gives P k code s reg word spent := by
  obtain ⟨t, runs, receives⟩ := runs
  exact ⟨t, flows_execute placed runs, receives⟩

lemma Gives.of_load {i : Instruction} (spent : List Register) (placed : P.Holds k [i])
    (runs : P.effect i s = some (s.set reg word)) : Gives P k [i] s reg word spent :=
  .of_execute placed ⟨_, by rw [execute_cons, runs]; rfl, s.receives_set s.flags reg word spent⟩

lemma Gives.mono {more : List Register} (gives : Gives P k code s reg word spent)
    (sub : spent ⊆ more) : Gives P k code s reg word more := by
  obtain ⟨t, flows, receives⟩ := gives
  exact ⟨t, flows, receives.value, receives.memory, receives.others.mono (cons_subset_cons _ sub)⟩

lemma Gives.append {first second : Code} {later : List Register}
    (flows : P.Flows ⟨k, s⟩ ⟨k + first.length, t⟩) (memory : t.memory = s.memory)
    (changes : s.ChangesOnly (reg :: spent) t)
    (gives : Gives P (k + first.length) second t reg word later) (sub : later ⊆ spent) :
    Gives P k (first ++ second) s reg word spent := by
  obtain ⟨u, onward, receives⟩ := gives
  rw [add_assoc, ← length_append] at onward
  refine ⟨u, flows.trans onward, receives.value, receives.memory.trans memory, ?_⟩
  exact changes.trans receives.others (cons_subset_cons _ sub)

/-- A routine finds in its workspace what a body reads that has been lowered up to a frame. -/
structure Ready (W : Workspace) (P : Process) (r : Routine) (message : Fields) (f : Frame)
    (store : Store) (s : Machine) : Prop where
  stateRecord : W.stateRecord = r.agent.state
  messageRecord : W.messageRecord = r.message.map (·.payload)
  own : f.HasOwnSlots
  slots : f.slots ≤ W.slots
  bears : W.Bears s
  holds : W.Shows P message f.scopes.flatten store s.memory

lemma Ready.of_changes (ready : Ready W P r message f store s) (keeps : f.Keeps f')
    (memory : t.memory = s.memory) (changes : s.ChangesOnly (temporaries n) t) :
    Ready W P r message f' store t where
  stateRecord := ready.stateRecord
  messageRecord := ready.messageRecord
  own := ready.own.of_scopes keeps.scopes keeps.slots.symm.le
  slots := keeps.slots ▸ ready.slots
  bears := ready.bears.of_changes changes
  holds := by
    rw [keeps.scopes, memory]
    exact ready.holds

structure Computes (W : Workspace) (P : Process) (message : Fields) (store : Store) (e : Expr)
    (k : Nat) (code : Code) (s : Machine) (v : Value) (depth : Nat) : Prop where
  value : ∀ d, (e.evaluate message store).run = some (.ok d) →
    d.kind = v.kind ∧ Gives P k code s v.reg d.word (temporaries depth)
  fault : ∀ why, (e.evaluate message store).run = some (.error why) → W.Panics P k s

lemma Computes.of_value (means : (e.evaluate message store).run = some (.ok d))
    (kind : d.kind = v.kind) (gives : Gives P k code s v.reg d.word (temporaries depth)) :
    Computes W P message store e k code s v depth where
  value := by
    intro d' means'
    obtain rfl : d = d' := by simpa [means] using means'
    exact ⟨kind, gives⟩
  fault := by
    intro why means'
    simp [means] at means'

lemma Computes.of_none (means : (e.evaluate message store).run = none) :
    Computes W P message store e k code s v depth where
  value := by simp [means]
  fault := by simp [means]

section

variable {reg : Register} {name field : String}

lemma integer_computes {value : Int64} (stands : W.Stands P) (ready : Ready W P r message f store s)
    (h : integer r value f p = .ok (((v, code), f'), q)) (words : q.words ⊆ W.words)
    (placed : P.Holds k code) : Computes W P message store (.int value) k code s v f.depth := by
  obtain ⟨reg, -, rfl, ⟨-, -, rfl⟩ | ⟨id, pooled, rfl⟩⟩ := integer_ok h
  · exact .of_value (d := .int value) rfl rfl (.of_load _ placed rfl)
  · have mem := words (mem_words_of_internWord pooled)
    have mapped := fun a inside =>
      stands.mapped a (.inr (.inr ⟨(value, id), mem, inside⟩))
    refine .of_value (d := .int value) rfl rfl (.of_load _ placed ?_)
    have content := ready.holds.words (value, id) mem
    simp [read_of_mapped mapped, content, Datum.word]

lemma effect_readField {base : Register} {start : Word} {record : Record} {fields : Fields}
    {slot : Slot} (near : record.IsInReach) (points : s.regs base = start)
    (mapped : ∀ a ∈ record.cells start, P.mapped a)
    (holds : s.memory.HoldsRecord start record fields) (found : record.slot? name = some slot) :
      ∃ x, fields name = some x ∧ x.type = slot.type ∧ P.effect (loadValue slot.type reg
      (.near base (Int32.ofNat slot.offset))) s = some (s.set reg x.read.word) := by
  obtain ⟨mem, x, known, type, bytes⟩ := holds.get found
  have inside : ∀ a ∈ cells (slot.address start) slot.type.size, P.mapped a := fun a near =>
    mapped a (record.cells_subset mem near)
  have place := address_field (P := P) near mem s base
  rw [points] at place
  rw [← type] at inside bytes
  exact ⟨x, known, type, type ▸ effect_loadValue inside place bytes reg⟩

section

variable (stands : W.Stands P) (ready : Ready W P r message f store s)
include stands ready

lemma state_computes (h : expression plan r (.state field) f p = .ok (((v, code), f'), q))
    (placed : P.Holds k code) : Computes W P message store (.state field) k code s v f.depth := by
  obtain ⟨slot, reg, found, -, -, rfl, rfl⟩ := expression_state h
  rw [← ready.stateRecord] at found
  obtain ⟨x, known, type, runs⟩ := effect_readField stands.state.near ready.bears.state
    (fun a inside => stands.mapped a (.inl (.inl (.inl inside)))) ready.holds.fields found
  refine .of_value (d := x.read) (by simp [Expr.evaluate, known]) ?_ (.of_load _ placed runs)
  rw [x.kind_read, type]

lemma field_computes (h : expression plan r (.field field) f p = .ok (((v, code), f'), q))
    (placed : P.Holds k code) : Computes W P message store (.field field) k code s v f.depth := by
  obtain ⟨schema, slot, reg, handled, found, -, -, rfl, rfl⟩ := expression_field h
  have record : W.messageRecord = some schema.payload := by rw [ready.messageRecord, handled]; rfl
  obtain ⟨x, known, type, runs⟩ := effect_readField (stands.message _ record) ready.bears.message
    (fun a inside => stands.mapped a (.inr (.inl ⟨_, record, inside⟩)))
    (ready.holds.payload _ record) found
  refine .of_value (d := x.read) (by simp [Expr.evaluate, known]) ?_ (.of_load _ placed runs)
  rw [x.kind_read, type]

lemma slot_facts {x : Variable} (found : f.lookup? name = some x) :
    P.address s (Variable.address x.slot) = x.place W.frame ∧
      ∀ a ∈ cells (x.place W.frame) Width.qword.bytes, P.mapped a := by
  have lt := (ready.own.lookup_lt found).trans_le ready.slots
  constructor
  · rw [address_slot (lt.trans_le stands.few), ready.bears.frame, Variable.place]
  · exact fun a inside =>
      stands.mapped a (.inl (.inl (.inr (Variable.cells_subset lt stands.few inside))))

lemma var_computes (h : expression plan r (.var name) f p = .ok (((v, code), f'), q))
    (placed : P.Holds k code) : Computes W P message store (.var name) k code s v f.depth := by
  obtain ⟨x, reg, found, -, -, rfl, rfl⟩ := expression_var h
  cases known : store.locals.lookup name with
  | none => exact .of_none (by simp [Expr.evaluate, known])
  | some d =>
    obtain ⟨place, mapped⟩ := slot_facts stands ready found
    obtain ⟨kind, word⟩ := ready.holds.locals.lookup found known
    refine .of_value (d := d) (by simp [Expr.evaluate, known]) kind.symm (.of_load _ placed ?_)
    simp [place, read_of_mapped mapped, word]

end

end

section

lemma abort_panics {id : SymbolId} (stands : W.Stands P) (bears : W.Bears s)
    (placed : P.Holds k (callSequence f.live Service.abort.label [.address id 0])) :
    W.Panics P k s := by
  rw [callSequence_eq] at placed
  obtain ⟨front, call⟩ := holds_append.1 placed
  have below : cells (s.regs rsp - 16) 16 = W.below := by rw [bears.stack]; rfl
  obtain ⟨t, runs, bottom, changes, -, -, same⟩ := execute_before_call f.pushed_sublist
    [.address id 0] fun x near => stands.mapped x (.inl (.inr (below ▸ near)))
  have apart : ∀ reg ∈ fixedRegisters, reg ∉ rsp :: Register.arguments := by decide
  refine ⟨⟨_, t⟩, flows_execute front runs, (holds_cons.1 call).1, below ▸ same,
    fun reg fixed => changes reg (apart reg fixed), ?_⟩
  rw [← bears.stack, bottom]
  rcases (pushedSize_facts f.pushed_sublist.length_le).2 with none | two
  · exact .inl (by simp [none])
  · exact .inr (by simp [two])

lemma unary_computes {op : UnaryOperator} {operand : Expr}
    (h : expression plan r (.unary op operand) f p = .ok (((v, code), f'), q))
    (ih : ∀ {first : Code}, expression plan r operand f p = .ok (((v, first), f'), q) →
      P.Holds k first → Computes W P message store operand k first s v f.depth) (placed :
      P.Holds k code) :
    Computes W P message store (.unary op operand) k code s v f.depth := by
  obtain ⟨first, lowered, kind, rfl⟩ := expression_unary h
  obtain ⟨before, behind⟩ := holds_append.1 placed
  have computes := ih lowered before
  constructor
  · intro d means
    obtain ⟨x, gives, means⟩ := Evaluation.bind_ok.1 means
    have applied := Evaluation.lift_ok.1 means
    obtain ⟨same, t, flows, receives⟩ := computes.value x gives
    refine ⟨?_, .append flows receives.memory receives.others
      (.of_execute behind (execute_unary receives.value applied)) (by simp)⟩
    rw [← same]
    cases op <;> cases x <;> simp [UnaryOperator.apply] at applied <;> subst applied <;> rfl
  · intro why means
    obtain fails | ⟨x, -, means⟩ := Evaluation.bind_eq_error.1 means
    · exact computes.fault why fails
    · exact absurd means Evaluation.lift_ne_error

variable {op : BinaryOperator} {a b : Value} {x y : Datum} {why : Fault}

lemma kind_of_compare {cond : Condition} (compares : comparison? op = some cond)
    (means : (op.apply x y).run = some (.ok d)) : d.kind = .bool := by
  obtain ⟨flag, -, rfl⟩ := comparison_holds compares means
  rfl

lemma kind_of_arithmetic (plain : comparison? op = none) (means : (op.apply x y).run = some (.ok d))
    : d.kind = x.kind := by
  cases x <;> cases y <;> cases op <;> simp [comparison?] at plain <;> simp [apply, applyInt,
    applyBool] at means
  case int.int.div m n | int.int.mod m n =>
    split at means <;> simp at means
    subst means
    rfl
  all_goals
    subst means
    rfl

lemma fault_of_apply (means : (op.apply x y).run = some (.error why)) :
    (op = .div ∨ op = .mod) ∧ y = .int 0 := by
  cases x <;> cases y <;> cases op <;> simp [apply, applyInt, applyBool] at means
  case int.int.div m n | int.int.mod m n =>
    split at means
    case isTrue zero => simp [zero]
    case isFalse => simp at means

lemma division_of_apply {isQuotient : Bool}
    (means : ((if isQuotient then .div else .mod : BinaryOperator).apply x y).run = some (.ok d)) :
    ∃ m n, x = .int m ∧ y = .int n ∧ n ≠ 0 ∧ d = .int (if isQuotient then m / n else m % n) := by
  cases isQuotient <;> cases x <;> cases y <;> simp [apply, applyInt, applyBool] at means
  case false.int.int m n | true.int.int m n =>
    split at means
    case isTrue => simp at means
    case isFalse nonzero =>
      simp at means
      exact ⟨m, n, rfl, rfl, nonzero, means.symm⟩

lemma apply_of_str (kind : x.kind = .str) : (op.apply x y).run = none := by
  cases x <;> simp only [Datum.kind, reduceCtorEq] at kind
  rfl

lemma applyBinary_gives (distinct : P.HasDistinctLabels)
    (h : applyBinary r op a b f p = .ok (((v, code), f'), q)) (placed : P.Holds k code)
    (free : a.reg ∉ [rax, rcx, rdx]) (kept : b.reg ∉ [rax, rcx, rdx])
    (left : s.regs a.reg = x.word) (right : s.regs b.reg = y.word) (first : x.kind = a.kind)
    (means : (op.apply x y).run = some (.ok d)) :
    d.kind = v.kind ∧ v.reg = a.reg ∧ Gives P k code s a.reg d.word [rax, rcx, rdx] := by
  simp only [mem_cons, not_mem_nil, or_false, not_or] at free kept
  obtain ⟨-, ⟨texts, -⟩ | ⟨-, cond, compares, rfl, -, -, -, rfl⟩ |
    ⟨-, plain, -, rfl, what, e, lowered, -⟩⟩ := applyBinary_ok h
  · rw [apply_of_str (first.trans texts)] at means
    cases means
  · refine ⟨kind_of_compare compares means, rfl, ?_⟩
    exact (Gives.of_execute placed (execute_compare compares left right means)).mono (by simp)
  · refine ⟨(kind_of_arithmetic plain means).trans first, rfl, ?_⟩
    obtain ⟨isQuotient, rfl, divides⟩ | ⟨noQuotient, noRemainder, -, -, -, rfl⟩ :=
      arithmetic_ok lowered
    · obtain ⟨_, _, -, -, nonzero, _, general, _, done, -, -, -, rfl⟩ := division_ok divides
      obtain ⟨m, n, rfl, rfl, divisor, rfl⟩ := division_of_apply means
      have gives : Gives P k _ s v.reg _ [rax, rdx] :=
        division_flows distinct placed ⟨kept.1, kept.2.2⟩ left right divisor
      exact gives.mono (by simp)
    · have runs := execute_arithmetic (P := P) noQuotient noRemainder plain free.2.1 left
        right means
      exact (Gives.of_execute placed runs).mono (by simp)

lemma applyBinary_panics (stands : W.Stands P) (bears : W.Bears s)
    (h : applyBinary r op a b f p = .ok (((v, code), f'), q)) (placed : P.Holds k code)
    (right : s.regs b.reg = y.word) (first : x.kind = a.kind)
    (means : (op.apply x y).run = some (.error why)) : W.Panics P k s := by
  obtain ⟨divides, rfl⟩ := fault_of_apply means
  obtain ⟨-, ⟨texts, -⟩ | ⟨-, cond, compares, -⟩ | ⟨-, -, -, -, what, e, lowered, -⟩⟩ :=
    applyBinary_ok h
  · rw [apply_of_str (first.trans texts)] at means
    cases means
  · rcases divides with rfl | rfl <;> cases compares
  · obtain ⟨isQuotient, -, divides⟩ | ⟨noQuotient, noRemainder, -⟩ := arithmetic_ok lowered
    · obtain ⟨id, _, -, -, nonzero, _, general, _, done, -, -, -, rfl⟩ := division_ok divides
      obtain ⟨stop, flags, flows⟩ := division_stops placed right
      have bears' : W.Bears ({ s with flags } : Machine) := ⟨bears.1, bears.2, bears.3, bears.4⟩
      exact (abort_panics stands bears' stop).of_flows (n := 0) flows rfl fun _ _ => rfl
    · rcases divides with rfl | rfl
      · exact absurd rfl noQuotient
      · exact absurd rfl noRemainder

lemma binary_computes {lhs rhs : Expr} {first second last : Code} {f1 f2 : Frame}
    (stands : W.Stands P) (distinct : P.HasDistinctLabels) (bears : W.Bears s)
    (takes1 : f.Takes a.reg f1) (takes2 : f1.Takes b.reg f2)
    (lowered : applyBinary r op a b f2 p = .ok (((v, last), f'), q))
    (left : Computes W P message store lhs k first s a f.depth)
    (right : ∀ t, t.memory = s.memory → s.ChangesOnly (temporaries f.depth) t →
      Computes W P message store rhs (k + first.length) second t b f1.depth)
    (placed : P.Holds k (first ++ second ++ last)) :
    Computes W P message store (.binary op lhs rhs) k (first ++ second ++ last) s v f.depth := by
  obtain ⟨before, after⟩ := holds_append.1 placed
  obtain ⟨mem1, kept1, free1⟩ := takes1.reg_facts
  obtain ⟨mem2, -, free2⟩ := takes2.reg_facts
  have deeper : temporaries f1.depth ⊆ temporaries f.depth := temporaries_subset
    (takes1.depth_eq ▸ Nat.le_succ _)
  -- What is known when the first operand has been computed, and when both have been.
  have one : ∀ x, (lhs.evaluate message store).run = some (.ok x) →
      ∃ t, P.Flows ⟨k, s⟩ ⟨k + first.length, t⟩ ∧ t.memory = s.memory ∧
        s.ChangesOnly (temporaries f.depth) t ∧ x.kind = a.kind ∧ t.regs a.reg = x.word := by
    intro x gives
    obtain ⟨kind, t, flows, receives⟩ := left.value x gives
    have changes := receives.others.mono (cons_subset.2 ⟨mem1, List.Subset.refl _⟩)
    exact ⟨t, flows, receives.memory, changes, kind, receives.value⟩
  have both : ∀ x y, (lhs.evaluate message store).run = some (.ok x) →
      (rhs.evaluate message store).run = some (.ok y) → ∃ t, P.Flows ⟨k, s⟩
        ⟨k + (first ++ second).length, t⟩ ∧ t.memory = s.memory ∧ s.ChangesOnly
        (temporaries f.depth) t ∧ x.kind = a.kind ∧ t.regs a.reg = x.word ∧ t.regs b.reg =
        y.word := by
    intro x y gives1 gives2
    obtain ⟨t, flows1, memory1, changes1, kind, value⟩ := one x gives1
    obtain ⟨-, u, flows2, receives⟩ := (right t memory1 changes1).value y gives2
    have changes2 := receives.others.mono (cons_subset.2 ⟨mem2, List.Subset.refl _⟩)
    rw [add_assoc, ← length_append] at flows2
    exact ⟨u, flows1.trans flows2, receives.memory.trans memory1, changes1.trans changes2 deeper,
      kind, (changes2 a.reg kept1).trans value, receives.value⟩
  constructor
  · intro d means
    obtain ⟨x, gives1, means⟩ := Evaluation.bind_ok.1 means
    obtain ⟨y, gives2, means⟩ := Evaluation.bind_ok.1 means
    obtain ⟨t, flows, memory, changes, kind, atLeft, atRight⟩ := both x y gives1 gives2
    obtain ⟨result, same, gives⟩ := applyBinary_gives distinct lowered after free1 free2 atLeft
      atRight kind means
    refine ⟨result, ?_⟩
    rw [same]
    exact .append flows memory (changes.mono (subset_cons_self ..)) gives (subset_append_left ..)
  · intro why means
    obtain fails | ⟨x, gives1, means⟩ := Evaluation.bind_eq_error.1 means
    · exact left.fault why fails
    obtain fails | ⟨y, gives2, means⟩ := Evaluation.bind_eq_error.1 means
    · obtain ⟨t, flows, memory, changes, -⟩ := one x gives1
      exact ((right t memory changes).fault why fails).of_flows flows memory changes
    · obtain ⟨t, flows, memory, changes, kind, -, atRight⟩ := both x y gives1 gives2
      exact (applyBinary_panics stands (bears.of_changes changes) lowered after atRight kind
        means).of_flows flows memory changes

end

lemma expression_computes (stands : W.Stands P) (distinct : P.HasDistinctLabels)
    (ready : Ready W P r message f store s) (knows : plan.Knows p)
    (h : expression plan r e f p = .ok (((v, code), f'), q)) (words : q.words ⊆ W.words)
    (placed : P.Holds k code) : Computes W P message store e k code s v f.depth := by
  induction e using Expr.induction generalizing f f' p q v code k s with
  | int value =>
    rw [expression] at h
    exact integer_computes stands ready h words placed
  | bool value =>
    obtain ⟨reg, -, -, rfl, rfl⟩ := expression_bool h
    refine .of_value (d := .bool value) rfl rfl (.of_load _ placed ?_)
    cases value <;> rfl
  | str value => exact .of_none rfl
  | state field => exact state_computes stands ready h placed
  | field field => exact field_computes stands ready h placed
  | var name => exact var_computes stands ready h placed
  | unary op operand ih =>
    exact unary_computes h (fun lowered before => ih ready knows lowered words before) placed
  | binary op lhs rhs ihl ihr =>
    obtain ⟨a, first, f1, p1, b, second, f2, p2, last, lowered1, lowered2, lowered3, rfl⟩ :=
      expression_binary h
    have takes1 := expression_takes lowered1
    have takes2 := expression_takes lowered2
    have grows1 := expression_grows knows lowered1
    have knows1 := grows1.knows knows
    have grows2 := expression_grows knows1 lowered2
    have written : IsWritten plan .external 0 p2 last q :=
      applyBinary_written takes1.mem_scratch lowered3
    have later := written.grows (Nat.zero_le _) (grows2.knows knows1)
    have words2 := List.Subset.trans later.words_subset words
    have words1 := List.Subset.trans grows2.words_subset words2
    obtain ⟨⟨before, between⟩, -⟩ := holds_append.1 placed |>.imp holds_append.1 id
    refine binary_computes stands distinct ready.bears takes1 takes2 lowered3
      (ihl ready knows lowered1 words1 before) (fun t memory changes => ?_) placed
    exact ihr (ready.of_changes takes1.toKeeps memory changes) knows1 lowered2 words2 between
  | builtin name args ih => exact .of_none rfl
  | call name args ih => exact .of_none rfl

end Lower

end AgentCompiler
