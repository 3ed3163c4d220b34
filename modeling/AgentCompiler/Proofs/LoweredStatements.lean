import AgentCompiler.Proofs.LoweredExpressions

/-!
Statements keep their meaning. Where a body runs from a store to another one, its code takes a
machine that shows the first store to one that shows the second. Control goes to the end of the
code, or to the epilogue of the routine with the returned value in the result register, or to the
call that stops the program. Nothing but fields of the state and slots of variables has changed
then, apart from the stack that the last of these calls uses.
-/

namespace AgentCompiler

open Process Instruction List Option Set
open Register (rax rsp)

namespace Workspace

variable {W : Workspace} {P : Process} {s t u : Machine} {message : Fields} {store : Store}
  {names inner : List (String × Variable)} {k j : Nat} {r : Routine} {ending : Ending}
  {c : Config}

/-- From one machine to another only changeable memory is different, and the registers still point
to the workspace. -/
structure Keeps (W : Workspace) (s t : Machine) : Prop where
  bears : W.Bears t
  memory : EqOn t.memory s.memory W.changeableᶜ

lemma Keeps.refl (bears : W.Bears s) : W.Keeps s s := ⟨bears, fun _ _ => rfl⟩

lemma Keeps.trans (first : W.Keeps s t) (second : W.Keeps t u) : W.Keeps s u :=
  ⟨second.bears, second.memory.trans first.memory⟩

lemma Keeps.of_changes {n : Nat} (bears : W.Bears s) (memory : t.memory = s.memory)
    (changes : s.ChangesOnly (temporaries n) t) : W.Keeps s t :=
  ⟨bears.of_changes changes, fun _ _ => congrFun memory _⟩

def Ended (W : Workspace) (P : Process) (r : Routine) (s : Machine) (finish : Nat)
    (c : Config) : Ending → Prop
  | .normal => c.position = finish ∧ W.Keeps s c.machine
  | .returned d => P.labelPosition r.epilogue = some c.position ∧
      c.machine.regs .result = d.word ∧ W.Keeps s c.machine ∧
      ∀ kind, Lower.returnKind r.returns = some kind → d.kind = kind
  | .failed _ => P.code[c.position]? = some (.call Service.abort.label) ∧
      (∀ reg ∈ fixedRegisters, c.machine.regs reg = s.regs reg) ∧
      (c.machine.regs rsp = W.stack ∨ c.machine.regs rsp = W.stack - 16) ∧
      EqOn c.machine.memory s.memory (W.changeable ∪ W.below)ᶜ

lemma Ended.of_keeps (keeps : W.Keeps s t) (bears : W.Bears s)
    (ended : W.Ended P r t j c ending) : W.Ended P r s j c ending := by
  cases ending with
  | normal => exact ⟨ended.1, keeps.trans ended.2⟩
  | returned d => exact ⟨ended.1, ended.2.1, keeps.trans ended.2.2.1, ended.2.2.2⟩
  | failed fault =>
    obtain ⟨stops, regs, stack, same⟩ := ended
    refine ⟨stops, fun reg fixed => (regs reg fixed).trans ?_, stack,
      same.trans (keeps.memory.mono (compl_subset_compl.2 subset_union_left))⟩
    simp only [fixedRegisters, mem_cons, not_mem_nil, or_false] at fixed
    rcases fixed with rfl | rfl | rfl
    · rw [keeps.bears.state, bears.state]
    · rw [keeps.bears.message, bears.message]
    · rw [keeps.bears.frame, bears.frame]

lemma Ended.early {finish : Nat} (early : ending ≠ .normal)
    (ended : W.Ended P r s j c ending) : W.Ended P r s finish c ending := by
  cases ending with
  | normal => exact absurd rfl early
  | returned d => exact ended
  | failed fault => exact ended

lemma Ended.of_panics (panics : W.Panics P k s) (why : Fault) :
    ∃ c, P.Flows ⟨k, s⟩ c ∧ EqOn c.machine.memory s.memory W.belowᶜ ∧
      W.Ended P r s j c (.failed why) := by
  obtain ⟨c, flows, stops, same, regs, stack⟩ := panics
  exact ⟨c, flows, same, stops, regs, stack, same.mono (compl_subset_compl.2 subset_union_right)⟩

section

variable {m n : Memory}

section

variable (stands : W.Stands P) (holds : W.Shows P message names store m)
include stands holds

lemma Shows.fixed (same : EqOn n m (W.changeable ∪ W.below)ᶜ) :
    (∀ record, W.messageRecord = some record → n.HoldsRecord W.message record message) ∧
      ∀ pair ∈ W.words, n.load (P.symbolAt pair.2) .qword = pair.1.toBitVec := by
  have kept := same.mono stands.fixed.subset_compl_right
  constructor
  · intro record known
    exact (holds.payload record known).congr (kept.mono fun a inside =>
      .inl ⟨record, known, inside⟩)
  · intro pair mem
    exact (Memory.load_congr (kept.mono fun a inside => .inr ⟨pair, mem, inside⟩)).trans
      (holds.words pair mem)

lemma Shows.of_below (lt : ∀ pair ∈ names, pair.2.slot < W.slots) (same : EqOn n m W.belowᶜ) :
    W.Shows P message names store n := by
  have kept := same.mono stands.stack.subset_compl_right
  obtain ⟨payload, words⟩ := holds.fixed stands
    (same.mono (compl_subset_compl.2 subset_union_right))
  exact ⟨holds.fields.congr (kept.mono subset_union_left), payload,
    holds.locals.congr lt stands.few (kept.mono subset_union_right), words⟩

lemma Shows.storeField {slot : Slot} {name : String} {d : Datum} {v : Stored}
    (lt : ∀ pair ∈ names, pair.2.slot < W.slots) (found : W.stateRecord.slot? name = some slot)
    (keeps : Stored.ofDatum? slot.type d = some v) :
    EqOn (m.store (slot.address W.state) slot.type.width d.word) m W.changeableᶜ ∧
      W.Shows P message names { store with fields := Function.update store.fields name (some v) }
        (m.store (slot.address W.state) slot.type.width d.word) := by
  have mem : slot ∈ W.stateRecord.slots := (holds.fields.get found).1
  have same : EqOn (m.store (slot.address W.state) slot.type.width d.word) m
      (W.stateRecord.cells W.state)ᶜ := by
    refine (Memory.store_eqOn m _ _ _).mono (compl_subset_compl.2 ?_)
    rw [slot.type.bytes_width]
    exact Record.cells_subset mem
  have outside : (W.changeable)ᶜ ⊆ (W.stateRecord.cells W.state)ᶜ :=
    compl_subset_compl.2 subset_union_left
  obtain ⟨payload, words⟩ := holds.fixed stands
    (same.mono ((compl_subset_compl.2 subset_union_left).trans outside))
  exact ⟨same.mono outside, holds.fields.store stands.state found keeps, payload,
    holds.locals.congr lt stands.few (same.mono stands.fields.subset_compl_left), words⟩

lemma Shows.storeSlot {x : Variable} {w : Word} (lt : x.slot < W.slots)
    {locals : List (String × Datum)} (stored : (m.store (x.place W.frame) .qword w).HoldsLocals
    W.frame inner locals) :
    EqOn (m.store (x.place W.frame) .qword w) m W.changeableᶜ ∧
      W.Shows P message inner { store with locals } (m.store (x.place W.frame) .qword w) := by
  have same : EqOn (m.store (x.place W.frame) .qword w) m (slotCells W.frame W.slots)ᶜ :=
    (Memory.store_eqOn m _ _ _).mono (compl_subset_compl.2 (Variable.cells_subset lt stands.few))
  have outside : (W.changeable)ᶜ ⊆ (slotCells W.frame W.slots)ᶜ :=
    compl_subset_compl.2 subset_union_right
  obtain ⟨payload, words⟩ := holds.fixed stands
    (same.mono ((compl_subset_compl.2 subset_union_left).trans outside))
  exact ⟨same.mono outside, holds.fields.congr (same.mono stands.fields.subset_compl_right),
    payload, stored, words⟩

end

end

end Workspace

namespace Lower

variable {plan : Plan} {r : Routine} {f f' f1 : Frame} {p q : Pool} {v : Value} {code : Code}
  {W : Workspace} {P : Process} {s t : Machine} {message : Fields} {store store' : Store} {k : Nat}
  {ending : Ending} {d : Datum} {body : List Stmt} {e : Expr} {st : Stmt}

/-- What the code of a body does when the body gets to a store and an ending. The variables that are
in memory then are those that were known at the start and some of those declared since; at a normal
end it is all of them. -/
def Carries (W : Workspace) (P : Process) (r : Routine) (message : Fields) (f f' : Frame) (k : Nat)
    (code : Code) (s : Machine) (store : Store) (ending : Ending) : Prop :=
  ∃ c names, P.Flows ⟨k, s⟩ c ∧ W.Ended P r s (k + code.length) c ending ∧
    f.scopes.flatten <:+ names ∧ names <:+ f'.scopes.flatten ∧
    (ending = .normal → names = f'.scopes.flatten) ∧
    W.Shows P message names store c.machine.memory

lemma returnKind_of_bare (h : returnCode plan r none f p = .ok ((code, f'), q)) {kind : ValueKind}
    (known : returnKind r.returns = some kind) : .int = kind := by
  by_cases status : r.returns = .status
  · simpa [status, returnKind] using known
  · simp only [returnCode, known, if_neg status, bind_ok, throw_ok, false_and, exists_false] at h

/-- The parts of a body are written from pools that grow, in frames that grow. -/
structure IsCovered (W : Workspace) (plan : Plan) (r : Routine) (p : Pool) (f' : Frame) (q : Pool) :
    Prop where
  knows : plan.Knows p
  epilogue : r.epilogue.id < p.labels.size
  words : q.words ⊆ W.words
  slots : f'.slots ≤ W.slots

/-- However a body is lowered and wherever its code stands, the code does what the body does. -/
def IsCarried (W : Workspace) (P : Process) (plan : Plan) (r : Routine) (message : Fields)
    (body : List Stmt) (store store' : Store) (ending : Ending) : Prop :=
  ∀ ⦃f f' : Frame⦄ ⦃p q : Pool⦄ ⦃code : Code⦄ ⦃k : Nat⦄ ⦃s : Machine⦄,
    Ready W P r message f store s → IsCovered W plan r p f' q →
    statements plan r body f p = .ok ((code, f'), q) → P.Holds k code →
    Carries W P r message f f' k code s store' ending

lemma statements_single (plan : Plan) (r : Routine) (st : Stmt) (f : Frame) (p : Pool) :
    statements plan r [st] f p = statement plan r st f p := by
  simp [statements]

lemma isCarried_single (carries : ∀ {f f' : Frame} {p q : Pool} {code : Code} {k : Nat}
    {s : Machine}, Ready W P r message f store s → IsCovered W plan r p f' q →
    statement plan r st f p = .ok ((code, f'), q) → P.Holds k code →
    Carries W P r message f f' k code s store' ending) :
    IsCarried W P plan r message [st] store store' ending := by
  intro f f' p q code k s ready covered h placed
  exact carries ready covered ((statements_single ..).symm.trans h) placed

lemma Ready.slot_lt (ready : Ready W P r message f store s) :
    ∀ pair ∈ f.scopes.flatten, pair.2.slot < W.slots := fun pair mem =>
  (ready.own.lt pair mem).trans_le ready.slots

lemma Ready.few (stands : W.Stands P) (ready : Ready W P r message f store s) :
    ∀ pair ∈ f.scopes.flatten, pair.2.slot < 0x10000000 := fun pair mem =>
  (ready.slot_lt pair mem).trans_le stands.few

section

variable {first : Code} {f2 : Frame} (stands : W.Stands P) (distinct : P.HasDistinctLabels)
  (ready : Ready W P r message f store s) (covered : IsCovered W plan r p f2 q)
  (lowered : expression plan r e f p = .ok (((v, first), f1), q)) (placed : P.Holds k first)
include stands distinct ready covered lowered placed

lemma operand_value (gives : (e.evaluate message store).run = some (.ok d)) :
    d.kind = v.kind ∧ ∃ t, P.Flows ⟨k, s⟩ ⟨k + first.length, t⟩ ∧ t.regs v.reg = d.word ∧
      t.memory = s.memory ∧ s.ChangesOnly (temporaries f.depth) t := by
  obtain ⟨kind, t, flows, receives⟩ :=
    (expression_computes stands distinct ready covered.knows lowered covered.words placed).value d
      gives
  have mem := (expression_takes lowered).reg_facts.1
  exact ⟨kind, t, flows, receives.value, receives.memory,
    receives.others.mono (cons_subset.2 ⟨mem, List.Subset.refl _⟩)⟩

lemma fault_carries {why : Fault} (grows : f.scopes.flatten <:+ f'.scopes.flatten)
    (fails : (e.evaluate message store).run = some (.error why)) :
    Carries W P r message f f' k code s store (.failed why) := by
  have panics := (expression_computes stands distinct ready covered.knows lowered covered.words
    placed).fault why fails
  obtain ⟨c, flows, same, ended⟩ := Workspace.Ended.of_panics panics why
  exact ⟨c, f.scopes.flatten, flows, ended, suffix_rfl, grows, by simp,
    ready.holds.of_below stands ready.slot_lt same⟩

end

lemma store_carries {first : Code} {i : Instruction} {m : Memory} {n : Nat}
    (placed : P.Holds k (first ++ [i])) (bears : W.Bears s)
    (flows : P.Flows ⟨k, s⟩ ⟨k + first.length, t⟩) (changes : s.ChangesOnly (temporaries n) t)
    (runs : P.effect i t = some { t with memory := m })
    (same : EqOn m s.memory W.changeableᶜ) (grows : f.scopes.flatten <:+ f'.scopes.flatten)
    (holds : W.Shows P message f'.scopes.flatten store' m) :
    Carries W P r message f f' k (first ++ [i]) s store' .normal := by
  have last := (holds_cons.1 (holds_append.1 placed).2).1
  have bears' := bears.of_changes changes
  refine ⟨⟨k + first.length + 1, { t with memory := m }⟩, _, flows.tail (.effect last runs),
    ⟨by simp [add_assoc], ⟨bears'.1, bears'.2, bears'.3, bears'.4⟩, same⟩, grows, suffix_rfl,
    fun _ => rfl, holds⟩

lemma effect_storeSlot {x : Variable} {reg : Register} (stands : W.Stands P) (bears : W.Bears t)
    (lt : x.slot < W.slots) : P.effect (.move (Variable.address x.slot) reg) t =
      some { t with memory := t.memory.store (x.place W.frame) .qword (t.regs reg) } := by
  have place : P.address t (Variable.address x.slot) = x.place W.frame := by
    rw [address_slot (lt.trans_le stands.few), bears.frame, Variable.place]
  have mapped := fun a inside =>
    stands.mapped a (.inl (.inl (.inr (Variable.cells_subset lt stands.few inside))))
  simp [place, write_of_mapped mapped]

section

variable (stands : W.Stands P) (distinct : P.HasDistinctLabels)
include stands distinct

lemma declare_isCarried {name : String} (gives : (e.evaluate message store).run = some (.ok d)) :
    IsCarried W P plan r message [.declare name e] store (store.declare name d) .normal := by
  refine isCarried_single fun {f f' p q code k s} ready covered h placed => ?_
  obtain ⟨v, first, f1, x, f2, lowered, declared, rfl, rfl⟩ := statement_declare h
  obtain ⟨before, behind⟩ := holds_append.1 placed
  obtain ⟨kind, t, flows, atReg, memory, changes⟩ :=
    operand_value stands distinct ready covered lowered before gives
  have takes := expression_takes lowered
  obtain ⟨scope, outer, scopes, rfl, rfl⟩ := Frame.declare_ok declared
  have lt : f1.slots < W.slots := covered.slots
  -- The new variable has a slot behind those of all older ones.
  have names : (((name, ⟨f1.slots, v.kind⟩) :: scope) :: outer).flatten =
      (name, (⟨f1.slots, v.kind⟩ : Variable)) :: f.scopes.flatten := by
    rw [← takes.scopes, scopes]
    rfl
  have other : ∀ pair ∈ f.scopes.flatten, pair.2.slot ≠ f1.slots := by
    intro pair mem
    have below := ready.own.lt pair mem
    rw [takes.slots]
    omega
  have stored : (s.memory.store (Variable.place ⟨f1.slots, v.kind⟩ W.frame) .qword
      d.word).HoldsLocals W.frame ((name, ⟨f1.slots, v.kind⟩) :: f.scopes.flatten) ((name, d) ::
      store.locals) :=
    .cons ⟨rfl, kind.symm, Memory.load_store_qword ..⟩
      (ready.holds.locals.store_other (ready.few stands) (lt.trans_le stands.few) other)
  obtain ⟨same, holds⟩ := ready.holds.storeSlot stands lt stored
  refine store_carries placed ready.bears flows changes ?_ same ?_ ?_
  · rw [effect_storeSlot (x := ⟨f1.slots, v.kind⟩) stands (ready.bears.of_changes changes) lt,
      memory, atReg]
  · exact names ▸ suffix_cons _ _
  · exact names ▸ holds

lemma assign_isCarried {target : Target} (gives : (e.evaluate message store).run = some (.ok d))
    (stores : store.assign target d = some store') :
    IsCarried W P plan r message [.assign target e] store store' .normal := by
  refine isCarried_single fun {f f' p q code k s} ready covered h placed => ?_
  obtain ⟨v, first, f1, last, lowered, assigned, rfl, rfl⟩ := statement_assign h
  have before := (holds_append.1 placed).1
  obtain ⟨kind, t, flows, atReg, memory, changes⟩ :=
    operand_value stands distinct ready covered lowered before gives
  have takes := expression_takes lowered
  have bears := ready.bears.of_changes changes
  have names : f.scopes.flatten = (f1.release
      [v.reg]).scopes.flatten := by rw [takes.release.scopes]
  cases target with
  | state field =>
    obtain ⟨slot, found, -, -, -, rfl⟩ := assignment_state assigned
    rw [← ready.stateRecord] at found
    obtain ⟨mem, old, known, type, -⟩ := ready.holds.fields.get found
    have updates : ∃ new, Stored.ofDatum? slot.type d = some new ∧
        { store with fields := Function.update store.fields field (some new) } = store' := by
      simpa [Store.assign, known, type, bind_eq_some_iff] using stores
    obtain ⟨new, keeps, rfl⟩ := updates
    obtain ⟨same, holds⟩ := ready.holds.storeField stands ready.slot_lt found keeps
    have place : P.address t (.near .stateBase (Int32.ofNat slot.offset)) = slot.address
        W.state := by
      rw [address_field stands.state.near mem, bears.state]
    have mapped : ∀ a ∈ cells (slot.address W.state) slot.type.size, P.mapped a := fun a inside =>
      stands.mapped a (.inl (.inl (.inl ⟨slot, mem, inside⟩)))
    refine store_carries placed ready.bears flows changes ?_ same ?_ (names ▸ holds)
    · rw [effect_storeValue mapped place, memory, atReg]
    · exact names ▸ suffix_rfl
  | var name =>
    obtain ⟨x, found, same, -, -, rfl⟩ := assignment_var assigned
    have known : f.lookup? name = some x := by rwa [Frame.lookup?, ← takes.scopes]
    have updates : ∃ locals, Store.replace name d store.locals = some locals ∧
        { store with locals } = store' := by
      simpa [Store.assign, bind_eq_some_iff] using stores
    obtain ⟨locals, replaced, rfl⟩ := updates
    have stored := ready.holds.locals.store (ready.few stands) ready.own.nodup known
      (same.symm.trans kind.symm) replaced
    have lt : x.slot < W.slots := (ready.own.lookup_lt known).trans_le ready.slots
    obtain ⟨same, holds⟩ := ready.holds.storeSlot stands lt stored
    refine store_carries placed ready.bears flows changes ?_ same ?_ (names ▸ holds)
    · rw [effect_storeSlot stands bears lt, memory, atReg]
    · exact names ▸ suffix_rfl

lemma return_isCarried {value : Option Expr} (leaves : (P.labelPosition r.epilogue).isSome)
    (gives : (∃ e, value = some e ∧ (e.evaluate message store).run = some (.ok d)) ∨
      value = none ∧ d = .int 0) :
    IsCarried W P plan r message [.ret value] store store (.returned d) := by
  refine isCarried_single fun {f f' p q code k s} ready covered h placed => ?_
  obtain ⟨goal, target⟩ := isSome_iff_exists.1 leaves
  rw [statement] at h
  obtain ⟨rfl, rfl, -, rfl⟩ | ⟨e, v, first, f1, rfl, declared, lowered, rfl, rfl⟩ :=
    returnCode_ok h
  · obtain rfl : d = .int 0 := by simpa using gives
    obtain ⟨clear, jump⟩ := holds_cons.1 placed
    have jump := (holds_cons.1 jump).1
    let t : Machine := ({ s with flags := AluOp.xor.flags (s.regs rax) (s.regs rax) } : Machine).set
      rax 0
    have keeps : W.Keeps s t := .of_changes (n := 0) ready.bears rfl fun reg outside => by
      have other : reg ≠ rax := fun same => outside (by simp [same, temporaries])
      simp [t, other]
    refine ⟨⟨goal, t⟩, f.scopes.flatten, ?_, ⟨target, by simp [t, Register.result, Datum.word],
      keeps, fun _ => returnKind_of_bare h⟩, suffix_rfl, suffix_rfl, by simp, ready.holds⟩
    exact .head (.effect clear (effect_zero rax s)) (.single (.jump jump (.inl rfl) target))
  · obtain gives : (e.evaluate message store).run = some (.ok d) := by simpa using gives
    obtain ⟨before, behind⟩ := holds_append.1 placed
    obtain ⟨move, jump⟩ := holds_cons.1 behind
    have jump := (holds_cons.1 jump).1
    obtain ⟨same, t, flows, atReg, memory, changes⟩ :=
      operand_value stands distinct ready covered lowered before gives
    have takes := expression_takes lowered
    have keeps : W.Keeps s (t.set .result d.word) := .of_changes ready.bears memory fun reg
        outside => by
      have other : reg ≠ .result := fun same =>
        outside (by simp [same, temporaries, Register.result])
      rw [Machine.set_regs, Function.update_of_ne other, changes reg outside]
    have kinds (kind : ValueKind) (known : returnKind r.returns = some kind) : d.kind = kind :=
      same.trans (some.inj (declared.symm.trans known))
    refine ⟨⟨goal, t.set .result d.word⟩, f.scopes.flatten, ?_, ⟨target, by simp, keeps, kinds⟩,
      suffix_rfl, ?_, by simp, ?_⟩
    · exact flows.trans (.head (.effect move (by simp [atReg]))
        (.single (.jump jump (.inl rfl) target)))
    · exact takes.release.scopes ▸ suffix_rfl
    · exact memory ▸ ready.holds

end

section

variable (covered : IsCovered W plan r p f' q)
include covered

lemma IsCovered.part {p1 q1 : Pool} (before : p.Grows p1) (behind : q1.Grows q)
    (slots : f1.slots ≤ f'.slots) :
    IsCovered W plan r p1 f1 q1 where
  knows := before.knows covered.knows
  epilogue := covered.epilogue.trans_le before.labels_le
  words := List.Subset.trans behind.words_subset covered.words
  slots := slots.trans covered.slots

lemma IsCovered.cons (h : statements plan r (st :: body) f p = .ok ((code, f'), q)) :
    ∃ first f1 p1 tail, statement plan r st f p = .ok ((first, f1), p1) ∧
      statements plan r body f1 p1 = .ok ((tail, f'), q) ∧ code = first ++ tail ∧
      IsCovered W plan r p f1 p1 ∧ IsCovered W plan r p1 f' q := by
  obtain ⟨first, f1, p1, tail, lowered, others, rfl⟩ := statements_cons h
  have grows1 := statement_grows covered.knows covered.epilogue lowered
  have later := covered.part grows1 (.refl q) le_rfl
  have grows2 := statements_grows later.knows later.epilogue others
  have slots := (statements_advances (fun _ _ => statement_passes) others).slots_le
  exact ⟨first, f1, p1, tail, lowered, others, rfl, covered.part (.refl p) grows2 slots, later⟩

lemma IsCovered.branch {cond : Expr} {onTrue onFalse : List Stmt}
    (h : statement plan r (.branch cond onTrue onFalse) f p = .ok ((code, f'), q)) :
    ∃ other join p1 test f1 p2 first f2 p3 second,
      condition plan r cond other "if condition" f p1 = .ok ((test, f1), p2) ∧
      block plan r onTrue f1 p2 = .ok ((first, f2), p3) ∧
      block plan r onFalse f2 p3 = .ok ((second, f'), q) ∧
      code = test ++ first ++ [jmp join, .label other] ++ second ++ [label join] ∧
      IsCovered W plan r p1 f1 p2 ∧ IsCovered W plan r p2 f2 p3 ∧ IsCovered W plan r p3 f' q := by
  obtain ⟨other, p0, join, p1, test, f1, p2, first, f2, p3, second, new, new', tests, positive,
    negative, rfl⟩ := statement_branch h
  have named := covered.part (.trans (.names (.fresh new)) (.names (.fresh new'))) (.refl q) le_rfl
  have grows1 := condition_grows named.knows tests
  have ofTrue := named.part grows1 (.refl q) le_rfl
  have grows2 := block_grows ofTrue.knows ofTrue.epilogue positive
  have ofFalse := ofTrue.part grows2 (.refl q) le_rfl
  have grows3 := block_grows ofFalse.knows ofFalse.epilogue negative
  have slots1 := (block_advances positive).1.slots_le
  have slots2 := (block_advances negative).1.slots_le
  exact ⟨other, join, p1, test, f1, p2, first, f2, p3, second, tests, positive, negative, rfl,
    named.part (.refl _) (grows2.trans grows3) (slots1.trans slots2),
    ofTrue.part (.refl _) grows3 slots2, ofFalse⟩

lemma IsCovered.loop {cond : Expr}
    (h : statement plan r (.loop cond body) f p = .ok ((code, f'), q)) :
    ∃ head leave p1 test f1 p2 inner, condition plan r cond leave "while condition" f p1 = .ok
      ((test, f1), p2) ∧ block plan r body f1 p2 = .ok ((inner, f'), q) ∧
      code = [label head] ++ test ++ inner ++ [jmp head, .label leave] ∧
      IsCovered W plan r p1 f1 p2 ∧ IsCovered W plan r p2 f' q := by
  obtain ⟨head, p0, leave, p1, test, f1, p2, inner, new, new', tests, lowered, rfl⟩ :=
    statement_loop h
  have named := covered.part (.trans (.names (.fresh new)) (.names (.fresh new'))) (.refl q) le_rfl
  have grows1 := condition_grows named.knows tests
  have ofBody := named.part grows1 (.refl q) le_rfl
  have grows2 := block_grows ofBody.knows ofBody.epilogue lowered
  have slots := (block_advances lowered).1.slots_le
  exact ⟨head, leave, p1, test, f1, p2, inner, tests, lowered, rfl, named.part (.refl _) grows2
    slots, ofBody⟩

end

lemma Ready.next (ready : Ready W P r message f store s) (keeps : W.Keeps s t)
    (own : f'.HasOwnSlots) (slots : f'.slots ≤ W.slots)
    (holds : W.Shows P message f'.scopes.flatten store' t.memory) :
    Ready W P r message f' store' t :=
  ⟨ready.stateRecord, ready.messageRecord, own, slots, keeps.bears, holds⟩

lemma Carries.within {f2 : Frame} {j : Nat} {part : Code} (bears : W.Bears s)
    (flows : P.Flows ⟨k, s⟩ ⟨j, t⟩) (keeps : W.Keeps s t)
    (carries : Carries W P r message f1 f2 j part t store ending)
    (onward : ending = .normal → ∀ u, P.Flows ⟨j + part.length, u⟩ ⟨k + code.length, u⟩)
    (same : f1.scopes = f.scopes) (same' : f2.scopes = f'.scopes) :
    Carries W P r message f f' k code s store ending := by
  obtain ⟨c, names, later, ended, older, newer, all, holds⟩ := carries
  rw [same] at older
  rw [same'] at newer all
  by_cases normal : ending = .normal
  · subst normal
    obtain ⟨position, u⟩ := c
    obtain ⟨rfl, kept⟩ := ended
    exact ⟨⟨_, u⟩, names, (flows.trans later).trans (onward rfl u), ⟨rfl, keeps.trans kept⟩, older,
      newer, all, holds⟩
  · exact ⟨c, names, flows.trans later, (ended.of_keeps keeps bears).early normal, older, newer,
      all, holds⟩

lemma Ready.openScope (ready : Ready W P r message f store s) : Ready W P r message f.openScope
    store s :=
  ⟨ready.stateRecord, ready.messageRecord, ready.own.openScope, ready.slots, ready.bears,
    ready.holds⟩

lemma block_carries (inner : IsCarried W P plan r message body store store' ending)
    (ready : Ready W P r message f store s) (covered : IsCovered W plan r p f' q)
    (h : block plan r body f p = .ok ((code, f'), q)) (placed : P.Holds k code) :
    Carries W P r message f f' k code s (store'.leave store.locals.length) ending := by
  have scopes := (block_advances h).2
  obtain ⟨e, lowered, rfl⟩ := block_ok h
  have opened : Ready W P r message f.openScope store s := ready.openScope
  have whole : IsCovered W plan r p e q := ⟨covered.knows, covered.epilogue, covered.words,
    covered.slots⟩
  obtain ⟨c, names, flows, ended, older, -, -, holds⟩ := inner opened whole lowered placed
  have known : f.scopes.flatten <:+ names := older
  have count : store.locals.length = f.scopes.flatten.length := ready.holds.locals.length_eq.symm
  refine ⟨c, f.scopes.flatten, flows, ended, suffix_rfl, ?_, ?_, ?_⟩
  · exact scopes ▸ suffix_rfl
  · exact fun _ => scopes ▸ rfl
  · refine ⟨holds.fields, holds.payload, ?_, holds.words⟩
    rw [Store.leave, count]
    exact holds.locals.drop known

lemma flows_label {l : Label} (placed : P.Holds (k + code.length) [.label l]) (u : Machine) :
    P.Flows ⟨k + code.length, u⟩ ⟨k + (code ++ [label l]).length, u⟩ := by
  rw [length_append, ← add_assoc]
  exact flows_execute placed rfl

section

variable {cond : Expr} {value : Bool} (stands : W.Stands P) (distinct : P.HasDistinctLabels)
include stands distinct

section

variable (ready : Ready W P r message f store s) (covered : IsCovered W plan r p f' q)
  (placed : P.Holds k code) (gives : (cond.evaluate message store).run = some (.ok (.bool value)))
include ready covered placed gives

lemma condition_flows {otherwise : Label} {what : String} {goal : Nat}
    (h : condition plan r cond otherwise what f p = .ok ((code, f'), q))
    (target : P.labelPosition otherwise = some goal) :
    ∃ t, P.Flows ⟨k, s⟩ ⟨if value then k + code.length else goal, t⟩ ∧ W.Keeps s t ∧
      Ready W P r message f' store t := by
  obtain ⟨v, first, e, lowered, -, rfl, rfl⟩ := condition_ok h
  obtain ⟨before, behind⟩ := holds_append.1 placed
  obtain ⟨check, branch⟩ := holds_cons.1 behind
  have branch := (holds_cons.1 branch).1
  obtain ⟨-, t, flows, atReg, memory, changes⟩ :=
    operand_value stands distinct ready covered lowered before gives
  let u : Machine := { t with flags := .ofResult (t.regs v.reg) (some false) (some false) }
  have tests : Condition.e.holds u.flags = some (!value) := by
    rw [Condition.holds_e_check, atReg]
    cases value <;> rfl
  refine ⟨u, ?_, .of_changes ready.bears memory changes,
    ready.of_changes (expression_takes lowered).release.toKeeps memory changes⟩
  have checked := flows.tail (.effect check (effect_check v.reg t))
  cases value with
  | true =>
    rw [if_pos rfl, length_append, ← add_assoc]
    exact checked.tail (.pass branch (.inl rfl) tests)
  | false => exact checked.tail (.branch branch (.inl rfl) tests target)

/-- A round of a loop begins with its condition. Where that holds, control is at the body, and from
the end of the body it goes back to the head; where not, it is behind the loop. -/
lemma loop_flows
    (h : statement plan r (.loop cond body) f p = .ok ((code, f'), q)) :
    ∃ f1 p1 inner t j, block plan r body f1 p1 = .ok ((inner, f'), q) ∧
      IsCovered W plan r p1 f' q ∧ P.Holds j inner ∧ f1.scopes = f.scopes ∧
      Ready W P r message f1 store t ∧ W.Keeps s t ∧
      P.Flows ⟨k, s⟩ ⟨if value then j else k + code.length, t⟩ ∧
      ∀ u, P.Flows ⟨j + inner.length, u⟩ ⟨k, u⟩ := by
  obtain ⟨head, leave, p1, test, f1, p2, inner, tests, lowered, rfl, ofTest, ofBody⟩ :=
    covered.loop h
  have keeps1 := (condition_rests tests).toKeeps
  rw [holds_append, holds_append, holds_append] at placed
  obtain ⟨⟨⟨atHead, atTest⟩, atBody⟩, atLast⟩ := placed
  obtain ⟨atJump, atLeave⟩ := holds_cons.1 atLast
  have atLeave := (holds_cons.1 atLeave).1
  have toHead := labelPosition_of_at distinct (holds_cons.1 atHead).1
  have toLeave := labelPosition_of_at distinct atLeave
  obtain ⟨t, flows, keeps, ready1⟩ := condition_flows stands distinct ready ofTest atTest gives
    tests toLeave
  have entered : P.Flows ⟨k, s⟩ ⟨k + [label head].length, s⟩ := flows_execute atHead rfl
  refine ⟨f1, p2, inner, t, _, lowered, ofBody, atBody, keeps1.scopes, ready1, keeps, ?_,
    fun u => ?_⟩
  · cases value with
    | true =>
      rw [if_pos rfl, length_append, ← add_assoc]
      exact entered.trans flows
    | false =>
      rw [if_neg Bool.false_ne_true, length_append, ← add_assoc]
      exact (entered.trans flows).tail (.effect atLeave rfl)
  · rw [add_assoc, ← length_append]
    exact .single (.jump atJump (.inl rfl) toHead)

end

lemma branch_isCarried {onTrue onFalse : List Stmt}
    (gives : (cond.evaluate message store).run = some (.ok (.bool value)))
    (inner : IsCarried W P plan r message (if value then onTrue else onFalse) store store'
      ending) : IsCarried W P plan r message [.branch cond onTrue onFalse] store
      (store'.leave store.locals.length) ending := by
  refine isCarried_single fun {f f' p q code k s} ready covered h placed => ?_
  obtain ⟨other, join, p1, test, f1, p2, first, f2, p3, second, tests, positive, negative, rfl,
    ofTest, ofTrue, ofFalse⟩ := covered.branch h
  obtain ⟨advances2, scopes2⟩ := block_advances positive
  have scopes3 := (block_advances negative).2
  have keeps1 := (condition_rests tests).toKeeps
  -- The places of the parts.
  rw [holds_append, holds_append, holds_append, holds_append] at placed
  obtain ⟨⟨⟨⟨atTest, atFirst⟩, atMiddle⟩, atSecond⟩, atLast⟩ := placed
  obtain ⟨atJump, atOther⟩ := holds_cons.1 atMiddle
  have atOther := (holds_cons.1 atOther).1
  have atJoin := (holds_cons.1 atLast).1
  have toOther := labelPosition_of_at distinct atOther
  have toJoin := labelPosition_of_at distinct atJoin
  obtain ⟨t, flows, keeps, ready1⟩ := condition_flows stands distinct ready ofTest atTest gives
    tests toOther
  cases value with
  | true =>
    have carries := block_carries inner ready1 ofTrue positive atFirst
    refine carries.within ready.bears flows keeps (fun _ u => ?_) keeps1.scopes scopes3.symm
    rw [if_pos rfl, add_assoc, ← length_append]
    exact .head (.jump atJump (.inl rfl) toJoin) (flows_label atLast u)
  | false =>
    have ready2 := ready1.next (.refl ready1.bears)
      (ready1.own.of_scopes scopes2 advances2.slots_le) ofTrue.slots (scopes2 ▸ ready1.holds)
    have carries := block_carries inner ready2 ofFalse negative atSecond
    have reached : P.Flows ⟨k, s⟩ ⟨k + (test ++ first ++ [jmp join, .label other]).length, t⟩ := by
      rw [length_append, ← add_assoc]
      exact flows.tail (.effect atOther rfl)
    refine carries.within ready.bears reached keeps (fun _ u => ?_)
      (scopes2.trans keeps1.scopes) rfl
    simpa only [length_append, add_assoc] using flows_label atLast u

lemma exit_isCarried (gives : (cond.evaluate message store).run = some (.ok (.bool false))) :
    IsCarried W P plan r message [.loop cond body] store store .normal := by
  refine isCarried_single fun {f f' p q code k s} ready covered h placed => ?_
  obtain ⟨f1, _, _, t, _, -, -, -, scopes, ready1, keeps, flows, -⟩ :=
    loop_flows stands distinct ready covered placed gives h
  have same := statement_scopes h (by simp)
  refine ⟨⟨_, t⟩, f.scopes.flatten, flows, ⟨rfl, keeps⟩, suffix_rfl, ?_, fun _ => by rw [same], ?_⟩
  · exact same ▸ suffix_rfl
  · exact scopes ▸ ready1.holds

section

variable (gives : (cond.evaluate message store).run = some (.ok (.bool true)))
include gives

lemma quit_isCarried (inner : IsCarried W P plan r message body store store' ending)
    (early : ending ≠ .normal) : IsCarried W P plan r message [.loop cond body] store
      (store'.leave store.locals.length) ending := by
  refine isCarried_single fun ready covered h placed => ?_
  obtain ⟨f1, p1, part, t, j, lowered, whole, atBody, scopes, ready1, keeps, flows, -⟩ :=
    loop_flows stands distinct ready covered placed gives h
  exact (block_carries inner ready1 whole lowered atBody).within ready.bears flows keeps
    (fun normal => absurd normal early) scopes rfl

lemma again_isCarried {last : Store}
    (inner : IsCarried W P plan r message body store store' .normal)
    (later : IsCarried W P plan r message [.loop cond body] (store'.leave store.locals.length) last
      ending) : IsCarried W P plan r message [.loop cond body] store last ending := by
  refine isCarried_single fun {f f' p q code k s} ready covered h placed => ?_
  obtain ⟨f1, p1, part, t, j, lowered, whole, atBody, scopes, ready1, keeps, flows, back⟩ :=
    loop_flows stands distinct ready covered placed gives h
  obtain ⟨⟨_, u⟩, names, runs, ⟨rfl, kept⟩, -, -, all, holds⟩ := block_carries inner ready1 whole
    lowered atBody
  have shown : W.Shows P message f.scopes.flatten (store'.leave store.locals.length) u.memory := by
    rw [← statement_scopes h (by simp), ← all rfl]
    exact holds
  have again := ready.next (keeps.trans kept) ready.own ready.slots shown
  refine Carries.within ready.bears ((flows.trans runs).trans (back u)) (keeps.trans kept)
    (later again covered ((statements_single ..).trans h) placed) (fun _ _ => .refl) rfl rfl

end

end

lemma statement_suffix (h : statement plan r st f p = .ok ((code, f'), q)) :
    f.scopes.flatten <:+ f'.scopes.flatten := by
  by_cases declares : ∃ name value, st = .declare name value
  · obtain ⟨name, value, rfl⟩ := declares
    obtain ⟨v, first, f1, x, f2, lowered, declared, rfl, -⟩ := statement_declare h
    obtain ⟨scope, outer, scopes, rfl, rfl⟩ := Frame.declare_ok declared
    rw [← (expression_takes lowered).scopes, scopes]
    exact suffix_cons _ _
  · have same := statement_scopes h fun name value same => declares ⟨name, value, same⟩
    exact same ▸ suffix_rfl

lemma statements_suffix (h : statements plan r body f p = .ok ((code, f'), q)) :
    f.scopes.flatten <:+ f'.scopes.flatten := by
  induction body generalizing f p code with
  | nil =>
    obtain ⟨rfl, -, -⟩ := statements_nil h
    exact suffix_rfl
  | cons st rest ih =>
    obtain ⟨first, f1, p1, tail, lowered, others, -⟩ := statements_cons h
    exact (statement_suffix lowered).trans (ih others)

lemma fault_isCarried {why : Fault} (stands : W.Stands P) (distinct : P.HasDistinctLabels)
    (operand : st.operand? = some e) (fails : (e.evaluate message store).run = some (.error why)) :
    IsCarried W P plan r message [st] store store (.failed why) := by
  intro f f' p q code k s ready covered h placed
  rw [statements_single] at h
  have grows := statement_suffix h
  cases st with
  | declare name value =>
    obtain rfl := some.inj operand
    obtain ⟨v, first, f1, x, f2, lowered, -, -, rfl⟩ := statement_declare h
    exact fault_carries stands distinct ready covered lowered (holds_append.1 placed).1 grows fails
  | assign target value =>
    obtain rfl := some.inj operand
    obtain ⟨v, first, f1, last, lowered, -, -, rfl⟩ := statement_assign h
    exact fault_carries stands distinct ready covered lowered (holds_append.1 placed).1 grows fails
  | branch cond onTrue onFalse =>
    obtain rfl := some.inj operand
    obtain ⟨other, join, p1, test, f1, p2, first, f2, p3, second, tests, -, -, rfl, ofTest, -⟩ :=
      covered.branch h
    obtain ⟨v, operand, e, lowered, -, -, rfl⟩ := condition_ok tests
    rw [holds_append, holds_append, holds_append, holds_append, holds_append] at placed
    exact fault_carries stands distinct ready ofTest lowered placed.1.1.1.1.1 grows fails
  | loop cond body =>
    obtain rfl := some.inj operand
    obtain ⟨head, leave, p1, test, f1, p2, inner, tests, -, rfl, ofTest, -⟩ := covered.loop h
    obtain ⟨v, operand, e, lowered, -, -, rfl⟩ := condition_ok tests
    rw [holds_append, holds_append, holds_append, holds_append] at placed
    obtain ⟨⟨⟨atHead, atOperand, -⟩, -⟩, -⟩ := placed
    have entered : P.Flows ⟨k, s⟩ ⟨k + [label head].length, s⟩ := flows_execute atHead rfl
    have carries : Carries W P r message f f' (k + [label head].length) operand s store
        (.failed why) :=
      fault_carries stands distinct ready ofTest lowered atOperand grows fails
    exact carries.within ready.bears entered (.refl ready.bears) (by simp) rfl rfl
  | ret value =>
    obtain rfl := operand
    rw [statement] at h
    obtain ⟨absent, -⟩ | ⟨e', v, first, f1, same, -, lowered, rfl, rfl⟩ := returnCode_ok h
    · cases absent
    · obtain rfl := some.inj same
      exact fault_carries stands distinct ready covered lowered (holds_append.1 placed).1
        grows fails
  | emit schema fields => simp [Stmt.operand?] at operand
  | block body => simp [Stmt.operand?] at operand
  | write value => simp [Stmt.operand?] at operand
  | report value => simp [Stmt.operand?] at operand

lemma cons_isCarried {mid : Store} (first : IsCarried W P plan r message [st] store mid .normal)
    (rest : IsCarried W P plan r message body mid store' ending) :
    IsCarried W P plan r message (st :: body) store store' ending := by
  intro f f' p q code k s ready covered h placed
  obtain ⟨before, f1, p1, behind, lowered, others, rfl, ofFirst, ofRest⟩ := covered.cons h
  obtain ⟨atFirst, atRest⟩ := holds_append.1 placed
  obtain ⟨⟨_, t⟩, names, flows, ⟨rfl, keeps⟩, older, -, all, holds⟩ :=
    first ready ofFirst ((statements_single ..).trans lowered) atFirst
  obtain rfl := all rfl
  have ready1 := ready.next keeps (statement_ownSlots ready.own lowered) ofFirst.slots holds
  obtain ⟨c, names, later, ended, known, newer, all, holds⟩ := rest ready1 ofRest others atRest
  rw [add_assoc, ← length_append] at ended
  exact ⟨c, names, flows.trans later, ended.of_keeps keeps ready.bears, older.trans known, newer,
    all, holds⟩

lemma stop_isCarried (first : IsCarried W P plan r message [st] store store' ending)
    (early : ending ≠ .normal) : IsCarried W P plan r message (st :: body) store store' ending := by
  intro f f' p q code k s ready covered h placed
  obtain ⟨before, f1, p1, behind, lowered, others, rfl, ofFirst, -⟩ := covered.cons h
  obtain ⟨c, names, flows, ended, older, newer, -, holds⟩ :=
    first ready ofFirst ((statements_single ..).trans lowered) (holds_append.1 placed).1
  exact ⟨c, names, flows, ended.early early, older, newer.trans (statements_suffix others),
    fun normal => absurd normal early, holds⟩

lemma runs_isCarried (stands : W.Stands P) (distinct : P.HasDistinctLabels)
    (leaves : (P.labelPosition r.epilogue).isSome) (runs : Runs message body store store' ending) :
    IsCarried W P plan r message body store store' ending := by
  induction runs with
  | nil =>
    intro f f' p q code k s ready covered h placed
    obtain ⟨rfl, rfl, rfl⟩ := statements_nil h
    exact ⟨⟨k, s⟩, f.scopes.flatten, .refl, ⟨rfl, .refl ready.bears⟩, suffix_rfl,
      suffix_rfl, fun _ => rfl, ready.holds⟩
  | cons _ _ first rest => exact cons_isCarried first rest
  | stop _ early first => exact stop_isCarried first early
  | fault operand fails => exact fault_isCarried stands distinct operand fails
  | declare gives => exact declare_isCarried stands distinct gives
  | assign gives stores => exact assign_isCarried stands distinct gives stores
  | branch gives _ inner => exact branch_isCarried stands distinct gives inner
  | exit gives => exact exit_isCarried stands distinct gives
  | again gives _ _ inner later => exact again_isCarried stands distinct gives inner later
  | quit gives _ early inner => exact quit_isCarried stands distinct gives inner early
  | block _ inner =>
    exact isCarried_single fun ready covered h placed =>
      block_carries inner ready covered (statement_block ▸ h) placed
  | finish => exact return_isCarried stands distinct leaves (.inr ⟨rfl, rfl⟩)
  | ret gives => exact return_isCarried stands distinct leaves (.inl ⟨_, rfl, gives⟩)

end Lower

end AgentCompiler
