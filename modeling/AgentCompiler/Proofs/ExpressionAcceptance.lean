import AgentCompiler.Proofs.BodyRules
import AgentCompiler.Proofs.FreshNames

/-!
The lowering of expressions accepts exactly what has a kind and needs no more registers than there
are left. The steps of a run are taken one by one, each with the condition under which it succeeds;
for this the pool has to be orderly and the surroundings have to be those of the routine.
-/

open AgentCompiler.Expr List

namespace AgentCompiler

namespace Frame

variable {f g : Frame} {name : String} {reg : Register}

def kinds (f : Frame) : Scopes := f.scopes.map fun scope => scope.map fun pair =>
    (pair.1, pair.2.kind)

lemma lookup_map_kind (entries : List (String × Variable)) (name : String) :
    (entries.map fun pair => (pair.1, pair.2.kind)).lookup name = (entries.lookup name).map
        (·.kind) := by
  induction entries with
  | nil => rfl
  | cons entry rest ih =>
    rw [map_cons, lookup_cons, lookup_cons]
    cases name == entry.1 with
    | true => rfl
    | false => exact ih

lemma lookup_kinds (f : Frame) (name : String) : f.kinds.flatten.lookup name = (f.lookup? name).map
    (·.kind) := by
  rw [kinds, ← map_flatten, lookup_map_kind, lookup?]

lemma Takes.lt (h : f.Takes reg g) : f.depth < 5 := (List.getElem?_eq_some_iff.1 h.reg_eq).1

lemma Keeps.kinds_eq (h : f.Keeps g) : g.kinds = f.kinds := by rw [kinds, kinds, h.scopes]

lemma exists_alloc (routine : String) (free : f.depth < 5) : ∃ reg g, f.alloc routine = .ok
    (reg, g) := by
  have inside := free
  exact ⟨_, _, alloc_ok.2 ⟨getElem?_eq_getElem inside, rfl⟩⟩

lemma lt_of_alloc {routine : String} (h : f.alloc routine = .ok (reg, g)) :
    f.depth < 5 := (List.getElem?_eq_some_iff.1 (alloc_ok.1 h).1).1

end Frame

structure Surroundings.Describes (Γ : Surroundings) (plan : Plan) (r : Routine) : Prop where
  state : ∀ field, Γ.state field = (r.agent.state.slot? field).map (·.type.kind)
  message : Γ.message = r.message.map fun schema field => (schema.payload.slot? field).map
    (·.type.kind)
  helpers : ∀ name, Γ.helpers name = (r.template.helpers.find? (·.name == name)).map fun helper =>
    (helper.params.map (·.type.kind), (helper.returns.map (·.kind)).getD .int)
  labels : ∀ helper ∈ r.template.helpers,
    (∃ l, plan.helper? r.agent.name helper.name = some l) ∧ helper.params.length ≤ 4
  schemas : ∀ name, Γ.schemas name = (plan.layout.schema? name).map fun schema =>
    schema.payload.slots.map fun slot => (slot.name, slot.type.kind)
  routes : ∀ name schema, plan.layout.schema? name = some schema →
    (Γ.isRouted name = true ↔ plan.layout.destinations (.agent r.agent.name) schema.name ≠ [])
  storage : ∀ schema, ∀ goal ∈ plan.layout.destinations (.agent r.agent.name) schema,
    ∃ storage, plan.storage? goal = some storage
  returns : Γ.returns = r.returns
  reports : Γ.reports = plan.settings.debugReports

structure Routine.IsReady (r : Routine) (plan : Plan) (p : Pool) : Prop where
  knows : plan.Knows p
  orderly : p.IsOrderly
  epilogue : r.epilogue.id < p.labels.size

lemma Routine.IsReady.grows {r : Routine} {plan : Plan} {p q : Pool} (h : r.IsReady plan p)
    (grows : p.Grows q) : r.IsReady plan q :=
  ⟨grows.knows h.knows, h.orderly.grows grows, h.epilogue.trans_le grows.labels_le⟩

namespace Lower

variable {plan : Plan} {r : Routine} {Γ : Surroundings} {f f' : Frame} {p q : Pool} {v : Value}
  {code : Code} {kind : ValueKind} {what : String} {e : Expr} {es : List Expr}
  {wants : List ValueKind}

def Yields {α : Type} (x : Lower α) (f : Frame) (p : Pool) (post : α → Frame → Pool → Prop) :
    Prop :=
  ∃ a f' q, x f p = .ok ((a, f'), q) ∧ post a f' q

section

variable {α β : Type} {post post' : α → Frame → Pool → Prop} {args : List Argument} {c : Prop}
  {target : Label} {x : Lower α}

lemma yields_congr (same : ∀ a f' q, x f p = .ok ((a, f'), q) → (post a f' q ↔ post' a f' q)) :
    Yields x f p post ↔ Yields x f p post' :=
  exists_congr fun a => exists_congr fun f' => exists_congr fun q => and_congr_right (same a f' q)

lemma yields_iff (same : ∀ a f' q, x f p = .ok ((a, f'), q) → (post a f' q ↔ c)) :
    Yields x f p post ↔ (∃ a f' q, x f p = .ok ((a, f'), q)) ∧ c := by
  rw [yields_congr same]
  constructor
  · rintro ⟨a, f', q, run, h⟩
    exact ⟨⟨a, f', q, run⟩, h⟩
  · rintro ⟨⟨a, f', q, run⟩, h⟩
    exact ⟨a, f', q, run, h⟩

@[simp] lemma yields_bind {x : Lower β} {g : β → Lower α} :
    Yields (x >>= g) f p post ↔ Yields x f p fun b e s => Yields (g b) e s post := by
  simp only [Yields, bind_ok]
  constructor
  · rintro ⟨a, f', q, ⟨b, e, s, first, second⟩, result⟩
    exact ⟨b, e, s, first, a, f', q, second, result⟩
  · rintro ⟨b, e, s, first, a, f', q, second, result⟩
    exact ⟨a, f', q, ⟨b, e, s, first, second⟩, result⟩

@[simp] lemma yields_pure {a : α} : Yields (pure a) f p post ↔ post a f p := by
  simp [Yields, pure_ok]

@[simp] lemma yields_map {x : Lower β} {g : β → α} :
    Yields (g <$> x) f p post ↔ Yields x f p fun b => post (g b) := by
  simp [map_eq_pure_bind, -bind_pure_comp]

@[simp] lemma yields_throw {d : Diagnostic} : Yields (throw d) f p post ↔ False := by simp [Yields]

@[simp] lemma yields_lift {x : Outcome α} : Yields (liftM x) f p post ↔ ∃ a, x = .ok a ∧
    post a f p := by
  simp [Yields, lift_ok]

@[simp] lemma yields_expect {want : ValueKind} {post : Unit → Frame → Pool → Prop} :
    Yields (expect r want what v) f p post ↔ v.kind = want ∧ post () f p := by
  simp [Yields, and_assoc, Unique.exists_iff]

@[simp] lemma yields_release {regs : List Register} {post : Unit → Frame → Pool → Prop} :
    Yields (release regs) f p post ↔ post () (f.release regs) p := by
  simp [Yields, Unique.exists_iff]

@[simp] lemma yields_get {post : Frame → Frame → Pool → Prop} : Yields get f p post ↔
    post f f p := by
  simp [Yields]

@[simp] lemma yields_variableSlot {name : String} {post : Variable → Frame → Pool → Prop} :
    Yields (variableSlot r name) f p post ↔ ∃ x, f.lookup? name = some x ∧ post x f p := by
  simp [Yields, variableSlot_ok, and_assoc]

lemma yields_liftEmit {x : Emit α} (same : ∀ a q, x p = .ok (a, q) → (post a f q ↔ c)) :
    Yields (liftM x) f p post ↔ (∃ a q, x p = .ok (a, q)) ∧ c := by
  simp only [Yields, liftEmit_ok]
  constructor
  · rintro ⟨a, _, q, ⟨run, rfl⟩, h⟩
    exact ⟨⟨a, q, run⟩, (same a q run).1 h⟩
  · rintro ⟨⟨a, q, run⟩, h⟩
    exact ⟨a, f, q, ⟨run, rfl⟩, (same a q run).2 h⟩

@[simp] lemma yields_fresh {hint : String} {post : Label → Frame → Pool → Prop} :
    Yields (liftM (Emit.fresh hint)) f p post ↔
      post (p.labels.fresh hint).1 f { p with labels := (p.labels.fresh hint).2 } := by
  simp [Yields]

lemma yields_internText {text : String} {post : SymbolId → Frame → Pool → Prop}
    (ready : r.IsReady plan p) (same : ∀ s q, Emit.internText text p = .ok (s, q) →
    (post s f q ↔ c)) :
    Yields (liftM (Emit.internText text)) f p post ↔ c ∧ hasNul text = false := by
  rw [yields_liftEmit same, and_comm, and_congr_right_iff]
  refine fun _ => ⟨?_, ready.orderly.exists_internText⟩
  rintro ⟨s, q, interned⟩
  exact ready.orderly.plain_of_internText interned

lemma yields_alloc {post : Register → Frame → Pool → Prop}
    (same : ∀ reg g, f.alloc r.name = .ok (reg, g) → (post reg g p ↔ c)) :
    Yields (alloc r) f p post ↔ c ∧ f.depth + 1 ≤ 5 := by
  rw [yields_iff (c := c), and_comm, and_congr_right_iff]
  · refine fun _ => ⟨?_, fun free => ?_⟩
    · rintro ⟨reg, g, q, run⟩
      exact Frame.lt_of_alloc (alloc_ok.1 run).1
    · obtain ⟨reg, g, taken⟩ := Frame.exists_alloc r.name free
      exact ⟨reg, g, p, alloc_ok.2 ⟨taken, rfl⟩⟩
  · intro reg g q run
    obtain ⟨taken, rfl⟩ := alloc_ok.1 run
    exact same reg g taken

@[simp] lemma yields_alloc_const :
    Yields (alloc r) f p (fun _ _ _ => c) ↔ c ∧ f.depth + 1 ≤ 5 := yields_alloc fun _ _ _ => .rfl

lemma yields_call {post : Code → Frame → Pool → Prop} (few : args.length ≤ 6) :
    Yields (call r target args) f p post ↔ post (callSequence f.live target args) f p := by
  have limit : ¬ Register.arguments.length < args.length := not_lt.2 few
  simp [call, limit, yields_get]

lemma yields_callValue {kind : ValueKind}
    {post : Value × Code → Frame → Pool → Prop} (few : args.length ≤ 6)
    (same : ∀ v code g, f.Takes v.reg g → v.kind = kind → (post (v, code) g p ↔ c)) :
    Yields (callValue r target args kind) f p post ↔ c ∧ f.depth + 1 ≤ 5 := by
  rw [callValue, yields_bind, yields_call few, yields_bind]
  exact yields_alloc fun reg g taken => yields_pure.trans (same _ _ g (Frame.takes_alloc taken) rfl)

end

section

variable {op : BinaryOperator} {cond : Condition} {result : ValueKind} {K : ValueKind → Prop}

lemma joins_comparison (h : comparison? op = some cond) (plain : kind ≠ .str) :
    op.Joins kind result ↔ result = .bool ∧ (kind = .bool → op = .eq ∨ op = .ne) := by
  constructor
  · intro joins
    cases joins with
    | equality mem => exact ⟨rfl, fun _ => by simpa using mem⟩
    | ordering => exact ⟨rfl, by simp⟩
    | texts => exact absurd rfl plain
    | arithmetic mem | bitwise mem _ | logical mem => cases op <;> simp_all [comparison?]
  · rintro ⟨rfl, order⟩
    cases op <;> simp only [comparison?, reduceCtorEq] at h
    case eq | ne => exact .equality (by simp)
    all_goals
      cases kind with
      | int => exact .ordering (by simp)
      | bool => simp at order
      | str => exact absurd rfl plain

lemma joins_arithmetic (h : comparison? op = none) (plain : kind ≠ .str) :
    op.Joins kind result ↔ result = kind ∧ kind = operandKind op kind := by
  constructor
  · intro joins
    cases joins with
    | arithmetic mem | bitwise mem _ | logical mem => cases op <;> simp_all [operandKind]
    | equality mem | ordering mem => cases op <;> simp_all [comparison?]
    | texts => exact absurd rfl plain
  · rintro ⟨rfl, same⟩
    cases op <;> simp only [comparison?, reduceCtorEq] at h <;> simp only [operandKind] at same
    case and | or | xor => exact .bitwise (by simp) plain
    case land | lor => exact same ▸ .logical (by simp)
    all_goals exact same ▸ .arithmetic (by simp)

lemma joins_texts : op.Joins .str result ↔ op = .add ∧ result = .str ∨ (op = .eq ∨ op = .ne) ∧
    result = .bool := by
  constructor
  · intro joins
    cases joins with
    | bitwise _ plain => exact absurd rfl plain
    | equality mem => exact .inr ⟨by simpa using mem, rfl⟩
    | texts => exact .inl ⟨rfl, rfl⟩
  · rintro (⟨rfl, rfl⟩ | ⟨mem, rfl⟩)
    · exact .texts
    · exact .equality (by simpa using mem)

lemma applyToTexts_yields {x y : Register} :
    Yields (applyToTexts r what op x y) f p (fun value _ _ => K value.1.kind) ↔
      (∃ kind, op.Joins .str kind ∧ K kind) ∧ f.depth + 1 ≤ 5 := by
  have called : ∀ (service : Service) (kind : ValueKind), Yields (callValue r service.label
      [.reg x, .reg y] kind) f p (fun value _ _ => K value.1.kind) ↔ K kind ∧ f.depth + 1 ≤ 5 :=
    fun service kind => yields_callValue (by simp) fun _ _ _ _ same => by rw [same]
  simp only [joins_texts]
  cases op <;> simp [applyToTexts, called]

lemma exists_arithmetic (ready : r.IsReady plan p) (h : comparison? op = none) (what : String)
    (x y : Register) : ∃ code g q, arithmetic r what op x y f p = .ok ((code, g), q) := by
  have divides : ∀ isQuotient, Yields (division r isQuotient x y) f p fun _ _ _ => True := by
    intro isQuotient
    rw [division, yields_bind, yields_internText (c := True) ready]
    · exact ⟨trivial, by decide⟩
    · intro message s _
      simp [yields_call]
  suffices h : Yields (arithmetic r what op x y) f p fun _ _ _ => True by
    obtain ⟨code, g, q, run, -⟩ := h
    exact ⟨code, g, q, run⟩
  cases op <;> simp_all [comparison?, arithmetic]

lemma applyBinary_yields {a b : Value} (ready : r.IsReady plan p) (used : 2 ≤ f.depth)
    (bound : f.depth ≤ 5) :
    Yields (applyBinary r op a b) f p (fun value _ _ => K value.1.kind) ↔
      a.kind = b.kind ∧ ∃ kind, op.Joins a.kind kind ∧ K kind := by
  unfold applyBinary
  dsimp only
  by_cases same : a.kind = b.kind
  swap
  · simp [same]
  rw [if_neg (by simpa using same)]
  by_cases text : a.kind = .str
  · rw [if_pos text, yields_bind, yields_release, applyToTexts_yields, text]
    have free : (f.release [b.reg, a.reg]).depth + 1 ≤ 5 := by
      simp only [Frame.depth_release, length_cons, length_nil]
      omega
    rw [and_iff_left free, and_iff_right (text.symm.trans same)]
  · rw [if_neg text]
    cases found : comparison? op with
    | some cond =>
      simp only [joins_comparison found text, applyComparison]
      split
      next disorder => simp [disorder]
      next order =>
        have order : a.kind = .bool → op = .eq ∨ op = .ne := by tauto
        simpa [← same] using fun _ => order
    | none =>
      simp only [joins_arithmetic found text, yields_bind, yields_expect, yields_release,
        yields_pure]
      rw [yields_iff fun _ _ _ _ => .rfl]
      simp [exists_arithmetic ready found, same]

end

section

variable {α : Type} {post : α → Frame → Pool → Prop} {K : ValueKind → Prop} {c : Prop}

/-- Whether an expression is written is a matter of its kind and of the registers that are left. -/
def Decides (Γ : Surroundings) (plan : Plan) (r : Routine) (e : Expr) : Prop :=
  ∀ ⦃f : Frame⦄ ⦃p : Pool⦄ (K : ValueKind → Prop), r.IsReady plan p →
    (Yields (expression plan r e) f p (fun result _ _ => K result.1.kind) ↔
      (∃ kind, HasKind Γ f.kinds e kind ∧ K kind) ∧ f.depth + e.need ≤ 5)

lemma expression_ready (ready : r.IsReady plan p)
    (h : expression plan r e f p = .ok (((v, code), f'), q)) : r.IsReady plan q :=
  ready.grows (expression_grows ready.knows h)

lemma builtinSignature_eq (name : Builtin) :
    (builtinSignature name).1 = name.signature.1 ∧ (builtinSignature name).2.1 =
        name.signature.2 := by
  cases name <;> exact ⟨rfl, rfl⟩

lemma Decides.bind {g : Value × Code → Lower α} (decides : Decides Γ plan r e)
    (ready : r.IsReady plan p) (K : ValueKind → Prop) (next : ∀ v code f' q, f.Takes v.reg f' →
      r.IsReady plan q → (Yields (g (v, code)) f' q post ↔ K v.kind)) : Yields
      (expression plan r e >>= g) f p post ↔ (∃ kind, HasKind Γ f.kinds e kind ∧ K kind) ∧
      f.depth + e.need ≤ 5 := by
  rw [yields_bind, ← decides K ready]
  exact yields_congr fun value f' q run =>
    next value.1 value.2 f' q (expression_takes run) (expression_ready ready run)

lemma operands_yields {callee : String} {index : Nat}
    {post : List Register × Code → Frame → Pool → Prop} (decides : ∀ e ∈ es, Decides Γ plan r e)
    (ready : r.IsReady plan p) (length : es.length = wants.length) (free : c → f.depth ≤ 5)
    (same : ∀ regs code f' q, f'.kinds = f.kinds → f'.depth = f.depth + regs.length →
      regs.length = wants.length → (post (regs, code) f' q ↔ c)) :
    Yields (operands plan r callee index es wants) f p post ↔
      (HaveKinds Γ f.kinds es wants ∧ c) ∧ f.depth + needOf es ≤ 5 := by
  induction es generalizing index wants f p post with
  | nil =>
    obtain rfl := length_eq_zero_iff.1 length.symm
    have none : operands plan r callee index [] [] = pure ([], []) := by simp [operands]
    rw [none, yields_pure, same [] [] f p rfl rfl rfl]
    simpa [needOf, HaveKinds.nil] using free
  | cons e rest ih =>
    obtain ⟨want, wants, rfl⟩ := exists_cons_of_length_eq_add_one length.symm
    rw [operands, (decides e (mem_cons_self ..)).bind ready fun kind => kind = want ∧
      (HaveKinds Γ f.kinds rest wants ∧ c) ∧ f.depth + 1 + needOf rest ≤ 5]
    · simp only [haveKinds_cons, needOf, existsAndEq]
      have : f.depth + max e.need (needOf rest + 1) ≤ 5 ↔
        f.depth + e.need ≤ 5 ∧ f.depth + 1 + needOf rest ≤ 5 := by omega
      rw [this]
      tauto
    · intro v code g s takes ready
      rw [yields_bind, yields_expect, yields_bind,
        ih (fun e mem => decides e (.tail _ mem)) ready (Nat.succ.inj length) ?_ ?_,
        takes.kinds_eq, takes.depth_eq]
      · exact fun _ => takes.depth_eq.trans_le takes.lt
      · intro regs tail g' s' kinds depth length
        rw [yields_pure, same]
        · exact kinds.trans takes.kinds_eq
        · rw [depth, takes.depth_eq, length_cons, add_right_comm, add_assoc]
        · exact congrArg Nat.succ length

lemma application_yields (callee : String) (target : Label) (context : List Argument)
    (kind : ValueKind) (decides : ∀ e ∈ es, Decides Γ plan r e) (ready : r.IsReady plan p)
    (few : context.length + wants.length ≤ 6) : es.length = wants.length ∧ Yields (do
      let (regs, code) ← operands plan r callee 1 es wants
      release regs.reverse
      let (v, last) ← callValue r target (context ++ regs.map .reg) kind
      pure (v, code ++ last)) f p (fun result _ _ => K result.1.kind) ↔
      (HaveKinds Γ f.kinds es wants ∧ K kind) ∧ f.depth + max 1 (needOf es) ≤ 5 := by
  rw [← and_iff_right_of_imp (b := (HaveKinds Γ f.kinds es wants ∧ K kind) ∧ _)
    fun h => h.1.1.length_eq, and_congr_right_iff]
  intro length
  rw [yields_bind, operands_yields (c := K kind ∧ f.depth + 1 ≤ 5) decides ready length ?_ ?_]
  · have : f.depth + max 1 (needOf es) ≤ 5 ↔ f.depth + 1 ≤ 5 ∧ f.depth + needOf es ≤ 5 := by omega
    rw [this]
    tauto
  · exact fun h => Nat.le_of_succ_le h.2
  · intro regs code g s _ depth length
    have free : (g.release regs.reverse).depth = f.depth := by
      rw [Frame.depth_release, depth, length_reverse, Nat.add_sub_cancel]
    rw [yields_bind, yields_release, yields_bind, yields_callValue (c := K kind), free]
    · simpa [length] using few
    · intro v last g' _ same
      rw [yields_pure, ← same]

lemma expression_decides (describes : Γ.Describes plan r) (e : Expr) : Decides Γ plan r e := by
  induction e using induction with
  | int value =>
    intro f p K ready
    rw [expression, integer, yields_bind, yields_alloc (c := K .int)]
    · simp [need]
    · intro reg g taken
      split
      · exact yields_pure
      · rw [yields_bind, yields_liftEmit (c := K .int) fun _ _ _ => yields_pure]
        exact and_iff_right (ready.orderly.exists_internWord value)
  | bool value =>
    intro f p K ready
    simp [expression, need]
  | str value =>
    intro f p K ready
    rw [expression, yields_bind, yields_internText (c := K .str ∧ f.depth + 1 ≤ 5) ready]
    · simp [need]
      tauto
    · intro s q _
      simp
  | state field =>
    intro f p K ready
    simp [expression, readField, stateSlot_ok, describes.state, need, ← and_assoc]
  | field field =>
    intro f p K ready
    simp [expression, readField, messageSlot_ok, describes.message, need]
    grind
  | var name =>
    intro f p K ready
    simp [expression, f.lookup_kinds, need, ← and_assoc]
  | unary op operand ih =>
    intro f p K ready
    rw [expression, ih.bind ready fun kind => kind = op.kind ∧ K kind]
    · simp [need]
    · intro v code g s takes ready
      cases op <;> simp [applyUnary, UnaryOperator.kind]
  | binary op lhs rhs ihl ihr =>
    intro f p K ready
    rw [expression, ihl.bind ready fun k => (HasKind Γ f.kinds rhs k ∧ ∃ kind, op.Joins k kind ∧
      K kind) ∧ f.depth + 1 + rhs.need ≤ 5]
    · have : f.depth + (binary op lhs rhs).need ≤ 5 ↔ f.depth + lhs.need ≤ 5 ∧
        f.depth + 1 + rhs.need ≤ 5 := by
        rw [need]
        omega
      rw [this]
      simp only [hasKind_binary]
      tauto
    · intro a first g s takes ready
      rw [ihr.bind ready fun k => a.kind = k ∧ ∃ kind, op.Joins a.kind kind ∧ K kind,
        takes.kinds_eq, takes.depth_eq]
      · simp
      · intro b second g' s' takes' ready
        have depth : g'.depth = f.depth + 2 := by rw [takes'.depth_eq, takes.depth_eq]
        rw [yields_bind, ← applyBinary_yields (f := g') ready (by omega)
          (takes'.depth_eq.trans_le takes'.lt)]
        exact yields_congr fun _ _ _ _ => yields_pure
  | builtin name args ih =>
    intro f p K ready
    obtain ⟨params, result⟩ := builtinSignature_eq name
    by_cases read : name = .readInput ∧ args = []
    · obtain ⟨rfl, rfl⟩ := read
      rw [expression, yields_callValue (c := K .str) (by simp) fun v _ _ _ same => by rw [same]]
      simp [Builtin.signature, need, needOf]
    · rw [expression]
      swap
      · simpa using read
      rw [yields_bind, yields_lift]
      simp only [checkArity_ok, exists_const]
      have few : 0 + name.signature.1.length ≤ 6 := by cases name <;> decide
      simp only [hasKind_builtin, read, false_and, false_or, existsAndEq, and_true, need,
        params, result]
      exact application_yields name.name (builtinSignature name).2.2.label [] _ ih ready few
  | call name args ih =>
    intro f p K ready
    simp only [hasKind_call, describes.helpers, need]
    rw [expression, yields_bind, yields_lift, helperNamed]
    cases found : r.template.helpers.find? (·.name == name) with
    | none => simp
    | some helper =>
      obtain ⟨⟨l, label⟩, few⟩ := describes.labels helper (mem_of_find?_eq_some found)
      have named : helper.name = name := by simpa using find?_some found
      rw [named] at label
      have few : 2 + (helper.params.map (·.type.kind)).length ≤ 6 := by
        simpa using Nat.add_le_add_left few 2
      have known : helperLabel plan r name = .ok l := by
        rw [helperLabel, label]
        rfl
      have applied := application_yields (f := f) (K := K) name l [.reg .stateBase, .reg .message]
        ((helper.returns.map (·.kind)).getD .int) ih ready few
      simp only [AgentCompiler.pure_ok, yields_bind (x := liftM (checkArity _ _ _)), yields_lift,
        checkArity_ok, exists_const, known, Option.map_some, Option.some.injEq, Prod.mk.injEq,
        existsAndEq, true_and]
      rw [yields_bind, yields_lift]
      simp only [Except.ok.injEq, existsAndEq, true_and]
      exact applied

end

end Lower

end AgentCompiler
