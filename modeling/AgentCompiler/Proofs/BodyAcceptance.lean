import AgentCompiler.Proofs.ExpressionAcceptance

/-!
The lowering of statements accepts exactly what the rules of bodies admit, and leaves the scopes
that the rules say.
-/

namespace AgentCompiler

open List

@[simp] lemma Frame.kinds_release (f : Frame) (regs : List Register) : (f.release regs).kinds =
    f.kinds :=
  (f.keeps_release regs).kinds_eq

lemma Routine.IsReady.fresh {r : Routine} {plan : Plan} {p : Pool} {hint : String}
    (ready : r.IsReady plan p) : r.IsReady plan { p with labels := (p.labels.fresh hint).2 } :=
  ready.grows (.names (.fresh (Emit.fresh_ok.2 ⟨rfl, rfl⟩)))

namespace Lower

variable {plan : Plan} {r : Routine} {Γ : Surroundings} {f : Frame} {p : Pool} {code : Code}
  {kind : ValueKind} {α : Type} {post : α → Frame → Pool → Prop} {c : Prop} {K : Scopes → Prop}

lemma yields_declare {name : String} {post : Variable → Frame → Pool → Prop}
    (same : ∀ x f' scope outer, f.kinds = scope :: outer → name ∉ scope.map (·.1) →
      f'.kinds = ((name, kind) :: scope) :: outer → f'.depth = f.depth →
      (post x f' p ↔ K f'.kinds)) :
    Yields (declare r name kind) f p post ↔ ∃ scope outer, f.kinds = scope :: outer ∧
      name ∉ scope.map (·.1) ∧ K (((name, kind) :: scope) :: outer) := by
  simp only [Yields, declare_ok, Frame.declare]
  cases found : f.scopes with
  | nil => simp [Frame.kinds, found]
  | cons scope outer =>
    have top : f.kinds = scope.map (fun pair => (pair.1, pair.2.kind)) :: outer.map fun scope =>
      scope.map fun pair => (pair.1, pair.2.kind) := by rw [Frame.kinds, found, map_cons]
    simp only [top, List.cons.injEq, existsAndEq]
    split
    next taken => simp_all
    next new =>
      have unused : name ∉ (scope.map fun pair => (pair.1, pair.2.kind)).map (·.1) := by
        simpa using new
      simp only [AgentCompiler.pure_ok, Prod.mk.injEq, existsAndEq, true_and, and_true]
      rw [and_iff_right unused]
      exact same _ _ _ _ top unused rfl rfl

section

variable {fields : List (String × Expr)} {schema : String} {s : SchemaLayout} {slots : List Slot}
  {payload : Register}

lemma find?_isNone_eq_none {α β : Type} {items : List α} {g : α → Option β} :
    items.find? (fun a => (g a).isNone) = none ↔ ∀ a ∈ items, (g a).isSome = true := by
  simp [find?_eq_none, Option.isSome_iff_ne_none]

lemma messageSchema_ok_iff {entity : String} :
    messageSchema plan entity schema fields = .ok s ↔ plan.layout.schema? schema = some s ∧
      (∀ pair ∈ fields, (s.payload.slot? pair.1).isSome = true) ∧
      ∀ slot ∈ s.payload.slots, (fields.lookup slot.name).isSome = true := by
  unfold messageSchema
  split
  next missing => simp [missing]
  next t known =>
    simp only [known, Option.some.injEq, ← find?_isNone_eq_none]
    constructor
    · cases extra : fields.find? fun pair => (t.payload.slot? pair.1).isNone <;>
      cases unset : t.payload.slots.find? fun slot => (fields.lookup slot.name).isNone <;>
      simp only [AgentCompiler.bind_ok, AgentCompiler.throw_ok, AgentCompiler.pure_ok,
        false_and, exists_false, false_imp_iff]
      rintro rfl
      exact ⟨rfl, extra, unset⟩
    · rintro ⟨rfl, extra, unset⟩
      simp only [extra, unset]
      rfl

lemma sets_exactly {record : Record} : (∀ pair ∈ fields, (record.slot? pair.1).isSome = true) ∧
        (∀ slot ∈ record.slots, (fields.lookup slot.name).isSome = true) ↔
      ∀ name, (fields.lookup name).isSome = true ↔
        name ∈ (record.slots.map fun slot => (slot.name, slot.type.kind)).map (·.1) := by
  have slots : ∀ name, (record.slot? name).isSome = true ↔ name ∈ record.slots.map (·.name) := by
    simp [Record.slot?, find?_isSome]
  have given : ∀ name, (fields.lookup name).isSome = true ↔ name ∈ fields.map (·.1) := by
    simp [lookup_isSome_iff]
  have both : ∀ A B : List String, (∀ name, name ∈ A ↔ name ∈ B) ↔
      (∀ name ∈ A, name ∈ B) ∧ ∀ name ∈ B, name ∈ A := by simp [iff_def, forall_and]
  simp only [slots, given, map_map, both, forall_mem_map]
  rfl

lemma messageFields_yields (describes : Γ.Describes plan r)
    (ready : r.IsReady plan p) {post : Code → Frame → Pool → Prop}
    (same : ∀ code g q, g.kinds = f.kinds → g.depth = f.depth → (post code g q ↔ c)) :
    Yields (messageFields plan r s payload fields slots) f p post ↔
      (∀ slot ∈ slots, ∀ e, fields.lookup slot.name = some e →
        HasKind Γ f.kinds e slot.type.kind ∧ f.depth + e.need ≤ 5) ∧ c := by
  induction slots generalizing f p post with
  | nil => simpa [messageFields] using same [] f p rfl rfl
  | cons slot rest ih =>
    rw [messageFields, forall_mem_cons, and_assoc]
    cases given : fields.lookup slot.name with
    | none => simpa using ih ready same
    | some e =>
      dsimp only
      rw [(expression_decides describes e).bind ready fun kind => kind = slot.type.kind ∧
        (∀ slot ∈ rest, ∀ e, fields.lookup slot.name = some e →
          HasKind Γ f.kinds e slot.type.kind ∧ f.depth + e.need ≤ 5) ∧ c]
      · simp only [existsAndEq, Option.some.injEq, true_and, forall_eq']
        tauto
      · intro v code g q takes ready
        rw [yields_bind, yields_expect, yields_bind, yields_release, yields_bind, ih ready,
          takes.release.kinds_eq, takes.release.depth]
        intro tail g' q' kinds depth
        exact yields_pure.trans (same _ g' q' (kinds.trans takes.release.kinds_eq)
          (depth.trans takes.release.depth))

lemma deliver_yields {goals : List String} {post : Code → Frame → Pool → Prop}
    (stored : ∀ goal ∈ goals, ∃ storage, plan.storage? goal = some storage)
    (same : ∀ code, post code f p ↔ c) : Yields (deliver plan r s payload goals) f p post ↔ c := by
  induction goals generalizing post with
  | nil => exact yields_pure.trans (same [])
  | cons goal rest ih =>
    obtain ⟨⟨storage, found⟩, later⟩ := forall_mem_cons.1 stored
    have first := storageOf_ok.2 found
    simp only [deliver, yields_bind, yields_lift, first, Except.ok.injEq, existsAndEq, true_and]
    rw [yields_call (by simp)]
    exact ih later fun tail => yields_pure.trans (same _)

lemma message_yields (describes : Γ.Describes plan r) (ready : r.IsReady plan p)
    (level : f.depth = 0) :
    Yields (message plan r schema fields) f p (fun _ f' _ => K f'.kinds) ↔
      ∃ after, Admits Γ f.kinds (.emit schema fields) after ∧ K after := by
  rw [message, yields_bind, yields_lift]
  simp only [messageSchema_ok_iff, admits_emit, existsAndEq, describes.schemas, true_and]
  cases known : plan.layout.schema? schema with
  | none => simp
  | some s =>
    have routes := describes.routes schema s known
    simp only [Option.some.injEq, Option.map_some, existsAndEq, true_and, sets_exactly, and_assoc,
      and_congr_right_iff]
    intro _
    cases split : plan.layout.destinations (.agent r.agent.name) s.name with
    | nil => simp [routes, split]
    | cons goal rest =>
      have routed := routes.2 (by simp [split])
      rw [yields_bind, yields_callValue (c := (∀ slot ∈ s.payload.slots, ∀ e,
        fields.lookup slot.name = some e → HasKind Γ f.kinds e slot.type.kind ∧
          f.depth + 1 + e.need ≤ 5) ∧ K f.kinds) (by simp)]
      · have four : ∀ n, 0 + 1 + n ≤ 5 ↔ n ≤ 4 := by omega
        simp [routed, level, Fits, four]
      · intro v first g takes _
        rw [yields_bind, messageFields_yields (c := K f.kinds) describes ready, takes.kinds_eq,
          takes.depth_eq]
        intro second g' q kinds _
        rw [yields_bind, ← takes.kinds_eq, ← kinds]
        refine deliver_yields (fun goal mem => describes.storage s.name goal (split ▸ mem)) ?_
        simp [Frame.kinds_release]

end

section

variable {body : List Stmt}

/-- Whether a statement is written is a matter of the rules, which also say what is in scope
behind it. -/
def Follows (Γ : Surroundings) (plan : Plan) (r : Routine) (s : Stmt) : Prop :=
  ∀ ⦃f : Frame⦄ ⦃p : Pool⦄ (K : Scopes → Prop), r.IsReady plan p → f.depth = 0 →
    (Yields (statement plan r s) f p (fun _ f' _ => K f'.kinds) ↔ ∃ after,
    Admits Γ f.kinds s after ∧ K after)

lemma statement_ready {s : Stmt} (ready : r.IsReady plan p)
    (h : statement plan r s f p = .ok ((code, f'), q)) : r.IsReady plan q :=
  ready.grows (statement_grows ready.knows ready.epilogue h)

lemma block_ready (ready : r.IsReady plan p) (h : block plan r body f p = .ok ((code, f'), q)) :
    r.IsReady plan q :=
  ready.grows (block_grows ready.knows ready.epilogue h)

lemma yields_fits {e : Expr} {g : Value × Code → Lower α} (describes : Γ.Describes plan r)
    (ready : r.IsReady plan p) (level : f.depth = 0) (K : ValueKind → Prop)
    (next : ∀ v code f' q, f.Takes v.reg f' → r.IsReady plan q →
    (Yields (g (v, code)) f' q post ↔ K v.kind)) :
    Yields (expression plan r e >>= g) f p post ↔ ∃ kind, Fits Γ f.kinds 5 e kind ∧ K kind := by
  rw [(expression_decides describes e).bind ready K next, level, zero_add, ← exists_and_right]
  simp only [Fits, and_right_comm]

section

variable (follows : ∀ s ∈ body, Follows Γ plan r s) (ready : r.IsReady plan p) (level : f.depth = 0)
include follows ready level

lemma statements_yields : Yields (statements plan r body) f p (fun _ _ _ => True) ↔
    AdmitsAll Γ f.kinds body := by
  induction body generalizing f p with
  | nil => simp [statements, AdmitsAll.nil]
  | cons s rest ih =>
    rw [statements, yields_bind, admitsAll_cons, ← follows s (mem_cons_self ..) _ ready level]
    refine yields_congr fun code g q run => ?_
    rw [← ih (fun s mem => follows s (.tail _ mem)) (statement_ready ready run)
      ((statement_advances run).depth.trans level)]
    simp

lemma block_yields {post : Code → Frame → Pool → Prop}
    (same : ∀ code g q, g.kinds = f.kinds → g.depth = 0 → r.IsReady plan q → (post code g q ↔ c)) :
    Yields (block plan r body) f p post ↔ AdmitsAll Γ ([] :: f.kinds) body ∧ c := by
  have inner := statements_yields (f := f.openScope) follows ready level
  rw [yields_iff (c := c)]
  · refine and_congr_left' (Iff.trans ?_ inner)
    simp only [Yields, and_true, block, inScope_ok]
    constructor
    · rintro ⟨code, g, q, e, run, rfl⟩
      exact ⟨code, e, q, run⟩
    · rintro ⟨code, e, q, run⟩
      exact ⟨code, _, q, e, run, rfl⟩
  · intro code g q run
    have advances := block_advances run
    refine same code g q ?_ (advances.1.depth.trans level) (block_ready ready run)
    rw [Frame.kinds, advances.2, Frame.kinds]

end

lemma condition_yields {cond : Expr} {l : Label} {what : String} {post : Code → Frame → Pool → Prop}
    (describes : Γ.Describes plan r) (ready : r.IsReady plan p) (level : f.depth = 0)
    (same : ∀ code g q, g.kinds = f.kinds → g.depth = 0 → r.IsReady plan q → (post code g q ↔ c)) :
    Yields (condition plan r cond l what) f p post ↔ Fits Γ f.kinds 5 cond .bool ∧ c := by
  rw [condition, yields_fits describes ready level fun kind => kind = .bool ∧ c]
  · simp
  · intro v code g q takes ready
    simp only [yields_bind, yields_expect, yields_release, yields_pure]
    rw [same _ _ _ takes.release.kinds_eq (takes.release.depth.trans level) ready]

lemma returnKind_eq_some : returnKind r.returns = some kind ↔
    r.returns = .status ∧ kind = .int ∨ ∃ type, r.returns = .value (some type) ∧
    kind = type.kind := by
  cases same : r.returns with
  | status => simp [returnKind, eq_comm]
  | value type => cases type <;> simp [returnKind, eq_comm]

lemma statement_follows (describes : Γ.Describes plan r) (s : Stmt) : Follows Γ plan r s := by
  induction s using Stmt.induction with
  | declare name value =>
    intro f p K ready level
    rw [statement, yields_fits describes ready level fun kind => ∃ scope outer,
      f.kinds = scope :: outer ∧ name ∉ scope.map (·.1) ∧ K (((name, kind) :: scope) :: outer)]
    · simp only [admits_declare]
      grind
    · intro v code g q takes _
      rw [yields_bind, yields_declare (K := K), takes.kinds_eq]
      simp
  | assign target value =>
    intro f p K ready level
    cases target with
    | state field =>
      rw [statement, yields_fits describes ready level fun kind =>
        Γ.state field = some kind ∧ K f.kinds]
      · simp [admits_iff Γ f.kinds (.assign (.state field) value)]
        grind
      · intro v code g q takes _
        simp [assignment, stateSlot_ok, describes.state, takes.kinds_eq]
        grind
    | var name =>
      rw [statement, yields_fits describes ready level fun kind =>
        f.kinds.flatten.lookup name = some kind ∧ K f.kinds]
      · simp [admits_iff Γ f.kinds (.assign (.var name) value)]
        grind
      · intro v code g q takes _
        simp [← takes.kinds_eq, g.lookup_kinds, assignment]
        grind
  | emit schema fields =>
    intro f p K ready level
    rw [statement]
    exact message_yields describes ready level
  | branch cond onTrue onFalse ihTrue ihFalse =>
    intro f p K ready level
    simp only [statement, yields_bind, yields_fresh]
    rw [condition_yields (c := AdmitsAll Γ ([] :: f.kinds) onTrue ∧
      AdmitsAll Γ ([] :: f.kinds) onFalse ∧ K f.kinds) describes (ready.fresh.fresh) level]
    · simp [admits_iff Γ f.kinds (.branch cond onTrue onFalse), and_assoc]
    · intro code g q kinds depth ready
      change Yields (block _ _ _) _ _ _ ↔ _
      rw [block_yields (c := AdmitsAll Γ ([] :: f.kinds) onFalse ∧ K f.kinds) ihTrue ready depth,
        kinds]
      intro code' g' q' kinds' depth' ready
      change Yields (block _ _ _) _ _ _ ↔ _
      rw [block_yields (c := K f.kinds) ihFalse ready depth', kinds', kinds]
      intro code'' g'' q'' kinds'' _ _
      simp [*]
  | loop cond body ih =>
    intro f p K ready level
    simp only [statement, yields_bind, yields_fresh]
    rw [condition_yields (c := AdmitsAll Γ ([] :: f.kinds) body ∧ K f.kinds) describes
      (ready.fresh.fresh) level]
    · simp [admits_iff Γ f.kinds (.loop cond body), and_assoc]
    · intro code g q kinds depth ready
      change Yields (block _ _ _) _ _ _ ↔ _
      rw [block_yields (c := K f.kinds) ih ready depth, kinds]
      intro code' g' q' kinds' _ _
      simp [*]
  | block body ih =>
    intro f p K ready level
    rw [statement_block, block_yields (c := K f.kinds) ih ready level]
    · simp [admits_iff Γ f.kinds (.block body)]
    · simp +contextual
  | write value =>
    intro f p K ready level
    rw [statement, yields_fits describes ready level fun _ => K f.kinds]
    · simp [admits_iff Γ f.kinds (.write value)]
    · intro v code g q takes _
      simp [print, yields_call, takes.kinds_eq]
  | report value =>
    intro f p K ready level
    rw [statement]
    split
    next enabled =>
      rw [yields_bind, yields_internText (c := ∃ kind, Fits Γ f.kinds 5 value kind ∧ K f.kinds)
        ready]
      · have plain : hasNul "\n" = false := by decide
        simp [admits_iff Γ f.kinds (.report value), describes.reports, enabled, plain]
      · intro newline s interned
        refine yields_fits describes (ready.grows (.interns (.text interned))) level
          (fun _ => K f.kinds) ?_
        intro v code g q takes _
        simp [print, yields_call, takes.kinds_eq]
    next disabled => simp [admits_iff Γ f.kinds (.report value), describes.reports, disabled]
  | ret value =>
    intro f p K ready level
    simp only [statement, returnCode]
    cases value with
    | none =>
      simp only [admits_iff Γ f.kinds (.ret none), describes.returns]
      cases r.returns with
      | status => simp [returnKind]
      | value type => cases type <;> simp [returnKind]
    | some value =>
      simp only [admits_iff Γ f.kinds (.ret (some value)), describes.returns, ← returnKind_eq_some]
      cases returnKind r.returns with
      | none => simp
      | some want =>
        dsimp only
        rw [yields_fits describes ready level fun kind => kind = want ∧ K f.kinds]
        · simp [and_comm]
        · intro v code g q takes _
          simp [takes.kinds_eq]

lemma block_accepted_iff (describes : Γ.Describes plan r) (ready : r.IsReady plan p)
    (level : f.depth = 0) :
    Yields (block plan r body) f p (fun _ _ _ => True) ↔ AdmitsAll Γ ([] :: f.kinds) body := by
  have follows : ∀ s ∈ body, Follows Γ plan r s := fun s _ => statement_follows describes s
  rw [block_yields (c := True) follows ready level fun _ _ _ _ _ _ => .rfl, and_true]

end

end Lower

end AgentCompiler
