import AgentCompiler.Program.Document
import AgentCompiler.Proofs.Emission
import AgentCompiler.Proofs.WrittenRecords

/-!
Programs are read back from their printed documents. The readers of expressions and statements are
opened along the syntax; all else is records of records.
-/

namespace AgentCompiler

open Json Option Program

variable {body : List Stmt} {p : Program}

lemma UnaryOperator.carries (op : UnaryOperator) : Carries (readChoice all name true)
    (.text op.name) op :=
  carries_choice (by cases op <;> decide)

lemma BinaryOperator.carries (op : BinaryOperator) : Carries (readChoice all name true)
    (.text op.name) op :=
  carries_choice (by cases op <;> decide)

lemma Builtin.carries (builtin : Builtin) : Carries (readChoice all name true)
    (.text builtin.name) builtin :=
  carries_choice (by cases builtin <;> decide)

lemma ValueType.carries (type : ValueType) : Carries ValueType.read? (.text type.name) type :=
  carries_choice (by cases type <;> decide)

namespace Expr

lemma documents_eq_map (args : List Expr) : documents args = args.map document := by
  induction args with
  | nil => rfl
  | cons e args ih => rw [documents, ih, List.map_cons]

lemma argumentsOf?_some (levels : Nat) (j : Json) :
    argumentsOf? levels (some j) = readList (ofJson? true) levels j := by
  cases levels <;> cases j <;> simp [argumentsOf?, readList]

lemma carries_documents {args : List Expr} (all : ∀ e ∈ args, Carries (ofJson? true) e.document e) :
    Carries (fun levels j => argumentsOf? levels (some j)) (.array (documents args)) args := by
  have list := carries_list all
  rw [documents_eq_map]
  exact ⟨list.isExact, fun nests => (argumentsOf?_some _ _).trans (list.reads nests)⟩

lemma carries (isNested : Bool) (e : Expr) : Carries (ofJson? isNested) e.document e := by
  induction e using Expr.induction generalizing isNested with
  | int value | bool value | str value | state value | field value | var value =>
    refine carries_tagged_single kinds isNested _ _ (by constructor) rfl (by decide) ?_
    intro levels j shape
    simp [ofJson?, shape]
  | unary op operand ih =>
    have named := op.carries
    refine carries_tagged kinds isNested "unary" ["op", "operand"] [_, _] rfl (by decide) rfl
      ⟨named.isExact, (ih true).isExact⟩ ?_
    rintro levels j ⟨first, second⟩ shape
    simp [ofJson?, shape, named.reads first, (ih true).reads second]
  | binary op lhs rhs ihl ihr =>
    have named := op.carries
    refine carries_tagged kinds isNested "binary" ["op", "lhs", "rhs"] [_, _, _] rfl (by
      decide) rfl ⟨named.isExact, (ihl true).isExact, (ihr true).isExact⟩ ?_
    rintro levels j ⟨first, second, third⟩ shape
    simp [ofJson?, shape, named.reads first, (ihl true).reads second, (ihr true).reads third]
  | builtin name args ih =>
    have named := name.carries
    have arguments := carries_documents fun e mem => ih e mem true
    refine carries_tagged kinds isNested "builtin" ["name", "args"] [_, _] rfl (by decide) rfl
      ⟨named.isExact, arguments.isExact⟩ ?_
    rintro levels j ⟨first, second⟩ shape
    simp [ofJson?, shape, named.reads first, arguments.reads second]
  | call name args ih =>
    have arguments := carries_documents fun e mem => ih e mem true
    refine carries_tagged kinds isNested "call" ["helper", "args"] [_, _] rfl (by decide) rfl
      ⟨.text _, arguments.isExact⟩ ?_
    rintro levels j ⟨-, second⟩ shape
    simp [ofJson?, shape, arguments.reads second]

lemma document_ne_null (e : Expr) : e.document ≠ .null := by
  cases e <;> simp [document]

end Expr

lemma Target.carries (target : Target) : Carries (fun _ => Target.ofJson? true)
    target.document target := by
  cases target with
  | state name | var name =>
    refine carries_tagged_single Target.kinds true _ _ (.text name) rfl (by decide) ?_
    intro levels j shape
    simp [Target.ofJson?, shape]

namespace Stmt

mutual

def IsOrdered : Stmt → Prop
  | emit _ fields => IsByName fields
  | branch _ onTrue onFalse => AreOrdered onTrue ∧ AreOrdered onFalse
  | loop _ body | block body => AreOrdered body
  | _ => True

def AreOrdered : List Stmt → Prop
  | [] => True
  | s :: rest => s.IsOrdered ∧ AreOrdered rest

end

lemma areOrdered_iff (body : List Stmt) : AreOrdered body ↔ ∀ s ∈ body, s.IsOrdered := by
  induction body with
  | nil => simp [AreOrdered]
  | cons s body ih => simp [AreOrdered, ih]

lemma documents_eq_map (body : List Stmt) : documents body = body.map document := by
  induction body with
  | nil => rfl
  | cons s body ih => rw [documents, ih, List.map_cons]

lemma nestedBody?_some (levels : Nat) (j : Json) :
    nestedBody? levels (some j) = readList (ofJson? true) levels j := by
  cases levels <;> cases j <;> simp [nestedBody?, readList]

lemma carries_optionDocument (value : Option Expr) :
    Carries (fun levels j => nullable (Expr.ofJson? true levels) (some j))
        (optionDocument value) value := by
  have written : optionDocument value = (value.map (·.document)).getD .null := by
    cases value <;> rfl
  rw [written]
  exact carries_nullable (fun e _ => e.document_ne_null) fun e _ => e.carries true

lemma carries_documents (all : ∀ s ∈ body, ∀ isNested, s.IsOrdered → Carries (ofJson? isNested)
    s.document s) (ordered : AreOrdered body) :
    Carries (fun levels j => nestedBody? levels (some j)) (.array (documents body)) body := by
  have list := carries_list fun s mem => all s mem true ((areOrdered_iff _).1 ordered s mem)
  rw [documents_eq_map]
  exact ⟨list.isExact, fun nests => (nestedBody?_some _ _).trans (list.reads nests)⟩

lemma carries (isNested : Bool) (s : Stmt) (ordered : s.IsOrdered) : Carries (ofJson? isNested)
    s.document s := by
  induction s using Stmt.induction generalizing isNested with
  | declare name value =>
    have valued := value.carries true
    refine carries_tagged kinds isNested "let" ["name", "value"] [_, _] rfl (by decide) rfl
      ⟨.text _, valued.isExact⟩ ?_
    rintro levels j ⟨-, second⟩ shape
    simp [ofJson?, shape, valued.reads second]
  | assign target value =>
    have targeted := target.carries
    have valued := value.carries true
    refine carries_tagged kinds isNested "assign" ["target", "value"] [_, _] rfl (by decide)
      rfl ⟨targeted.isExact, valued.isExact⟩ ?_
    rintro levels j ⟨first, second⟩ shape
    simp [ofJson?, shape, targeted.reads first, valued.reads second]
  | emit schema fields =>
    have given := carries_map ordered fun m _ => m.2.carries true
    refine carries_tagged kinds isNested "emit" ["schema", "fields"] [_, _] rfl (by decide) rfl
      ⟨.text _, given.isExact⟩ ?_
    rintro levels j ⟨-, second⟩ shape
    simp [ofJson?, shape, given.reads second]
  | branch cond onTrue onFalse ihTrue ihFalse =>
    have decided := cond.carries true
    have whenTrue := carries_documents ihTrue ordered.1
    have whenFalse := carries_documents ihFalse ordered.2
    refine carries_tagged kinds isNested "if" ["cond", "then", "else"] [_, _, _] rfl (by
      decide) rfl ⟨decided.isExact, whenTrue.isExact, whenFalse.isExact⟩ ?_
    rintro levels j ⟨first, second, third⟩ shape
    simp [ofJson?, shape, decided.reads first, whenTrue.reads second, whenFalse.reads third]
  | loop cond body ih =>
    have decided := cond.carries true
    have repeated := carries_documents ih ordered
    refine carries_tagged kinds isNested "while" ["cond", "body"] [_, _] rfl (by decide) rfl
      ⟨decided.isExact, repeated.isExact⟩ ?_
    rintro levels j ⟨first, second⟩ shape
    simp [ofJson?, shape, decided.reads first, repeated.reads second]
  | block body ih =>
    have inner := carries_documents ih ordered
    refine carries_tagged kinds isNested "block" ["body"] [_] rfl (by decide) rfl inner.isExact ?_
    intro levels j fits shape
    simp [ofJson?, shape, inner.reads fits]
  | write value =>
    have valued := value.carries true
    refine carries_tagged kinds isNested "write" ["value"] [_] rfl (by decide) rfl valued.isExact ?_
    intro levels j fits shape
    simp [ofJson?, shape, valued.reads fits]
  | report value =>
    have valued := value.carries true
    refine carries_tagged kinds isNested "report" ["value"]
      [_] rfl (by decide) rfl valued.isExact ?_
    intro levels j fits shape
    simp [ofJson?, shape, valued.reads fits]
  | ret value =>
    have valued := carries_optionDocument value
    refine carries_tagged kinds isNested "return" ["value"]
      [_] rfl (by decide) rfl valued.isExact ?_
    intro levels j fits shape
    simp [ofJson?, shape, valued.reads fits]

/-- A statement of a routine's body. Its reader looks at the nesting of the whole first. -/
lemma carries_read? {s : Stmt} (ordered : s.IsOrdered) : Carries read? s.document s := by
  have document := s.carries false ordered
  refine ⟨document.isExact, fun nests => ?_⟩
  rw [read?, if_pos (isPlainWithin_of_depth_le document.isExact nests), document.reads nests]

end Stmt

lemma FieldDecl.carries (f : FieldDecl) : Carries FieldDecl.read? f.document f := by
  have typed := f.type.carries
  refine carries_record ["name", "type"] [_, _] (by decide) rfl ⟨.text _, .text _⟩ ?_
  rintro levels ⟨-, second⟩
  simp [typed.reads second]

lemma Schema.carries (s : Schema) : Carries Schema.read? s.document s := by
  have fields := carries_list fun f (_ : f ∈ s.fields) => f.carries
  refine carries_record ["name", "fields"] [_, _] (by decide) rfl ⟨.text _, fields.isExact⟩ ?_
  rintro levels ⟨-, second⟩
  simp [fields.reads second]

lemma Literal.carries (value : Literal) : Carries (fun _ => Literal.read?)
    value.document value := by
  cases value with
  | bool value => exact ⟨.bool value, fun _ => rfl⟩
  | int value => exact ⟨.int value, fun _ => by simp [document, read?]⟩
  | str value => exact ⟨.text value, fun _ => rfl⟩

lemma Literal.document_ne_null (value : Literal) : value.document ≠ .null := by
  cases value <;> simp [document]

lemma StateField.carries (f : StateField) : Carries StateField.read? f.document f := by
  have typed := f.type.carries
  have initial := carries_nullable (fun value (_ : value ∈ f.init) => value.document_ne_null)
    fun value _ => value.carries
  refine carries_record ["name", "type", "init"] [_, _, _] (by decide) rfl
    ⟨.text _, .text _, initial.isExact⟩ ?_
  rintro levels ⟨-, second, third⟩
  simp [typed.reads second, initial.reads third]

lemma Stmt.carries_body (ordered : AreOrdered body) : Carries (readList read?)
    (.array (documents body)) body := by
  rw [documents_eq_map]
  exact carries_list fun s mem => carries_read? ((areOrdered_iff _).1 ordered s mem)

lemma Handler.carries {h : Handler} (ordered : Stmt.AreOrdered h.body) :
    Carries Handler.read? h.document h := by
  have body := Stmt.carries_body ordered
  refine carries_record ["schema", "body"] [_, _] (by decide) rfl ⟨.text _, body.isExact⟩ ?_
  rintro levels ⟨-, second⟩
  simp [body.reads second]

lemma Helper.carries {h : Helper} (ordered : Stmt.AreOrdered h.body) :
    Carries Helper.read? h.document h := by
  have params := carries_list fun f (_ : f ∈ h.params) => f.carries
  have returns : Carries _ ((h.returns.map (text ·.name)).getD .null) h.returns :=
    carries_nullable (by simp) fun type _ => type.carries
  have body := Stmt.carries_body ordered
  refine carries_record ["name", "params", "returns", "body"] [_, _, _, _] (by decide) rfl
    ⟨.text _, params.isExact, returns.isExact, body.isExact⟩ ?_
  rintro levels ⟨-, second, third, fourth⟩
  simp [params.reads second, returns.reads third, body.reads fourth]

def Template.IsOrdered (t : Template) : Prop :=
  (∀ h ∈ t.handlers, Stmt.AreOrdered h.body) ∧ ∀ h ∈ t.helpers, Stmt.AreOrdered h.body

lemma Template.carries {t : Template} (ordered : t.IsOrdered) :
    Carries Template.read? t.document t := by
  have state := carries_list fun f (_ : f ∈ t.state) => f.carries
  have handlers := carries_list fun h mem => Handler.carries (ordered.1 h mem)
  have helpers := carries_list fun h mem => Helper.carries (ordered.2 h mem)
  refine carries_record ["name", "state", "handlers", "helpers"] [_, _, _, _] (by decide) rfl
    ⟨.text _, state.isExact, handlers.isExact, helpers.isExact⟩ ?_
  rintro levels ⟨-, second, third, fourth⟩
  simp [state.reads second, handlers.reads third, helpers.reads fourth]

lemma AgentInstance.carries (i : AgentInstance) : Carries AgentInstance.read? i.document i := by
  refine carries_record ["name", "template"] [_, _] (by decide) rfl ⟨.text _, .text _⟩ ?_
  intro levels _
  simp

lemma Endpoint.carries (source : Endpoint) : Carries Endpoint.read? source.document source := by
  cases source with
  | external => exact ⟨.text _, fun {levels} _ => by cases levels <;> rfl⟩
  | agent name =>
    refine ⟨.object (by simp [IsExact.text]), fun nests => ?_⟩
    obtain ⟨n, rfl, -⟩ := depth_object_le.1 nests
    rfl

lemma Route.carries (r : Route) : Carries Route.read? r.document r := by
  have source := r.source.carries
  have destinations := carries_list fun name (_ : name ∈ r.destinations) =>
    carries_text name
  refine carries_record ["from", "schema", "to"] [_, _, _] (by decide) rfl ⟨source.isExact,
    .text _, destinations.isExact⟩ ?_
  rintro levels ⟨first, -, third⟩
  simp [source.reads first, destinations.reads third]

lemma Seed.carries {s : Seed} (ordered : IsByName s.fields) : Carries Seed.read? s.document s := by
  have fields := carries_map ordered fun m _ => m.2.carries
  refine carries_record ["schema", "fields"] [_, _] (by decide) rfl ⟨.text _, fields.isExact⟩ ?_
  rintro levels ⟨-, second⟩
  simp [fields.reads second]

def Program.IsOrdered (p : Program) : Prop := (∀ t ∈ p.templates, t.IsOrdered) ∧
    IsByName p.seed.fields

lemma Program.carries (ordered : p.IsOrdered) : Carries Program.read? p.document p := by
  have schemas := carries_list fun s (_ : s ∈ p.schemas) => s.carries
  have templates := carries_list fun t mem => Template.carries (ordered.1 t mem)
  have instances := carries_list fun i (_ : i ∈ p.instances) => i.carries
  have routes := carries_list fun r (_ : r ∈ p.routes) => r.carries
  have seed := Seed.carries ordered.2
  refine carries_record ["schemas", "templates", "instances", "routes", "seed"] [_, _, _, _, _]
    (by decide) rfl ⟨schemas.isExact, templates.isExact, instances.isExact, routes.isExact,
    seed.isExact⟩ ?_
  rintro levels ⟨first, second, third, fourth, fifth⟩
  simp [schemas.reads first, templates.reads second, instances.reads third, routes.reads fourth,
    seed.reads fifth]

namespace Stmt

lemma areOrdered_of_nestedBody? {levels : Nat}
    (below : ∀ n < levels, ∀ j s, ofJson? true n j = some s → s.IsOrdered) {field : Option Json}
    (result : nestedBody? levels field = some body) : AreOrdered body := by
  cases field with
  | none =>
    have empty : body = [] := by simpa [nestedBody?] using result.symm
    exact empty ▸ trivial
  | some j =>
    rw [nestedBody?_some] at result
    obtain ⟨n, rfl, found⟩ := readList_eq_some result
    refine (areOrdered_iff body).2 fun s mem => ?_
    obtain ⟨j, result⟩ := found s mem
    exact below n (Nat.lt_succ_self n) j s result

lemma isOrdered_of_ofJson? {isNested : Bool} {levels : Nat} {j : Json} {s : Stmt}
    (result : ofJson? isNested levels j = some s) : s.IsOrdered := by
  induction levels using Nat.strong_induction_on generalizing isNested j s with
  | _ levels ih =>
    cases levels with
    | zero => simp [ofJson?] at result
    | succ n =>
      have nested {field : Option Json} {body : List Stmt}
          (result : nestedBody? n field = some body) : AreOrdered body :=
        areOrdered_of_nestedBody? (fun k below j s => ih k (by omega)) result
      rw [ofJson?] at result
      obtain ⟨⟨kind, values⟩, -, result⟩ := bind_eq_some_iff.1 result
      split at result
      all_goals
        simp only [bind_eq_bind, bind_eq_some_iff, map_eq_map, map_eq_some_iff, some.injEq,
          reduceCtorEq] at result
      case h_3 =>
        obtain ⟨schema, -, fields, given, rfl⟩ := result
        exact readMap_isByName.orEmpty .nil given
      case h_4 =>
        obtain ⟨cond, -, onTrue, whenTrue, onFalse, whenFalse, rfl⟩ := result
        exact ⟨nested whenTrue, nested whenFalse⟩
      case h_5 =>
        obtain ⟨cond, -, body, repeated, rfl⟩ := result
        exact nested repeated
      case h_6 =>
        obtain ⟨body, inner, rfl⟩ := result
        exact nested inner
      case h_1 | h_2 =>
        obtain ⟨-, -, -, -, rfl⟩ := result
        trivial
      case h_7 | h_8 | h_9 =>
        obtain ⟨-, -, rfl⟩ := result
        trivial

lemma body_isOrdered : Ensures (readList read?) AreOrdered := by
  have each : Ensures read? IsOrdered := by
    intro levels j s result
    rw [read?] at result
    split at result
    · exact isOrdered_of_ofJson? result
    · cases result
  intro levels j body result
  exact (areOrdered_iff body).2 (each.list levels j body result)

end Stmt

lemma Handler.body_isOrdered : Ensures Handler.read? fun h => Stmt.AreOrdered h.body := by
  refine .record fun levels values h result => ?_
  split at result
  · simp only [bind_eq_bind, bind_eq_some_iff, some.injEq] at result
    obtain ⟨schema, -, body, given, rfl⟩ := result
    exact Stmt.body_isOrdered.orEmpty trivial given
  · cases result

lemma Helper.body_isOrdered : Ensures Helper.read? fun h => Stmt.AreOrdered h.body := by
  refine .record fun levels values h result => ?_
  split at result
  · simp only [bind_eq_bind, bind_eq_some_iff, some.injEq] at result
    obtain ⟨name, -, params, -, returns, -, body, given, rfl⟩ := result
    exact Stmt.body_isOrdered.orEmpty trivial given
  · cases result

lemma Template.read?_isOrdered : Ensures Template.read? IsOrdered := by
  refine .record fun levels values t result => ?_
  split at result
  · simp only [bind_eq_bind, bind_eq_some_iff, some.injEq] at result
    obtain ⟨name, -, state, -, handlers, handled, helpers, elped, rfl⟩ := result
    exact ⟨Handler.body_isOrdered.list.orEmpty (by simp) handled, Helper.body_isOrdered.list.orEmpty
      (by simp) elped⟩
  · cases result

lemma Seed.fields_isByName : Ensures Seed.read? fun s => IsByName s.fields := by
  refine .record fun levels values s result => ?_
  split at result
  · simp only [bind_eq_bind, bind_eq_some_iff, some.injEq] at result
    obtain ⟨schema, -, fields, given, rfl⟩ := result
    exact readMap_isByName.orEmpty .nil given
  · cases result

lemma Program.read?_isOrdered : Ensures Program.read? IsOrdered := by
  refine .record fun levels values p result => ?_
  split at result
  · simp only [bind_eq_bind, bind_eq_some_iff, some.injEq] at result
    obtain ⟨schemas, -, templates, given, instances, -, routes, -, seed, seeded, rfl⟩ := result
    exact ⟨Template.read?_isOrdered.list.orEmpty (by simp) given, Seed.fields_isByName _ _ _ seeded⟩
  · cases result

/-- What is asked of a reader and a printer of documents: what was printed is read back, unless it
nests too deep. -/
structure Json.IsFaithful (parse : String → Option Json) (render : Json → String) : Prop where
  reads : ∀ j : Json, j.IsExact → j.depth ≤ nestingLimit → parse (render j) = some j

lemma Json.isFaithful : IsFaithful Json.parse Json.render := ⟨fun _ exact _ => parse_render exact⟩

namespace Program

variable {parse : String → Option Json} {render : Json → String} {source : String}

lemma readWith_ok :
    readWith parse source = .ok p ↔ ∃ j, parse source = some j ∧ read? nestingLimit j = some p := by
  rw [readWith, bind_eq_bind, ← bind_eq_some_iff]
  cases (parse source).bind (read? nestingLimit) <;> simp

lemma isOrdered_of_read (result : readWith parse source = .ok p) : p.IsOrdered := by
  obtain ⟨j, -, result⟩ := readWith_ok.1 result
  exact read?_isOrdered _ j p result

def reprint (parse : String → Option Json) (render : Json → String) (source : String) :
    Outcome String := do
  let program ← readWith parse source
  return render program.document

lemma reprint_of_read (result : readWith parse source = .ok p) :
    reprint parse render source = .ok (render p.document) := by
  rw [reprint, result]
  rfl

section

variable (faithful : Json.IsFaithful parse render)
include faithful

lemma read_render_document (ordered : p.IsOrdered) (nests : p.document.depth ≤ nestingLimit) :
    readWith parse (render p.document) = .ok p :=
  readWith_ok.2 ⟨p.document, faithful.reads _ (carries ordered).isExact nests,
    (carries ordered).reads nests⟩

/-- Printing and reading. A program that gives its fields by name in order, as every program does
that was read, is read back from its printed document as long as that nests no deeper than
documents may; printing tells all such programs apart, and to print again what was read from a
printed document changes nothing. -/
theorem print_roundTrip :
    (∀ p : Program, p.IsOrdered → p.document.depth ≤ Json.nestingLimit →
      readWith parse (render p.document) = .ok p) ∧
    (∀ p q : Program, p.IsOrdered → q.IsOrdered → p.document.depth ≤ Json.nestingLimit →
      q.document.depth ≤ Json.nestingLimit → render p.document = render q.document → p = q) ∧
    (∀ source p, readWith parse source = .ok p → p.IsOrdered) ∧
    ∀ source, (∀ p, readWith parse source = .ok p → p.document.depth ≤ Json.nestingLimit) →
      (reprint parse render source >>= reprint parse render) = reprint parse render source := by
  refine ⟨fun p => read_render_document faithful, fun p q orderedP orderedQ nestsP nestsQ same =>
    ?_, fun source p => isOrdered_of_read, fun source nests => ?_⟩
  · have readP := read_render_document faithful orderedP nestsP
    rw [same, read_render_document faithful orderedQ nestsQ] at readP
    exact (Except.ok.inj readP).symm
  cases first : readWith parse source with
  | error d =>
    have failed : reprint parse render source = .error d := by
      rw [reprint, first]
      rfl
    rw [failed]
    rfl
  | ok p =>
    have again := read_render_document faithful (isOrdered_of_read first) (nests p first)
    rw [reprint_of_read first]
    exact reprint_of_read again

end

/-- A program with every kind of statement and expression, texts that have to be escaped and the
least of all integers. -/
def quotedChatter : Program where
  schemas := [⟨"Say", [⟨"text", .str⟩, ⟨"times", .i64⟩]⟩, ⟨"Done", []⟩]
  templates := [{
    name := "Speaker"
    state := [⟨"said", .i64, some (.int Int64.minValue)⟩, ⟨"loud", .bool, none⟩]
    handlers := [⟨"Say", [
      .declare "left" (.field "times"),
      .loop (.binary .gt (.var "left") (.int 0)) [
        .write (.builtin .concat [.field "text", .str "\"\\\n\t\x00\x1f\x7fé\n"]),
        .assign (.var "left") (.call "less" [.var "left"])],
      .branch (.unary .not (.state "loud")) [.report (.str "")] [.block [.ret none]],
      .assign (.state "said") (.unary .neg (.int (-9223372036854775808))),
      .emit "Say" [("text", .field "text"), ("times", .state "said")]]⟩]
    helpers := [⟨"less", [⟨"n", .i64⟩], some .i64,
      [.ret (some (.binary .sub (.var "n") (.int 1)))]⟩] }]
  instances := [⟨"speaker", "Speaker"⟩]
  routes := [⟨.external, "Say", ["speaker"]⟩, ⟨.agent "speaker", "Say", ["speaker", "speaker"]⟩]
  seed := ⟨"Say", [("text", .str "\u2028\""), ("times", .int 3)]⟩

theorem print_roundTrip_quotedChatter :
    quotedChatter.IsOrdered ∧ quotedChatter.document.depth = 12 ∧
      read quotedChatter.document.render = .ok quotedChatter ∧
      (reprint Json.parse Json.render quotedChatter.document.render >>= reprint Json.parse
        Json.render) = reprint Json.parse Json.render quotedChatter.document.render := by
  have ordered : quotedChatter.IsOrdered := by
    refine ⟨?_, by decide⟩
    simp only [quotedChatter, Template.IsOrdered, List.forall_mem_singleton, Stmt.AreOrdered,
      Stmt.IsOrdered]
    decide
  have depth : quotedChatter.document.depth = 12 := by decide
  have nests : quotedChatter.document.depth ≤ Json.nestingLimit := by
    rw [depth]
    decide
  have back := (print_roundTrip Json.isFaithful).1 quotedChatter ordered nests
  refine ⟨ordered, depth, back, (print_roundTrip Json.isFaithful).2.2.2 _ fun p result => ?_⟩
  rw [back] at result
  exact Except.ok.inj result ▸ nests

end Program

end AgentCompiler
