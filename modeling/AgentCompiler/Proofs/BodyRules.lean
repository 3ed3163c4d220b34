import AgentCompiler.Lowering.Expression
import Mathlib

/-!
The rules of bodies, apart from the code that is written for them.

A body is read in its surroundings: the fields of the agent's state and of the message, the helpers
of the template, the schemas and which of them the agent has a route for. `HasKind` gives an
expression its kind, `need` counts the scratch registers that it takes at a time, and `Admits` goes
through statements with the names that are in scope.
-/

namespace AgentCompiler

variable {name : String}

/-- The names in scope with their kinds, the innermost scope first, each with its newest name
first. -/
abbrev Scopes := List (List (String × ValueKind))

structure Surroundings where
  state : String → Option ValueKind
  /-- Fields of the message being handled; helpers have none. -/
  message : Option (String → Option ValueKind)
  helpers : String → Option (List ValueKind × ValueKind)
  schemas : String → Option (List (String × ValueKind))
  isRouted : String → Bool
  returns : Returns
  reports : Bool

def UnaryOperator.kind : UnaryOperator → ValueKind
  | neg | bitNot => .int
  | not => .bool

inductive BinaryOperator.Joins : BinaryOperator → ValueKind → ValueKind → Prop
  | arithmetic {op : BinaryOperator} (h : op ∈ [add, sub, mul, div, mod, shl, shr]) :
      Joins op .int .int
  | bitwise {op : BinaryOperator} {kind : ValueKind} (h : op ∈ [and, or, xor])
      (plain : kind ≠ .str) : Joins op kind kind
  | logical {op : BinaryOperator} (h : op ∈ [land, lor]) : Joins op .bool .bool
  | equality {op : BinaryOperator} {kind : ValueKind} (h : op ∈ [eq, ne]) : Joins op kind .bool
  | ordering {op : BinaryOperator} (h : op ∈ [lt, le, gt, ge]) : Joins op .int .bool
  | texts : Joins add .str .str

def Builtin.signature : Builtin → List ValueKind × ValueKind
  | len => ([.str], .int)
  | concat => ([.str, .str], .str)
  | format => ([.int], .str)
  | Builtin.repeat => ([.str, .int], .str)
  | readInput => ([.int], .str)

mutual

@[mk_iff] inductive HasKind (Γ : Surroundings) (names : Scopes) : Expr → ValueKind → Prop
  | int (value : Int64) : HasKind Γ names (.int value) .int
  | bool (value : Bool) : HasKind Γ names (.bool value) .bool
  | str {value : String} (plain : hasNul value = false) : HasKind Γ names (.str value) .str
  | state {field : String} {kind : ValueKind} (known : Γ.state field = some kind) : HasKind Γ names
      (.state field) kind
  | field {fields : String → Option ValueKind} {field : String} {kind : ValueKind}
      (handled : Γ.message = some fields) (known : fields field = some kind) :
      HasKind Γ names (.field field) kind
  | var {name : String} {kind : ValueKind} (known : names.flatten.lookup name = some kind) :
      HasKind Γ names (.var name) kind
  | unary {op : UnaryOperator} {operand : Expr} (has : HasKind Γ names operand op.kind) :
      HasKind Γ names (.unary op operand) op.kind
  | binary {op : BinaryOperator} {lhs rhs : Expr} {kind result : ValueKind}
      (left : HasKind Γ names lhs kind) (right : HasKind Γ names rhs kind)
      (joins : op.Joins kind result) : HasKind Γ names (.binary op lhs rhs) result
  /-- The number of bytes to read may be left out. -/
  | read : HasKind Γ names (.builtin .readInput []) .str
  | builtin {name : Builtin} {args : List Expr} (given : HaveKinds Γ names args name.signature.1) :
      HasKind Γ names (.builtin name args) name.signature.2
  | call {helper : String} {args : List Expr} {params : List ValueKind} {result : ValueKind}
      (known : Γ.helpers helper = some (params, result)) (given : HaveKinds Γ names args params) :
      HasKind Γ names (.call helper args) result

@[mk_iff] inductive HaveKinds (Γ : Surroundings) (names : Scopes) : List Expr →
    List ValueKind → Prop
  | nil : HaveKinds Γ names [] []
  | cons {e : Expr} {rest : List Expr} {kind : ValueKind} {kinds : List ValueKind}
      (first : HasKind Γ names e kind) (others : HaveKinds Γ names rest kinds) :
      HaveKinds Γ names (e :: rest) (kind :: kinds)

end

section

variable {Γ : Surroundings} {names : Scopes} {kind : ValueKind} {kinds : List ValueKind}
  {e lhs rhs : Expr} {es : List Expr}

@[simp] lemma hasKind_int {value : Int64} : HasKind Γ names (.int value) kind ↔ kind = .int := by
  simp [hasKind_iff Γ names (.int value)]

@[simp] lemma hasKind_bool {value : Bool} : HasKind Γ names (.bool value) kind ↔ kind = .bool := by
  simp [hasKind_iff Γ names (.bool value)]

@[simp] lemma hasKind_str {text : String} : HasKind Γ names (.str text) kind ↔ hasNul text = false ∧
    kind = .str := by
  simp [hasKind_iff Γ names (.str text)]

@[simp] lemma hasKind_state : HasKind Γ names (.state name) kind ↔ Γ.state name = some kind := by
  simp [hasKind_iff Γ names (.state name)]

@[simp] lemma hasKind_field : HasKind Γ names (.field name) kind ↔
    ∃ fields, Γ.message = some fields ∧ fields name = some kind := by
  simp [hasKind_iff Γ names (.field name)]

@[simp] lemma hasKind_var :
    HasKind Γ names (.var name) kind ↔ names.flatten.lookup name = some kind := by
  simp [hasKind_iff Γ names (.var name)]

@[simp] lemma hasKind_unary {op : UnaryOperator} :
    HasKind Γ names (.unary op e) kind ↔ HasKind Γ names e op.kind ∧ kind = op.kind := by
  simp [hasKind_iff Γ names (.unary op e)]

@[simp] lemma hasKind_binary {op : BinaryOperator} : HasKind Γ names (.binary op lhs rhs) kind ↔
    ∃ k, HasKind Γ names lhs k ∧ HasKind Γ names rhs k ∧ op.Joins k kind := by
  simp [hasKind_iff Γ names (.binary op lhs rhs)]

@[simp] lemma hasKind_builtin {name : Builtin} : HasKind Γ names (.builtin name es) kind ↔
    (name = .readInput ∧ es = []) ∧ kind = .str ∨ HaveKinds Γ names es name.signature.1 ∧
    kind = name.signature.2 := by
  simp [hasKind_iff Γ names (.builtin name es)]

@[simp] lemma hasKind_call : HasKind Γ names (.call name es) kind ↔
    ∃ params, Γ.helpers name = some (params, kind) ∧ HaveKinds Γ names es params := by
  simp [hasKind_iff Γ names (.call name es)]

@[simp] lemma haveKinds_cons : HaveKinds Γ names (e :: es) (kind :: kinds) ↔
    HasKind Γ names e kind ∧ HaveKinds Γ names es kinds := by
  simp [haveKinds_iff Γ names (e :: es)]

lemma HaveKinds.length_eq (h : HaveKinds Γ names es kinds) : es.length = kinds.length := by
  induction es generalizing kinds with
  | nil =>
    cases h
    rfl
  | cons e rest ih =>
    cases h with
    | cons _ others => exact congrArg Nat.succ (ih others)

end

mutual

/-- Scratch registers that an expression takes at a time. Its value takes one, and a value that is
already there stays while the next one is computed. -/
def Expr.need : Expr → Nat
  | .unary _ operand => operand.need
  | .binary _ lhs rhs => max lhs.need (rhs.need + 1)
  | .builtin _ args => max 1 (Expr.needOf args)
  | .call _ args => max 1 (Expr.needOf args)
  | _ => 1

def Expr.needOf : List Expr → Nat
  | [] => 0
  | e :: rest => max e.need (Expr.needOf rest + 1)

end

def Fits (Γ : Surroundings) (names : Scopes) (regs : Nat) (e : Expr) (kind : ValueKind) : Prop :=
  HasKind Γ names e kind ∧ e.need ≤ regs

mutual

@[mk_iff] inductive Admits (Γ : Surroundings) : Scopes → Stmt → Scopes → Prop
  | declare {scope : List (String × ValueKind)} {outer : Scopes} {name : String} {value : Expr}
      {kind : ValueKind} (fits : Fits Γ (scope :: outer) 5 value kind)
      (new : name ∉ scope.map (·.1)) :
      Admits Γ (scope :: outer) (.declare name value) (((name, kind) :: scope) :: outer)
  | assignState {names : Scopes} {field : String} {value : Expr} {kind : ValueKind}
      (known : Γ.state field = some kind) (fits : Fits Γ names 5 value kind) :
      Admits Γ names (.assign (.state field) value) names
  | assignVar {names : Scopes} {name : String} {value : Expr} {kind : ValueKind}
      (known : names.flatten.lookup name = some kind) (fits : Fits Γ names 5 value kind) :
      Admits Γ names (.assign (.var name) value) names
  /-- A message sets exactly the fields of its schema. They are looked at only if the message goes
  anywhere, and the payload takes one of the registers. -/
  | emit {names : Scopes} {schema : String} {given : List (String × Expr)}
      {fields : List (String × ValueKind)} (known : Γ.schemas schema = some fields)
      (exact : ∀ name, (given.lookup name).isSome ↔ name ∈ fields.map (·.1))
      (fits : Γ.isRouted schema = true → ∀ field ∈ fields, ∀ e, given.lookup field.1 = some e →
        Fits Γ names 4 e field.2) :
      Admits Γ names (.emit schema given) names
  | branch {names : Scopes} {cond : Expr} {onTrue onFalse : List Stmt}
      (fits : Fits Γ names 5 cond .bool) (first : AdmitsAll Γ ([] :: names) onTrue)
      (second : AdmitsAll Γ ([] :: names) onFalse) :
      Admits Γ names (.branch cond onTrue onFalse) names
  | loop {names : Scopes} {cond : Expr} {body : List Stmt} (fits : Fits Γ names 5 cond .bool)
      (inner : AdmitsAll Γ ([] :: names) body) : Admits Γ names (.loop cond body) names
  | block {names : Scopes} {body : List Stmt} (inner : AdmitsAll Γ ([] :: names) body) :
      Admits Γ names (.block body) names
  | write {names : Scopes} {value : Expr} {kind : ValueKind} (fits : Fits Γ names 5 value kind) :
      Admits Γ names (.write value) names
  /-- Reports are looked at only if they are compiled. -/
  | report {names : Scopes} {value : Expr}
      (fits : Γ.reports = true → ∃ kind, Fits Γ names 5 value kind) :
      Admits Γ names (.report value) names
  /-- A handler may end without a status, and a helper without a result has none to return. -/
  | leave {names : Scopes} (open_end : Γ.returns = .status ∨ Γ.returns = .value none) :
      Admits Γ names (.ret none) names
  | ret {names : Scopes} {value : Expr} {kind : ValueKind}
        (wanted : Γ.returns = .status ∧ kind = .int ∨ ∃ type, Γ.returns = .value (some type) ∧
        kind = type.kind)
      (fits : Fits Γ names 5 value kind) : Admits Γ names (.ret (some value)) names

@[mk_iff] inductive AdmitsAll (Γ : Surroundings) : Scopes → List Stmt → Prop
  | nil {names : Scopes} : AdmitsAll Γ names []
  | cons {names after : Scopes} {s : Stmt} {rest : List Stmt} (first : Admits Γ names s after)
      (others : AdmitsAll Γ after rest) : AdmitsAll Γ names (s :: rest)

end

section

variable {Γ : Surroundings} {names after : Scopes} {s : Stmt} {body : List Stmt}

lemma admits_declare {value : Expr} :
    Admits Γ names (.declare name value) after ↔ ∃ scope outer kind, names = scope :: outer ∧
      Fits Γ names 5 value kind ∧ name ∉ scope.map (·.1) ∧
      ((name, kind) :: scope) :: outer = after := by
  constructor
  · rintro ⟨⟩
    exact ⟨_, _, _, rfl, ‹_›, ‹_›, rfl⟩
  · rintro ⟨scope, outer, kind, rfl, fits, new, rfl⟩
    exact .declare fits new

lemma admits_emit {schema : String} {given : List (String × Expr)} :
    Admits Γ names (.emit schema given) after ↔ names = after ∧ ∃ fields, Γ.schemas schema =
      some fields ∧ (∀ name, (given.lookup name).isSome = true ↔ name ∈ fields.map (·.1)) ∧
      (Γ.isRouted schema = true → ∀ field ∈ fields, ∀ e, given.lookup field.1 = some e →
      Fits Γ names 4 e field.2) := by
  constructor
  · rintro ⟨⟩
    exact ⟨rfl, _, ‹_›, ‹_›, ‹_›⟩
  · rintro ⟨rfl, _, known, exactly, fits⟩
    exact .emit known exactly fits

lemma admitsAll_cons : AdmitsAll Γ names (s :: body) ↔ ∃ after, Admits Γ names s after ∧
    AdmitsAll Γ after body := by
  simp [admitsAll_iff Γ names (s :: body)]

end

namespace Program

def surroundings (program : Program) (reports : Bool) (agent : String) (template : Template)
    (message : Option Schema) (returns : Returns) : Surroundings where
  state field := (template.state.find? (·.name == field)).map (·.type.kind)
  message := message.map fun schema field =>
    (schema.fields.find? (·.name == field)).map (·.type.kind)
  helpers name := (template.helpers.find? (·.name == name)).map fun helper =>
    (helper.params.map (·.type.kind), (helper.returns.map (·.kind)).getD .int)
  schemas name := (program.schema? name).map fun schema =>
    schema.fields.map fun field => (field.name, field.type.kind)
  isRouted schema := program.routes.any fun route =>
    route.source == .agent agent && route.schema == schema && !route.destinations.isEmpty
  returns := returns
  reports := reports

/-- The handler knows its message, and its body is a scope of its own. -/
def AdmitsHandler (program : Program) (reports : Bool) (agent : String) (template : Template)
    (handler : Handler) : Prop :=
  ∃ schema, program.schema? handler.schema = some schema ∧
    AdmitsAll (program.surroundings reports agent template (some schema) .status)
    [[], []] handler.body

def AdmitsHelper (program : Program) (reports : Bool) (agent : String) (template : Template)
    (helper : Helper) : Prop :=
  (helper.params.map (·.name)).Nodup ∧
    AdmitsAll (program.surroundings reports agent template none (.value helper.returns))
      [[], (helper.params.map fun param => (param.name, param.type.kind)).reverse] helper.body

def AdmitsBodies (program : Program) (reports : Bool) : Prop :=
  ∀ agent ∈ program.instances, ∃ template, program.template? agent.template = some template ∧
    (∀ handler ∈ template.handlers, program.AdmitsHandler reports agent.name template handler) ∧
    ∀ helper ∈ template.helpers, program.AdmitsHelper reports agent.name template helper

end Program

end AgentCompiler
