import AgentCompiler.Diagnostic
import AgentCompiler.Json.Record
import AgentCompiler.Json.Writer
import AgentCompiler.Program.Basic

/-!
Programs as JSON documents. Expressions, assignment targets and statements are tagged values, and
everything else is a record. A written document has all fields; a read one may leave out those
that have a default.
-/

namespace AgentCompiler

namespace Expr

def kinds : Json.Kinds :=
  [("int", ["value"]), ("bool", ["value"]), ("str", ["value"]), ("state", ["field"]),
    ("field", ["field"]), ("local", ["name"]), ("unary", ["op", "operand"]),
    ("binary", ["op", "lhs", "rhs"]), ("builtin", ["name", "args"]), ("call", ["helper", "args"])]

mutual

def ofJson? (isNested : Bool) : Nat → Json → Option Expr
  | 0, _ => none
  | levels + 1, j => do
      match ← j.tagged kinds isNested with
      | ("int", [some value]) => int <$> value.int64?
      | ("bool", [some value]) => bool <$> value.bool?
      | ("str", [some value]) => str <$> value.text?
      | ("state", [some name]) => state <$> name.text?
      | ("field", [some name]) => field <$> name.text?
      | ("local", [some name]) => var <$> name.text?
      | ("unary", [some op, some operand]) => do
          some (unary (← Json.readChoice UnaryOperator.all UnaryOperator.name true levels op)
            (← ofJson? true levels operand))
      | ("binary", [some op, some lhs, some rhs]) => do
          some (binary (← Json.readChoice BinaryOperator.all BinaryOperator.name true levels op)
            (← ofJson? true levels lhs) (← ofJson? true levels rhs))
      | ("builtin", [some name, args]) => do
          some (builtin (← Json.readChoice Builtin.all Builtin.name true levels name)
            (← argumentsOf? levels args))
      | ("call", [some name, args]) => do
          some (call (← name.text?) (← argumentsOf? levels args))
      | _ => none

def argumentsOf? : Nat → Option Json → Option (List Expr)
  | _, none => some []
  | levels + 1, some (.array items) => items.mapM (ofJson? true levels)
  | _, _ => none

end

mutual

def document : Expr → Json
  | int value => .object [("kind", .text "int"), ("value", .int value.toInt)]
  | bool value => .object [("kind", .text "bool"), ("value", .bool value)]
  | str value => .object [("kind", .text "str"), ("value", .text value)]
  | state name => .object [("kind", .text "state"), ("field", .text name)]
  | field name => .object [("kind", .text "field"), ("field", .text name)]
  | var name => .object [("kind", .text "local"), ("name", .text name)]
  | unary op operand =>
      .object [("kind", .text "unary"), ("op", .text op.name), ("operand", document operand)]
  | binary op lhs rhs =>
      .object [("kind", .text "binary"), ("op", .text op.name), ("lhs", document lhs),
        ("rhs", document rhs)]
  | builtin name args =>
      .object [("kind", .text "builtin"), ("name", .text name.name),
        ("args", .array (documents args))]
  | call name args =>
      .object [("kind", .text "call"), ("helper", .text name), ("args", .array (documents args))]

def documents : List Expr → List Json
  | [] => []
  | e :: rest => document e :: documents rest

end

end Expr

namespace Target

def kinds : Json.Kinds := [("state", ["field"]), ("local", ["name"])]

def ofJson? (isNested : Bool) (j : Json) : Option Target := do
  match ← j.tagged kinds isNested with
  | ("state", [some name]) => state <$> name.text?
  | ("local", [some name]) => var <$> name.text?
  | _ => none

def document : Target → Json
  | state name => .object [("kind", .text "state"), ("field", .text name)]
  | var name => .object [("kind", .text "local"), ("name", .text name)]

end Target

namespace Stmt

def kinds : Json.Kinds :=
  [("let", ["name", "value"]), ("assign", ["target", "value"]), ("emit", ["schema", "fields"]),
    ("if", ["cond", "then", "else"]), ("while", ["cond", "body"]), ("block", ["body"]),
    ("write", ["value"]), ("report", ["value"]), ("return", ["value"])]

mutual

def ofJson? (isNested : Bool) : Nat → Json → Option Stmt
  | 0, _ => none
  | levels + 1, j => do
      match ← j.tagged kinds isNested with
      | ("let", [some name, some value]) => do
          some (declare (← name.text?) (← Expr.ofJson? true levels value))
      | ("assign", [some target, some value]) => do
          some (assign (← Target.ofJson? true target) (← Expr.ofJson? true levels value))
      | ("emit", [some schema, fields]) => do
          some (emit (← schema.text?)
            (← Json.orDefault [] (Json.readMap (Expr.ofJson? true) levels) fields))
      | ("if", [some cond, onTrue, onFalse]) => do
          some (branch (← Expr.ofJson? true levels cond) (← nestedBody? levels onTrue)
            (← nestedBody? levels onFalse))
      | ("while", [some cond, body]) => do
          some (loop (← Expr.ofJson? true levels cond) (← nestedBody? levels body))
      | ("block", [body]) => block <$> nestedBody? levels body
      | ("write", [some value]) => write <$> Expr.ofJson? true levels value
      | ("report", [some value]) => report <$> Expr.ofJson? true levels value
      | ("return", [value]) => ret <$> Json.nullable (Expr.ofJson? true levels) value
      | _ => none

def nestedBody? : Nat → Option Json → Option (List Stmt)
  | _, none => some []
  | levels + 1, some (.array items) => items.mapM (ofJson? true levels)
  | _, _ => none

end

def optionDocument : Option Expr → Json
  | none => .null
  | some e => e.document

mutual

def document : Stmt → Json
  | declare name value =>
      .object [("kind", .text "let"), ("name", .text name), ("value", value.document)]
  | assign target value =>
      .object [("kind", .text "assign"), ("target", target.document), ("value", value.document)]
  | emit schema fields =>
      .object [("kind", .text "emit"), ("schema", .text schema),
        ("fields", .object (fields.map fun (name, e) => (name, e.document)))]
  | branch cond onTrue onFalse =>
      .object [("kind", .text "if"), ("cond", cond.document), ("then", .array (documents onTrue)),
        ("else", .array (documents onFalse))]
  | loop cond body =>
      .object [("kind", .text "while"), ("cond", cond.document), ("body", .array (documents body))]
  | block body => .object [("kind", .text "block"), ("body", .array (documents body))]
  | write value => .object [("kind", .text "write"), ("value", value.document)]
  | report value => .object [("kind", .text "report"), ("value", value.document)]
  | ret value => .object [("kind", .text "return"), ("value", optionDocument value)]

def documents : List Stmt → List Json
  | [] => []
  | s :: rest => document s :: documents rest

end

def read? (levels : Nat) (j : Json) : Option Stmt :=
  if j.isPlainWithin levels then ofJson? false levels j else none

end Stmt

namespace ValueType

def read? : Nat → Json → Option ValueType := Json.readChoice all name false

end ValueType

namespace FieldDecl

def read? : Nat → Json → Option FieldDecl :=
  Json.readRecord ["name", "type"] fun levels values =>
    match values with
    | [some name, some type] => do some ⟨← name.text?, ← ValueType.read? levels type⟩
    | _ => none

def document (f : FieldDecl) : Json :=
  .object [("name", .text f.name), ("type", .text f.type.name)]

end FieldDecl

namespace Schema

def read? : Nat → Json → Option Schema :=
  Json.readRecord ["name", "fields"] fun levels values =>
    match values with
    | [some name, fields] => do
        some ⟨← name.text?, ← Json.orDefault [] (Json.readList FieldDecl.read? levels) fields⟩
    | _ => none

def document (s : Schema) : Json :=
  .object [("name", .text s.name), ("fields", .array (s.fields.map (·.document)))]

end Schema

namespace Literal

def read? : Json → Option Literal
  | .bool value => some (bool value)
  | .text value => some (str value)
  | j => int <$> j.int64?

def document : Literal → Json
  | bool value => .bool value
  | int value => .int value.toInt
  | str value => .text value

end Literal

namespace StateField

def read? : Nat → Json → Option StateField :=
  Json.readRecord ["name", "type", "init"] fun levels values =>
    match values with
    | [some name, some type, init] => do
        some ⟨← name.text?, ← ValueType.read? levels type, ← Json.nullable Literal.read? init⟩
    | _ => none

def document (f : StateField) : Json :=
  .object [("name", .text f.name), ("type", .text f.type.name),
    ("init", (f.init.map (·.document)).getD .null)]

end StateField

namespace Handler

def read? : Nat → Json → Option Handler :=
  Json.readRecord ["schema", "body"] fun levels values =>
    match values with
    | [some schema, body] => do
        some ⟨← schema.text?, ← Json.orDefault [] (Json.readList Stmt.read? levels) body⟩
    | _ => none

def document (h : Handler) : Json :=
  .object [("schema", .text h.schema), ("body", .array (Stmt.documents h.body))]

end Handler

namespace Helper

def read? : Nat → Json → Option Helper :=
  Json.readRecord ["name", "params", "returns", "body"] fun levels values =>
    match values with
    | [some name, params, returns, body] => do
        some {
          name := ← name.text?
          params := ← Json.orDefault [] (Json.readList FieldDecl.read? levels) params
          returns := ← Json.nullable (ValueType.read? levels) returns
          body := ← Json.orDefault [] (Json.readList Stmt.read? levels) body }
    | _ => none

def document (h : Helper) : Json :=
  .object [("name", .text h.name), ("params", .array (h.params.map (·.document))),
    ("returns", (h.returns.map (Json.text ·.name)).getD .null),
    ("body", .array (Stmt.documents h.body))]

end Helper

namespace Template

def read? : Nat → Json → Option Template :=
  Json.readRecord ["name", "state", "handlers", "helpers"] fun levels values =>
    match values with
    | [some name, state, handlers, helpers] => do
        some {
          name := ← name.text?
          state := ← Json.orDefault [] (Json.readList StateField.read? levels) state
          handlers := ← Json.orDefault [] (Json.readList Handler.read? levels) handlers
          helpers := ← Json.orDefault [] (Json.readList Helper.read? levels) helpers }
    | _ => none

def document (t : Template) : Json :=
  .object [("name", .text t.name), ("state", .array (t.state.map (·.document))),
    ("handlers", .array (t.handlers.map (·.document))),
    ("helpers", .array (t.helpers.map (·.document)))]

end Template

namespace AgentInstance

def read? : Nat → Json → Option AgentInstance :=
  Json.readRecord ["name", "template"] fun _ values =>
    match values with
    | [some name, some template] => do some ⟨← name.text?, ← template.text?⟩
    | _ => none

def document (i : AgentInstance) : Json :=
  .object [("name", .text i.name), ("template", .text i.template)]

end AgentInstance

namespace Endpoint

def read? : Nat → Json → Option Endpoint
  | _, .text "external" => some external
  | _ + 1, .object [("external", .null)] => some external
  | _ + 1, .object [("agent", .text name)] => some (agent name)
  | _, _ => none

def document : Endpoint → Json
  | external => .text "external"
  | agent name => .object [("agent", .text name)]

end Endpoint

namespace Route

def read? : Nat → Json → Option Route :=
  Json.readRecord ["from", "schema", "to"] fun levels values =>
    match values with
    | [some source, some schema, some destinations] => do
        some ⟨← Endpoint.read? levels source, ← schema.text?,
          ← Json.readList (fun _ j => j.text?) levels destinations⟩
    | _ => none

def document (r : Route) : Json :=
  .object [("from", r.source.document), ("schema", .text r.schema),
    ("to", .array (r.destinations.map .text))]

end Route

namespace Seed

def read? : Nat → Json → Option Seed :=
  Json.readRecord ["schema", "fields"] fun levels values =>
    match values with
    | [some schema, fields] => do
        some ⟨← schema.text?,
          ← Json.orDefault [] (Json.readMap (fun _ j => Literal.read? j) levels) fields⟩
    | _ => none

def document (s : Seed) : Json :=
  .object [("schema", .text s.schema),
    ("fields", .object (s.fields.map fun (name, value) => (name, value.document)))]

end Seed

namespace Program

def read? : Nat → Json → Option Program :=
  Json.readRecord ["schemas", "templates", "instances", "routes", "seed"] fun levels values =>
    match values with
    | [schemas, templates, instances, routes, some seed] => do
        some {
          schemas := ← Json.orDefault [] (Json.readList Schema.read? levels) schemas
          templates := ← Json.orDefault [] (Json.readList Template.read? levels) templates
          instances := ← Json.orDefault [] (Json.readList AgentInstance.read? levels) instances
          routes := ← Json.orDefault [] (Json.readList Route.read? levels) routes
          seed := ← Seed.read? levels seed }
    | _ => none

/-- Reads a program with the help of a reader of documents. -/
def readWith (parse : String → Option Json) (source : String) : Outcome Program :=
  match parse source >>= read? Json.nestingLimit with
  | some program => pure program
  | none => throw .document

def read (source : String) : Outcome Program := readWith Json.parse source

def document (p : Program) : Json :=
  .object [("schemas", .array (p.schemas.map (·.document))),
    ("templates", .array (p.templates.map (·.document))),
    ("instances", .array (p.instances.map (·.document))),
    ("routes", .array (p.routes.map (·.document))), ("seed", p.seed.document)]

end Program

end AgentCompiler
