/-!
Agent programs: message schemas, agent templates with their state and routines, instances, static
routes, and the one message that starts the program.

Fields that a program gives by name (of the seed and of an emitted message) are kept as pairs in
ascending order of their names, each name once.
-/

namespace AgentCompiler

/-- Types of stored values. A string is stored as the address of its bytes. -/
inductive ValueType
  | bool | i32 | i64 | str
  deriving DecidableEq

/-- Types of computed values: both integer widths compute as 64-bit integers. -/
inductive ValueKind
  | int | bool | str
  deriving DecidableEq

def ValueKind.name : ValueKind → String
  | int => "int"
  | bool => "bool"
  | str => "str"

namespace ValueType

def all : List ValueType := [bool, i32, i64, str]

def name : ValueType → String
  | bool => "bool"
  | i32 => "i32"
  | i64 => "i64"
  | str => "str"

def ofName? (text : String) : Option ValueType := all.find? (·.name == text)

def size : ValueType → Nat
  | bool => 1
  | i32 => 4
  | i64 | str => 8

def align (t : ValueType) : Nat := t.size

def kind : ValueType → ValueKind
  | bool => .bool
  | i32 | i64 => .int
  | str => .str

end ValueType

structure FieldDecl where
  name : String
  type : ValueType
  deriving DecidableEq

structure Schema where
  name : String
  fields : List FieldDecl
  deriving DecidableEq

/-- Constants in initial state and in the seed. -/
inductive Literal
  | bool (value : Bool)
  | int (value : Int64)
  | str (value : String)
  deriving DecidableEq

def Literal.kind : Literal → ValueKind
  | bool _ => .bool
  | int _ => .int
  | str _ => .str

structure StateField where
  name : String
  type : ValueType
  /-- Zero or the empty string if absent. -/
  init : Option Literal
  deriving DecidableEq

def StateField.decl (f : StateField) : FieldDecl := ⟨f.name, f.type⟩

inductive UnaryOperator
  | neg
  | not
  | bitNot
  deriving DecidableEq

namespace UnaryOperator

def all : List UnaryOperator := [neg, not, bitNot]

def name : UnaryOperator → String
  | neg => "neg"
  | not => "not"
  | bitNot => "bit_not"

end UnaryOperator

inductive BinaryOperator
  | add | sub | mul | div | mod | and | or | xor | shl | shr
  | eq | ne | lt | le | gt | ge | land | lor
  deriving DecidableEq

namespace BinaryOperator

def all : List BinaryOperator :=
  [add, sub, mul, div, mod, and, or, xor, shl, shr, eq, ne, lt, le, gt, ge, land, lor]

def name : BinaryOperator → String
  | add => "add"
  | sub => "sub"
  | mul => "mul"
  | div => "div"
  | mod => "mod"
  | and => "and"
  | or => "or"
  | xor => "xor"
  | shl => "shl"
  | shr => "shr"
  | eq => "eq"
  | ne => "ne"
  | lt => "lt"
  | le => "le"
  | gt => "gt"
  | ge => "ge"
  | land => "land"
  | lor => "lor"

end BinaryOperator

inductive Builtin
  | len
  | concat
  | format
  | repeat
  /-- One read from standard input, at most so many bytes. -/
  | readInput
  deriving DecidableEq

namespace Builtin

def all : List Builtin := [len, concat, format, Builtin.repeat, readInput]

def name : Builtin → String
  | len => "len"
  | concat => "concat"
  | format => "format"
  | Builtin.repeat => "repeat"
  | readInput => "read_input"

end Builtin

inductive Expr
  | int (value : Int64)
  | bool (value : Bool)
  | str (value : String)
  | state (field : String)
  | field (field : String)
  | var (name : String)
  | unary (op : UnaryOperator) (operand : Expr)
  | binary (op : BinaryOperator) (lhs rhs : Expr)
  | builtin (name : Builtin) (args : List Expr)
  | call (helper : String) (args : List Expr)

inductive Target
  | state (field : String)
  | var (name : String)
  deriving DecidableEq

inductive Stmt
  | declare (name : String) (value : Expr)
  | assign (target : Target) (value : Expr)
  /-- Sends a message along the route of the running agent and the schema. -/
  | emit (schema : String) (fields : List (String × Expr))
  | branch (cond : Expr) (onTrue onFalse : List Stmt)
  | loop (cond : Expr) (body : List Stmt)
  | block (body : List Stmt)
  | write (value : Expr)
  /-- Prints on standard error, if reports are enabled. -/
  | report (value : Expr)
  | ret (value : Option Expr)

structure Handler where
  schema : String
  body : List Stmt

/-- A routine that the handlers of an agent can call. -/
structure Helper where
  name : String
  params : List FieldDecl
  returns : Option ValueType
  body : List Stmt

structure Template where
  name : String
  state : List StateField
  handlers : List Handler
  helpers : List Helper

structure AgentInstance where
  name : String
  template : String
  deriving DecidableEq

inductive Endpoint
  | external
  | agent (name : String)
  deriving DecidableEq

def Endpoint.name : Endpoint → String
  | external => "external"
  | agent name => name

structure Route where
  source : Endpoint
  schema : String
  destinations : List String
  deriving DecidableEq

structure Seed where
  schema : String
  fields : List (String × Literal)
  deriving DecidableEq

structure Program where
  schemas : List Schema
  templates : List Template
  instances : List AgentInstance
  routes : List Route
  seed : Seed

namespace Program

def template? (p : Program) (name : String) : Option Template :=
  p.templates.find? (·.name == name)

def schema? (p : Program) (name : String) : Option Schema := p.schemas.find? (·.name == name)

end Program

end AgentCompiler
