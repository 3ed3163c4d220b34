import AgentCompiler.Bytes
import AgentCompiler.Program.Basic
import Mathlib

/-!
What bodies mean, apart from the code that is written for them.

A body works on the fields of its agent's state and on its local variables, and reads the fields of
the message. Integers are 64 bits wide and wrap around. A field of four bytes keeps a number modulo
its width and is read with its sign. A name stands for its newest declaration, and leaving a scope
forgets the names that were declared in it.

Strings are looked at only as addresses: they can be copied, and what is computed from their bytes
has no meaning here, nor have calls, messages and output. Such expressions and statements give no
result, so that a meaning is never guessed.
-/

namespace AgentCompiler

inductive Datum
  | int (value : Int64)
  | bool (value : Bool)
  | str (address : UInt64)
  deriving DecidableEq

def Datum.kind : Datum → ValueKind
  | int _ => .int
  | bool _ => .bool
  | str _ => .str

inductive Stored
  | bool (value : Bool)
  | i32 (value : Int32)
  | i64 (value : Int64)
  | str (address : UInt64)
  deriving DecidableEq

namespace Stored

def type : Stored → ValueType
  | bool _ => .bool
  | i32 _ => .i32
  | i64 _ => .i64
  | str _ => .str

def read : Stored → Datum
  | bool value => .bool value
  | i32 value => .int value.toInt64
  | i64 value => .int value
  | str address => .str address

def ofDatum? : ValueType → Datum → Option Stored
  | .bool, .bool value => some (bool value)
  | .i32, .int value => some (i32 value.toInt32)
  | .i64, .int value => some (i64 value)
  | .str, .str address => some (str address)
  | _, _ => none

def bits : Stored → Nat
  | bool value => value.toNat
  | i32 value => value.toBitVec.toNat
  | i64 value => value.toBitVec.toNat
  | str address => address.toNat

def bytes (v : Stored) : Bytes := littleEndian v.type.size v.bits

lemma kind_read (v : Stored) : v.read.kind = v.type.kind := by cases v <;> rfl

lemma type_of_ofDatum? {type : ValueType} {d : Datum} {v : Stored} (h : ofDatum? type d = some v) :
    v.type = type := by
  cases type <;> cases d <;> simp only [ofDatum?, Option.some.injEq, reduceCtorEq] at h <;>
    rw [← h, Stored.type]

end Stored

abbrev Fields := String → Option Stored

structure Store where
  fields : Fields
  locals : List (String × Datum)

namespace Store

/-- Gives the newest variable of a name another value. -/
def replace (name : String) (d : Datum) : List (String × Datum) → Option (List (String × Datum))
  | [] => none
  | pair :: rest =>
    if name == pair.1 then some ((pair.1, d) :: rest) else (replace name d rest).map (pair :: ·)

def declare (s : Store) (name : String) (d : Datum) : Store :=
  { s with locals := (name, d) :: s.locals }

def assign (s : Store) : Target → Datum → Option Store
  | .state field, d => do
      let old ← s.fields field
      let new ← Stored.ofDatum? old.type d
      pure { s with fields := Function.update s.fields field (some new) }
  | .var name, d => do
      let locals ← replace name d s.locals
      pure { s with locals }

/-- Back to a scope in which so many variables were known. -/
def leave (s : Store) (count : Nat) : Store :=
  { s with locals := s.locals.drop (s.locals.length - count) }

end Store

inductive Fault
  | divisionByZero
  deriving DecidableEq

/-- A value, or the fault that was met first; nothing where there is no meaning. -/
abbrev Evaluation := ExceptT Fault Option

namespace Evaluation

variable {α β : Type} {f : α → Evaluation β} {x : Evaluation α} {fault : Fault}

lemma bind_ok {b : β} :
    (x >>= f).run = some (.ok b) ↔ ∃ a, x.run = some (.ok a) ∧ (f a).run = some (.ok b) := by
  rw [ExceptT.run_bind]
  rcases x.run with _ | fault | a <;> simp

lemma bind_eq_error :
    (x >>= f).run = some (.error fault) ↔ x.run = some (.error fault) ∨
      ∃ a, x.run = some (.ok a) ∧ (f a).run = some (.error fault) := by
  rw [ExceptT.run_bind]
  rcases x.run with _ | fault | a <;> simp

lemma lift_ok {x : Option α} {a : α} : (ExceptT.lift x : Evaluation α).run = some (.ok a) ↔
    x = some a := by
  cases x <;> simp

lemma lift_ne_error {x : Option α} : (ExceptT.lift x : Evaluation α).run ≠ some (.error fault) := by
  cases x <;> simp

end Evaluation

def UnaryOperator.apply : UnaryOperator → Datum → Option Datum
  | neg, .int a => some (.int (-a))
  | bitNot, .int a => some (.int (~~~a))
  | not, .bool a => some (.bool !a)
  | _, _ => none

namespace BinaryOperator

/-- Operators on integers. Division goes towards zero; of a shift the low six bits count. -/
def applyInt (op : BinaryOperator) (a b : Int64) : Evaluation Datum :=
  match op with
  | add => pure (.int (a + b))
  | sub => pure (.int (a - b))
  | mul => pure (.int (a * b))
  | div => if b = 0 then throw .divisionByZero else pure (.int (a / b))
  | mod => if b = 0 then throw .divisionByZero else pure (.int (a % b))
  | and => pure (.int (a &&& b))
  | or => pure (.int (a ||| b))
  | xor => pure (.int (a ^^^ b))
  | shl => pure (.int (a <<< b))
  | shr => pure (.int (a >>> b))
  | eq => pure (.bool (a == b))
  | ne => pure (.bool (a != b))
  | lt => pure (.bool (decide (a < b)))
  | le => pure (.bool (decide (a ≤ b)))
  | gt => pure (.bool (decide (b < a)))
  | ge => pure (.bool (decide (b ≤ a)))
  | land | lor => ExceptT.lift none

def applyBool (op : BinaryOperator) (a b : Bool) : Option Datum :=
  match op with
  | and | land => some (.bool (a && b))
  | or | lor => some (.bool (a || b))
  | xor => some (.bool (a ^^ b))
  | eq => some (.bool (a == b))
  | ne => some (.bool (a != b))
  | _ => none

def apply (op : BinaryOperator) : Datum → Datum → Evaluation Datum
  | .int a, .int b => op.applyInt a b
  | .bool a, .bool b => ExceptT.lift (op.applyBool a b)
  | _, _ => ExceptT.lift none

end BinaryOperator

def Expr.evaluate (message : Fields) (s : Store) : Expr → Evaluation Datum
  | .int value => pure (.int value)
  | .bool value => pure (.bool value)
  | .state name => ExceptT.lift ((s.fields name).map Stored.read)
  | .field name => ExceptT.lift ((message name).map Stored.read)
  | .var name => ExceptT.lift (s.locals.lookup name)
  | .unary op operand => do
      let a ← operand.evaluate message s
      ExceptT.lift (op.apply a)
  | .binary op lhs rhs => do
      let a ← lhs.evaluate message s
      let b ← rhs.evaluate message s
      op.apply a b
  | .str _ | .builtin _ _ | .call _ _ => ExceptT.lift none

inductive Ending
  | normal
  | returned (value : Datum)
  | failed (fault : Fault)
  deriving DecidableEq

def Stmt.operand? : Stmt → Option Expr
  | .declare _ value | .assign _ value => some value
  | .branch cond _ _ | .loop cond _ => some cond
  | .ret value => value
  | _ => none

/-- Running statements, from a store to the store behind them. The inner statements of a branch, a
loop or a block have a scope of their own, which is left however they end. A return that names no
value returns zero. -/
inductive Runs (message : Fields) : List Stmt → Store → Store → Ending → Prop
  | nil {s : Store} : Runs message [] s s .normal
  | cons {first : Stmt} {rest : List Stmt} {s t u : Store} {ending : Ending}
      (runs : Runs message [first] s t .normal) (later : Runs message rest t u ending) :
      Runs message (first :: rest) s u ending
  | stop {first : Stmt} {rest : List Stmt} {s t : Store} {ending : Ending}
      (runs : Runs message [first] s t ending) (early : ending ≠ .normal) :
      Runs message (first :: rest) s t ending
  | fault {first : Stmt} {e : Expr} {s : Store} {why : Fault} (operand : first.operand? = some e)
      (fails : (e.evaluate message s).run = some (.error why)) :
      Runs message [first] s s (.failed why)
  | declare {name : String} {value : Expr} {s : Store} {d : Datum}
      (gives : (value.evaluate message s).run = some (.ok d)) :
      Runs message [.declare name value] s (s.declare name d) .normal
  | assign {target : Target} {value : Expr} {s t : Store} {d : Datum}
      (gives : (value.evaluate message s).run = some (.ok d))
      (stores : s.assign target d = some t) :
      Runs message [.assign target value] s t .normal
  | branch {cond : Expr} {onTrue onFalse : List Stmt} {s t : Store} {holds : Bool}
      {ending : Ending} (gives : (cond.evaluate message s).run = some (.ok (.bool holds)))
      (inner : Runs message (if holds then onTrue else onFalse) s t ending) :
      Runs message [.branch cond onTrue onFalse] s (t.leave s.locals.length) ending
  | exit {cond : Expr} {body : List Stmt} {s : Store}
      (gives : (cond.evaluate message s).run = some (.ok (.bool false))) :
      Runs message [.loop cond body] s s .normal
  | again {cond : Expr} {body : List Stmt} {s t u : Store} {ending : Ending}
      (gives : (cond.evaluate message s).run = some (.ok (.bool true)))
      (inner : Runs message body s t .normal)
      (later : Runs message [.loop cond body] (t.leave s.locals.length) u ending) :
      Runs message [.loop cond body] s u ending
  | quit {cond : Expr} {body : List Stmt} {s t : Store} {ending : Ending}
      (gives : (cond.evaluate message s).run = some (.ok (.bool true)))
      (inner : Runs message body s t ending) (early : ending ≠ .normal) :
      Runs message [.loop cond body] s (t.leave s.locals.length) ending
  | block {body : List Stmt} {s t : Store} {ending : Ending}
      (inner : Runs message body s t ending) :
      Runs message [.block body] s (t.leave s.locals.length) ending
  | finish {s : Store} : Runs message [.ret none] s s (.returned (.int 0))
  | ret {value : Expr} {s : Store} {d : Datum}
      (gives : (value.evaluate message s).run = some (.ok d)) :
      Runs message [.ret (some value)] s s (.returned d)

end AgentCompiler
