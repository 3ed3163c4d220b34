import AgentCompiler.Bytes
import AgentCompiler.Diagnostic
import AgentCompiler.Program.Basic

/-!
Records: fields at fixed offsets, in declaration order, each aligned to its type. Message payloads
and agent states are records.
-/

namespace AgentCompiler

structure Slot where
  name : String
  type : ValueType
  offset : Nat
  deriving DecidableEq

structure Record where
  slots : List Slot
  size : Nat
  align : Nat
  deriving DecidableEq

namespace Record

def placeFields (offset : Nat) : List FieldDecl → List Slot × Nat
  | [] => ([], offset)
  | field :: rest =>
      let start := alignUp offset field.type.align
      let (slots, final) := placeFields (start + field.type.size) rest
      (⟨field.name, field.type, start⟩ :: slots, final)

def alignment (fields : List FieldDecl) : Nat :=
  fields.foldl (fun widest field => max widest field.type.align) 1

def firstRepeated (seen : List String) : List String → Option String
  | [] => none
  | name :: rest => if seen.contains name then some name else firstRepeated (name :: seen) rest

def pack (fields : List FieldDecl) : Record :=
  let (slots, final) := placeFields 0 fields
  let align := alignment fields
  ⟨slots, alignUp final align, align⟩

def build (owner : String) (fields : List FieldDecl) : Outcome Record :=
  match firstRepeated [] (fields.map (·.name)) with
  | some name => throw (.reference s!"{owner}.{name}" "field declared twice")
  | none => pure (pack fields)

def slot? (r : Record) (name : String) : Option Slot := r.slots.find? (·.name == name)

end Record

end AgentCompiler
