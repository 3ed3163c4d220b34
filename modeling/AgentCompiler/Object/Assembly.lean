import AgentCompiler.Machine.Encoding
import AgentCompiler.Machine.Listing
import AgentCompiler.Object.Symbol

/-!
Assembled code. The stream is first laid out: every instruction gets its offset and every label the
offset of the position it marks. Then the bytes are written, with the distance from the end of each
branch to its label, and with one relocation for each reference to a symbol.

A stream fails in the layout at its first directive or instruction that is impossible by itself;
only a stream that can be laid out fails at a branch.
-/

namespace AgentCompiler

structure Placed where
  instruction : Instruction
  encoding : Encoding
  offset : Nat

namespace Placed

def size (p : Placed) : Nat :=
  match p.instruction with
  | .align boundary => alignUp p.offset boundary - p.offset
  | _ => p.encoding.size

def next (p : Placed) : Nat := p.offset + p.size

end Placed

abbrev LabelOffsets := List (Label × Nat)

structure Assembly where
  bytes : Bytes
  relocations : List Relocation
  labels : LabelOffsets

namespace Assembly

def offset? (a : Assembly) (l : Label) : Option Nat := a.labels.lookup l

/-- A refusal shows the instruction, which may name a symbol that is not there. -/
def refuse {α : Type} (names : Names) (i : Instruction) (message : String) : Outcome α := do
  throw (.unencodable (← i.render names) message)

def bindAt (names : Names) (offset : Nat) (bound : LabelOffsets) (i : Instruction) :
    Outcome LabelOffsets :=
  match i with
  | .label l =>
      if (bound.lookup l).isSome then refuse names i "label bound twice"
      else pure ((l, offset) :: bound)
  | .align boundary =>
      if isPowerOfTwo boundary then pure bound
      else refuse names i "alignment must be a power of two"
  | _ => pure bound

def encodeOrRefuse (names : Names) (i : Instruction) : Outcome Encoding :=
  match i.encode with
  | .ok encoding => pure encoding
  | .error fault => refuse names i fault.message

def place (names : Names) :
    Nat → LabelOffsets → List Instruction → Outcome (List Placed × LabelOffsets)
  | _, bound, [] => pure ([], bound)
  | offset, bound, i :: rest => do
      let bound ← bindAt names offset bound i
      let encoding ← encodeOrRefuse names i
      let here : Placed := ⟨i, encoding, offset⟩
      let (placed, final) ← place names here.next bound rest
      pure (here :: placed, final)

def distance (names : Names) (bound : LabelOffsets) (p : Placed) : Outcome Int :=
  match p.encoding.imm.target? with
  | none => pure 0
  | some (l, bits) =>
      match bound.lookup l with
      | none => throw (.unresolved (names.label l))
      | some goal =>
          let delta : Int := goal - p.next
          let fits := if bits = 8 then fitsInt8 delta else fitsInt32 delta
          if fits then pure delta
          else do throw (.range (← p.instruction.render names) delta bits)

/-- Patches that an instruction needs. A relative field is counted from the end of its instruction,
so the bytes from the field to that end are taken off the addend. -/
def relocationsOf (p : Placed) : List Relocation :=
  let fromDisp :=
    match p.encoding.disp with
    | .symbol s addend =>
        let tail : Int := p.encoding.size - p.encoding.dispOffset
        [⟨.text, p.offset + p.encoding.dispOffset, s, .relative, addend.toInt - tail⟩]
    | _ => []
  let fromImm :=
    match p.encoding.imm with
    | .address s addend =>
        [⟨.text, p.offset + p.encoding.immOffset, s, .absolute, addend.toInt⟩]
    | _ => []
  fromDisp ++ fromImm

def padByte : UInt8 := 0xCC

def bytesOf (p : Placed) (delta : Int) : Bytes :=
  match p.instruction with
  | .align _ => List.replicate p.size padByte
  | _ => p.encoding.bytes delta

def write (names : Names) (bound : LabelOffsets) (p : Placed) :
    Outcome (Bytes × List Relocation) := do
  let delta ← distance names bound p
  pure (bytesOf p delta, relocationsOf p)

def pieces (names : Names) (code : List Instruction) :
    Outcome (List (Bytes × List Relocation) × LabelOffsets) := do
  let (placed, bound) ← place names 0 [] code
  let written ← placed.mapM (write names bound)
  pure (written, bound)

end Assembly

def assemble (names : Names) (code : List Instruction) : Outcome Assembly := do
  let (pieces, bound) ← Assembly.pieces names code
  pure {
    bytes := pieces.flatMap (·.1)
    relocations := pieces.flatMap (·.2)
    labels := bound }

end AgentCompiler
