import AgentCompiler.Service.Basic
import AgentCompiler.Machine.Listing
import AgentCompiler.Object.Section
import AgentCompiler.Text.Quoted
import AgentCompiler.Text.Terminated

/-!
The names and constants that grow while code is written: labels, symbols, and a pool of string and
integer constants in the read-only section, each of which is stored once.
-/

namespace AgentCompiler

abbrev Code := List Instruction

structure Pool where
  labels : LabelTable
  symbols : SymbolTable
  rodata : DataSection := .empty .rodata
  texts : List (String × SymbolId) := []
  words : List (Int64 × SymbolId) := []

namespace Pool

def stateArena : SymbolId := ⟨0⟩

def heap : SymbolId := ⟨1⟩

def heapCursor : SymbolId := ⟨2⟩

def fixedSymbols : SymbolTable :=
  ((({} : SymbolTable).declare "agent_state" .data).2.declare "heap" .bss).2.declare "heap_ptr"
    .data |>.2

def initial : Pool := { labels := Service.labels, symbols := fixedSymbols }

def names (p : Pool) : Names := ⟨p.labels.name, p.symbols.name⟩

def internText (text : String) (p : Pool) : Outcome (SymbolId × Pool) :=
  match p.texts.lookup text with
  | some s => pure (s, p)
  | none =>
      if hasNul text then
        throw (.typing s!"string literal {quoted text}" "string contains a NUL byte")
      else do
        let (offset, rodata) := p.rodata.append (terminated text) 1
        let (s, symbols) ← p.symbols.define s!"str.{p.texts.length}" .rodata offset
        pure (s, { p with symbols, rodata, texts := p.texts ++ [(text, s)] })

def internWord (value : Int64) (p : Pool) : Outcome (SymbolId × Pool) :=
  match p.words.lookup value with
  | some s => pure (s, p)
  | none => do
      let (offset, rodata) := p.rodata.append (littleEndianInt 8 value.toInt) 8
      let (s, symbols) ← p.symbols.define s!"i64.{p.words.length}" .rodata offset
      pure (s, { p with symbols, rodata, words := p.words ++ [(value, s)] })

end Pool

/-- Writing code: may name labels, pool constants and fail. -/
abbrev Emit := StateT Pool Outcome

namespace Emit

def internText (text : String) : Emit SymbolId := fun p => p.internText text

def internWord (value : Int64) : Emit SymbolId := fun p => p.internWord value

def fresh (hint : String) : Emit Label := fun p =>
  let (l, labels) := p.labels.fresh hint
  pure (l, { p with labels })

def entry (name : String) : Emit Label := fun p => do
  let (l, labels) ← p.labels.entry name
  pure (l, { p with labels })

end Emit

end AgentCompiler
