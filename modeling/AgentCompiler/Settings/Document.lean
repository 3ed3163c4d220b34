import AgentCompiler.Json.Record
import AgentCompiler.Settings.Basic

/-! Settings as a JSON record. Every field may be absent, and other members are refused. -/

namespace AgentCompiler

namespace Settings

def fieldNames : List String :=
  ["outputPath", "maxCycles", "emitDebugSymbols", "debugReports", "heapSize", "queueCapacity",
    "maxStateBytes", "loadAddress"]

def uint64? (j : Json) : Option UInt64 := (j.nat? UInt64.size).map UInt64.ofNat

def uint32? (j : Json) : Option UInt32 := (j.nat? UInt32.size).map UInt32.ofNat

def ofJson? (j : Json) : Option Settings := do
  let base : Settings := {}
  match ← j.closedFields fieldNames with
  | [path, cycles, symbols, reports, heap, queue, state, load] =>
      some {
        outputPath := ← Json.orDefault base.outputPath Json.text? path
        maxCycles := ← Json.orDefault base.maxCycles uint64? cycles
        emitDebugSymbols := ← Json.orDefault base.emitDebugSymbols Json.bool? symbols
        debugReports := ← Json.orDefault base.debugReports Json.bool? reports
        heapSize := ← Json.orDefault base.heapSize uint64? heap
        queueCapacity := ← Json.orDefault base.queueCapacity uint32? queue
        maxStateBytes := ← Json.orDefault base.maxStateBytes uint64? state
        loadAddress := ← Json.orDefault base.loadAddress uint64? load }
  | _ => none

def read (source : String) : Outcome Settings :=
  match Json.parse source >>= ofJson? with
  | some settings => pure settings
  | none => throw .document

end Settings

end AgentCompiler
