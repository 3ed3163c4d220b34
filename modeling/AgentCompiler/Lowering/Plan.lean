import AgentCompiler.Layout.Analysis
import AgentCompiler.Lowering.Pool

/-!
What is fixed before code is written: the entry points of all routines, and the data of the
program. The data section holds the initial state records and the heap cursor. The zero-initialised
section holds a queue and a dispatch slot for each agent that handles messages, and the heap last,
so that everything else stays close to the code.
-/

namespace AgentCompiler

structure Storage where
  queue : SymbolId
  slot : SymbolId
  deriving DecidableEq

/-- Two words, the index of the oldest entry and the number of entries. -/
def queueHeaderSize : Nat := 16

def queueEntrySize : Nat := 16

/-- Three words: active flag, schema number and payload. -/
def slotSize : Nat := 24

structure DataPlan where
  data : DataSection := .empty .data
  bss : DataSection := .empty .bss
  relocations : List Relocation := []
  storage : List (String × Storage) := []

structure Plan where
  program : Program
  layout : Layout
  settings : Settings
  handlers : List ((String × String) × Label)
  helpers : List ((String × String) × Label)
  sections : DataPlan

namespace Plan

def handler? (p : Plan) (agent schema : String) : Option Label := p.handlers.lookup (agent, schema)

def helper? (p : Plan) (agent helper : String) : Option Label := p.helpers.lookup (agent, helper)

def storage? (p : Plan) (agent : String) : Option Storage := p.sections.storage.lookup agent

def queuedAgents (p : Plan) : List (AgentLayout × Storage) :=
  p.layout.agents.filterMap fun a => (p.storage? a.name).map (a, ·)

section

def nameHandlers (layout : Layout) (agent : AgentLayout) :
    Emit (List ((String × String) × Label)) :=
  (layout.agentUnits agent.name).mapM fun (schema, u) => do
    let l ← Emit.entry u.label
    pure ((agent.name, schema.name), l)

def nameHelpers (agent : AgentLayout) (template : Option Template) :
    Emit (List ((String × String) × Label)) :=
  match template with
  | none => pure []
  | some t =>
      t.helpers.mapM fun helper => do
        let l ← Emit.entry s!"helper.{agent.name}.{helper.name}"
        pure ((agent.name, helper.name), l)

def nameRoutines (program : Program) (layout : Layout) :
    Emit (List ((String × String) × Label) × List ((String × String) × Label)) := do
  let pairs ← layout.agents.mapM fun agent => do
    let handlers ← nameHandlers layout agent
    let helpers ← nameHelpers agent (program.template? agent.template)
    pure (handlers, helpers)
  pure (pairs.flatMap (·.1), pairs.flatMap (·.2))

end

section

inductive InitialValue
  | bytes (offset : Nat) (content : Bytes)
  | text (offset : Nat) (content : String)

def literalWord : Literal → Int
  | .bool b => b.toNat
  | .int v => v.toInt
  | .str _ => 0

/-- The initial value of a field. Strings are never absent; everything else starts as zero. -/
def initialValue? (agent : AgentLayout) (field : StateField) : Option InitialValue :=
  match agent.state.slot? field.name with
  | none => none
  | some slot =>
      let offset := agent.base + slot.offset
      match field.type, field.init with
      | .str, some (.str s) => some (.text offset s)
      | .str, _ => some (.text offset "")
      | type, some value => some (.bytes offset (littleEndianInt type.size (literalWord value)))
      | _, none => none

def initialValues (program : Program) (layout : Layout) : List InitialValue :=
  layout.agents.flatMap fun agent =>
    match program.template? agent.template with
    | none => []
    | some template => template.state.filterMap (initialValue? agent)

/-- The state arena before strings have addresses; it is never empty. -/
def initialArena (size : Nat) (values : List InitialValue) : Bytes :=
  let zeros := List.replicate (if size = 0 then 8 else size) 0
  values.foldl (fun arena value =>
    match value with
    | .bytes offset content => overwrite arena offset content
    | .text _ _ => arena) zeros

def bindSymbol (s : SymbolId) (offset : Nat) : Emit Unit := fun p => do
  let symbols ← p.symbols.bind s offset
  pure ((), { p with symbols })

def defineSymbol (name : String) (kind : SectionKind) (offset : Nat) : Emit SymbolId := fun p => do
  let (s, symbols) ← p.symbols.define name kind offset
  pure (s, { p with symbols })

def pointer (offset : Nat) (s : SymbolId) : Relocation := ⟨.data, offset, s, .absolute, 0⟩

def textPointers (start : Nat) (values : List InitialValue) : Emit (List Relocation) := do
  let pointers ← values.mapM fun value =>
    match value with
    | .bytes _ _ => pure []
    | .text offset content => do
        let s ← Emit.internText content
        pure [pointer (start + offset) s]
  pure pointers.flatten

def layOutData (program : Program) (layout : Layout) : Emit DataPlan := do
  let values := initialValues program layout
  let arena := initialArena layout.stateSize values
  let (start, data) := (DataSection.empty .data).append arena 16
  bindSymbol Pool.stateArena start
  let pointers ← textPointers start values
  let (cursor, data) := data.append (littleEndian 8 0) 8
  bindSymbol Pool.heapCursor cursor
  pure { data, relocations := pointers ++ [pointer cursor Pool.heap] }

def queueSize (capacity : Nat) : Nat := queueHeaderSize + capacity * queueEntrySize

def addStorage (capacity : Nat) (sections : DataPlan) (agent : AgentLayout) : Emit DataPlan := do
  let (queueOffset, bss) := sections.bss.reserve (queueSize capacity) 16
  let queue ← defineSymbol s!"queue.{agent.name}" .bss queueOffset
  let (slotOffset, bss) := bss.reserve slotSize 16
  let slot ← defineSymbol s!"slot.{agent.name}" .bss slotOffset
  pure { sections with bss, storage := sections.storage ++ [(agent.name, ⟨queue, slot⟩)] }

def layOutStorage (layout : Layout) (settings : Settings) (sections : DataPlan) :
    Emit DataPlan := do
  let receivers := layout.agents.filter fun a => !(layout.agentUnits a.name).isEmpty
  let sections ← receivers.foldlM (addStorage settings.queueCapacity.toNat) sections
  let (heap, bss) := sections.bss.reserve settings.heapSize.toNat 16
  bindSymbol Pool.heap heap
  pure { sections with bss }

end

def make (program : Program) (layout : Layout) (settings : Settings) : Emit Plan := do
  let (handlers, helpers) ← nameRoutines program layout
  let sections ← layOutData program layout
  let sections ← layOutStorage layout settings sections
  pure { program, layout, settings, handlers, helpers, sections }

end Plan

end AgentCompiler
