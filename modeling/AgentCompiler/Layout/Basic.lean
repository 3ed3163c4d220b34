import AgentCompiler.Layout.Record
import AgentCompiler.Text.Hex

/-!
The layout of a program: numbered schemas with their payload records, one region of the state arena
for each agent, the routing table, and one unit of code for each agent and schema it handles.

Routes are kept in ascending order of source and schema, where the outside world comes before all
agents; units are kept in ascending order of agent and schema.
-/

namespace AgentCompiler

structure SchemaLayout where
  name : String
  /-- The number that messages carry, from one in declaration order. -/
  id : Nat
  payload : Record
  deriving DecidableEq

structure AgentLayout where
  name : String
  template : String
  base : Nat
  size : Nat
  state : Record
  deriving DecidableEq

structure HandlerUnit where
  agent : String
  schema : String
  deriving DecidableEq

def HandlerUnit.label (u : HandlerUnit) : String := s!"handler.{u.agent}.{u.schema}"

structure Layout where
  schemas : List SchemaLayout
  agents : List AgentLayout
  routes : List Route
  units : List HandlerUnit
  stateSize : Nat
  deriving DecidableEq

namespace Layout

def schema? (l : Layout) (name : String) : Option SchemaLayout :=
  l.schemas.find? (·.name == name)

def agent? (l : Layout) (name : String) : Option AgentLayout := l.agents.find? (·.name == name)

def destinationsIn (table : List Route) (source : Endpoint) (schema : String) : List String :=
  match table.find? (fun r => r.source == source && r.schema == schema) with
  | some route => route.destinations
  | none => []

def destinations (l : Layout) (source : Endpoint) (schema : String) : List String :=
  destinationsIn l.routes source schema

def unit? (l : Layout) (agent schema : String) : Option HandlerUnit :=
  l.units.find? (fun u => u.agent == agent && u.schema == schema)

def agentUnits (l : Layout) (agent : String) : List (SchemaLayout × HandlerUnit) :=
  l.schemas.filterMap fun s => (l.unit? agent s.name).map (s, ·)

end Layout

def padRight (columns : Nat) (text : String) : String :=
  text ++ String.ofList (List.replicate (columns - text.length) ' ')

namespace Layout

def slotLine (slot : Slot) : String :=
  s!"    +{padRight 4 (toString slot.offset)} {slot.name}: {slot.type.name}"

def schemaLines (s : SchemaLayout) : List String :=
  s!"  #{s.id} {s.name} (size {s.payload.size})" :: s.payload.slots.map slotLine

def agentLines (a : AgentLayout) : List String :=
  s!"  {a.name} : {a.template} @ {hexText a.base} (size {a.size})" :: a.state.slots.map slotLine

def routeLine (r : Route) : String :=
  let goals := ", ".intercalate r.destinations
  s!"  {r.source.name} -[{r.schema}]-> [{goals}]"

def lines (l : Layout) : List String :=
  ["schemas:"] ++ l.schemas.flatMap schemaLines ++
    [s!"agents (arena {l.stateSize} bytes):"] ++ l.agents.flatMap agentLines ++
    ["routes:"] ++ l.routes.map routeLine ++
    ["handlers:"] ++ l.units.map (fun u => "  " ++ u.label)

def render (l : Layout) : String := String.join (l.lines.map (· ++ "\n"))

end Layout

end AgentCompiler
