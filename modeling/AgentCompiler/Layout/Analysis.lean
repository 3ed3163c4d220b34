import AgentCompiler.Layout.Basic
import AgentCompiler.Settings.Basic
import AgentCompiler.Text.Terminated

/-!
From a program to its layout. All names are resolved here, and the first fault is reported:
schemas come first, then templates, instances, routes, deliveries and the seed.
-/

namespace AgentCompiler

def isNameStart (c : Char) : Bool := c.isAlpha || c == '_'

def isNameRest (c : Char) : Bool := c.isAlphanum || c == '_'

/-- A letter or underscore, then letters, digits and underscores. Letters and digits are those of
ASCII. -/
def isIdentifier (name : String) : Bool :=
  match name.toList with
  | [] => false
  | first :: rest => isNameStart first && rest.all isNameRest

def checkName (kind name : String) : Outcome Unit :=
  if isIdentifier name then pure ()
  else throw (.reference s!"{kind} `{name}`"
    "names must be identifiers: a letter or `_`, then letters, digits or `_`")

def checkLiteral (entity : String) (type : ValueType) (value : Literal) : Outcome Unit :=
  if value.kind ≠ type.kind then
    throw (.typing entity s!"expected {type.name}, found {value.kind.name}")
  else
    match value, type with
    | .int v, .i32 =>
        if fitsInt32 v.toInt then pure ()
        else throw (.typing entity s!"{v.toInt} does not fit in i32")
    | .str s, _ =>
        if hasNul s then throw (.typing entity "string contains a NUL byte") else pure ()
    | _, _ => pure ()

namespace Layout

def agentAlign : Nat := 16

def minAgentSize : Nat := 8

def maxHelperParams : Nat := 4

def placeSchemas (done : List SchemaLayout) : List Schema → Outcome (List SchemaLayout)
  | [] => pure done
  | schema :: rest => do
      checkName "schema" schema.name
      if done.any (·.name == schema.name) then
        throw (.reference s!"schema `{schema.name}`" "schema declared twice")
      let payload ← Record.build schema.name schema.fields
      placeSchemas (done ++ [⟨schema.name, done.length + 1, payload⟩]) rest

def checkInit (template : Template) (field : StateField) : Outcome Unit :=
  match field.init with
  | none => pure ()
  | some init => checkLiteral s!"{template.name}.{field.name}" field.type init

def checkHandlers (schemas : List SchemaLayout) (template : Template) (seen : List String) :
    List Handler → Outcome Unit
  | [] => pure ()
  | handler :: rest => do
      let entity := s!"handler {template.name}.{handler.schema}"
      if !schemas.any (·.name == handler.schema) then throw (.reference entity "unknown schema")
      if seen.contains handler.schema then throw (.reference entity "two handlers for one schema")
      checkHandlers schemas template (handler.schema :: seen) rest

def checkHelpers (template : Template) (seen : List String) : List Helper → Outcome Unit
  | [] => pure ()
  | helper :: rest => do
      checkName "helper" helper.name
      let entity := s!"helper {template.name}.{helper.name}"
      if seen.contains helper.name then throw (.reference entity "helper declared twice")
      let count := helper.params.length
      if maxHelperParams < count then
        throw (.exhausted .layout s!"parameters of {entity}" count maxHelperParams)
      checkHelpers template (helper.name :: seen) rest

def checkTemplates (schemas : List SchemaLayout) (seen : List String) :
    List Template → Outcome Unit
  | [] => pure ()
  | template :: rest => do
      checkName "template" template.name
      if seen.contains template.name then
        throw (.reference s!"template `{template.name}`" "template declared twice")
      template.state.forM (checkInit template)
      checkHandlers schemas template [] template.handlers
      checkHelpers template [] template.helpers
      checkTemplates schemas (template.name :: seen) rest

def placeAgents (templates : List Template) (limit : Nat) (done : List AgentLayout)
    (cursor : Nat) : List AgentInstance → Outcome (List AgentLayout × Nat)
  | [] => pure (done, cursor)
  | agent :: rest => do
      checkName "agent" agent.name
      let entity := s!"agent `{agent.name}`"
      if done.any (·.name == agent.name) then throw (.reference entity "agent declared twice")
      match templates.find? (·.name == agent.template) with
      | none => throw (.reference entity s!"unknown template `{agent.template}`")
      | some template => do
          let state ← Record.build template.name (template.state.map (·.decl))
          let base := alignUp cursor agentAlign
          let size := max state.size minAgentSize
          let cursor := base + size
          if limit < cursor then throw (.exhausted .layout "agent state arena" cursor limit)
          let placed := ⟨agent.name, template.name, base, size, state⟩
          placeAgents templates limit (done ++ [placed]) cursor rest

def edgeName (source : Endpoint) (schema : String) : String := s!"edge {source.name} -[{schema}]->"

def addDestinations (agents : List AgentLayout) (edge : String) (done : List String) :
    List String → Outcome (List String)
  | [] => pure done
  | goal :: rest => do
      let entity := s!"{edge} {goal}"
      if !agents.any (·.name == goal) then
        throw (.reference entity "unknown destination agent")
      if done.contains goal then throw (.reference entity "destination listed twice")
      addDestinations agents edge (done ++ [goal]) rest

def endpointBefore : Endpoint → Endpoint → Bool
  | .external, .external => false
  | .external, .agent _ => true
  | .agent _, .external => false
  | .agent a, .agent b => a < b

def routeBefore (a b : Route) : Bool :=
  endpointBefore a.source b.source || (a.source == b.source && a.schema < b.schema)

/-- Puts a route in its place, over an earlier route of its source and schema. -/
def putRoute (route : Route) : List Route → List Route
  | [] => [route]
  | other :: rest =>
      if routeBefore route other then route :: other :: rest
      else if routeBefore other route then other :: putRoute route rest
      else route :: rest

def checkSource (agents : List AgentLayout) (edge : String) : Endpoint → Outcome Unit
  | .external => pure ()
  | .agent name =>
      if agents.any (·.name == name) then pure ()
      else throw (.reference edge s!"unknown source agent `{name}`")

def addRoute (schemas : List SchemaLayout) (agents : List AgentLayout) (table : List Route)
    (route : Route) : Outcome (List Route) := do
  let edge := edgeName route.source route.schema
  checkSource agents edge route.source
  if !schemas.any (·.name == route.schema) then throw (.reference edge "unknown schema")
  let known := destinationsIn table route.source route.schema
  let destinations ← addDestinations agents edge known route.destinations
  pure (putRoute { route with destinations } table)

def isDelivered (routes : List Route) (agent schema : String) : Bool :=
  routes.any fun r => r.schema == schema && r.destinations.contains agent

def agentUnitsOf (routes : List Route) (agent : AgentLayout) (handlers : List Handler) :
    Outcome (List HandlerUnit) :=
  handlers.mapM fun handler =>
    if isDelivered routes agent.name handler.schema then pure ⟨agent.name, handler.schema⟩
    else throw (.reference s!"handler {agent.name}.{handler.schema}"
      "no routing edge delivers this schema to the agent")

def unitBefore (a b : HandlerUnit) : Bool :=
  a.agent < b.agent || (a.agent == b.agent && a.schema < b.schema)

def putUnit (u : HandlerUnit) : List HandlerUnit → List HandlerUnit
  | [] => [u]
  | other :: rest => if unitBefore u other then u :: other :: rest else other :: putUnit u rest

def collectUnits (templates : List Template) (routes : List Route) (agents : List AgentLayout) :
    Outcome (List HandlerUnit) := do
  let units ← agents.mapM fun agent =>
    match templates.find? (·.name == agent.template) with
    | none => pure []
    | some template => agentUnitsOf routes agent template.handlers
  pure (units.flatten.foldl (fun sorted u => putUnit u sorted) [])

def checkDelivery (units : List HandlerUnit) (route : Route) : Outcome Unit :=
  route.destinations.forM fun goal =>
    if units.contains ⟨goal, route.schema⟩ then pure ()
    else throw (.reference s!"{edgeName route.source route.schema} {goal}"
      s!"`{goal}` has no handler for `{route.schema}`")

def checkSeed (schemas : List SchemaLayout) (seed : Seed) : Outcome Unit :=
  match schemas.find? (·.name == seed.schema) with
  | none => throw (.reference "seed message" s!"unknown schema `{seed.schema}`")
  | some schema =>
      seed.fields.forM fun (name, value) => do
        let entity := s!"seed field `{name}`"
        match schema.payload.slot? name with
        | none => throw (.reference entity s!"not a field of `{schema.name}`")
        | some slot => checkLiteral entity slot.type value

def analyze (program : Program) (settings : Settings) : Outcome Layout := do
  let schemas ← placeSchemas [] program.schemas
  checkTemplates schemas [] program.templates
  let limit := settings.maxStateBytes.toNat
  let (agents, stateSize) ← placeAgents program.templates limit [] 0 program.instances
  let routes ← program.routes.foldlM (addRoute schemas agents) []
  let units ← collectUnits program.templates routes agents
  routes.forM (checkDelivery units)
  checkSeed schemas program.seed
  pure { schemas, agents, routes, units, stateSize }

end Layout

end AgentCompiler
