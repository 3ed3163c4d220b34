import AgentCompiler.Layout.Analysis
import AgentCompiler.Proofs.ByteStrings
import AgentCompiler.Proofs.Success

/-!
The checks of the analysis, each read as the rule that it decides. The rules are stated for schemas,
templates, agents, routes and the seed as they are declared, without the order in which they are
looked at.
-/

namespace AgentCompiler

open List Record

section

variable {ε α : Type}

lemma ite_throw_ok {c : Prop} [Decidable c] {fault : ε} {f : PUnit → Except ε α} {y : Except ε α}
    {b : α} :
    (if c then throw fault >>= f else y) = .ok b ↔ ¬ c ∧ y = .ok b := by
  by_cases hc : c
  · simp [hc, bind_ok]
  · simp [hc]

lemma forM_ok {f : α → Except ε Unit} {items : List α} {u : Unit} :
    items.forM f = .ok u ↔ ∀ a ∈ items, f a = .ok () := by
  induction items with
  | nil => simp [pure, Except.pure]
  | cons a rest ih =>
    rw [forM_eq_forM] at ih ⊢
    rw [forM_cons, bind_ok, forall_mem_cons, ← ih]
    exact ⟨fun ⟨_, ha, more⟩ => ⟨ha, more⟩, fun ⟨ha, more⟩ => ⟨_, ha, more⟩⟩

end

variable {name : String} {u : Unit} {seen names : List String} {value : Literal}
  {fields : List FieldDecl}

section

def IsLetter (c : Char) : Prop := ('a' ≤ c ∧ c ≤ 'z') ∨ ('A' ≤ c ∧ c ≤ 'Z')

def IsDigit (c : Char) : Prop := '0' ≤ c ∧ c ≤ '9'

def IsIdentifier (name : String) : Prop := ∃ first rest, name.toList = first :: rest ∧
    (IsLetter first ∨ first = '_') ∧ ∀ c ∈ rest, IsLetter c ∨ IsDigit c ∨ c = '_'

def Literal.Fits (type : ValueType) : Literal → Prop
  | bool _ => type = .bool
  | int v => type = .i64 ∨ type = .i32 ∧ -0x80000000 ≤ v.toInt ∧ v.toInt ≤ 0x7FFFFFFF
  | str text => type = .str ∧ '\x00' ∉ text.toList

@[mk_iff]
structure Schema.IsWellFormed (s : Schema) : Prop where
  name : IsIdentifier s.name
  fields : (s.fields.map (·.name)).Nodup

/-- A template next to schemas of some names. Its state may repeat a field name as long as no agent
has that state. -/
@[mk_iff]
structure Template.IsWellFormed (schemas : List String) (t : Template) : Prop where
  name : IsIdentifier t.name
  initial : ∀ field ∈ t.state, ∀ value ∈ field.init, value.Fits field.type
  handled : ∀ handler ∈ t.handlers, handler.schema ∈ schemas
  handlers : (t.handlers.map (·.schema)).Nodup
  helpers : ∀ helper ∈ t.helpers, IsIdentifier helper.name ∧ helper.params.length ≤ 4
  helperNames : (t.helpers.map (·.name)).Nodup

@[mk_iff]
structure AgentInstance.IsWellFormed (templates : List Template) (a : AgentInstance) : Prop where
  name : IsIdentifier a.name
  template : ∃ t, templates.find? (·.name == a.template) = some t ∧ (t.state.map (·.name)).Nodup

@[mk_iff]
structure Route.IsWellFormed (schemas agents : List String) (r : Route) : Prop where
  source : ∀ name, r.source = .agent name → name ∈ agents
  schema : r.schema ∈ schemas
  destinations : ∀ goal ∈ r.destinations, goal ∈ agents

def Seed.IsWellFormed (schemas : List Schema) (seed : Seed) : Prop :=
  ∃ schema ∈ schemas, schema.name = seed.schema ∧ ∀ pair ∈ seed.fields,
    ∃ field ∈ schema.fields, field.name = pair.1 ∧ pair.2.Fits field.type

end

section

lemma isNameStart_iff {c : Char} : isNameStart c = true ↔ IsLetter c ∨ c = '_' := by
  simp only [isNameStart, Char.isAlpha, Char.isUpper, Char.isLower, IsLetter, Bool.or_eq_true,
    Bool.and_eq_true, decide_eq_true_eq, beq_iff_eq, Char.le_def]
  tauto

lemma isNameRest_iff {c : Char} : isNameRest c = true ↔ IsLetter c ∨ IsDigit c ∨ c = '_' := by
  simp only [isNameRest, Char.isAlphanum, Char.isAlpha, Char.isDigit, Char.isUpper, Char.isLower,
    IsLetter, IsDigit, Bool.or_eq_true, Bool.and_eq_true, decide_eq_true_eq, beq_iff_eq,
    Char.le_def]
  tauto

lemma isIdentifier_iff : isIdentifier name = true ↔ IsIdentifier name := by
  unfold isIdentifier IsIdentifier
  cases name.toList with
  | nil => simp
  | cons first rest => simp [isNameStart_iff, isNameRest_iff]

lemma checkName_ok_iff {kind : String} : checkName kind name = .ok u ↔ IsIdentifier name := by
  rw [← isIdentifier_iff, checkName]
  split <;> simp_all

def AreNew (seen names : List String) : Prop := names.Nodup ∧ ∀ name ∈ names, name ∉ seen

lemma areNew_nil : AreNew seen [] := ⟨.nil, by simp⟩

lemma areNew_iff_nodup : AreNew [] names ↔ names.Nodup := by
  simp [AreNew]

lemma areNew_cons : AreNew seen (name :: names) ↔ name ∉ seen ∧ AreNew (name :: seen) names := by
  rw [AreNew, nodup_cons, forall_mem_cons]
  simp only [AreNew, mem_cons, not_or]
  constructor
  · rintro ⟨⟨other, nodup⟩, new, rest⟩
    exact ⟨new, nodup, fun x inside => ⟨fun same => other (same ▸ inside), rest x inside⟩⟩
  · rintro ⟨new, nodup, rest⟩
    exact ⟨⟨fun inside => (rest name inside).1 rfl, nodup⟩, new, fun x inside => (rest x inside).2⟩

lemma areNew_append_singleton : AreNew (seen ++ [name]) names ↔ AreNew (name :: seen) names := by
  simp [AreNew, or_comm]

lemma areNew_iff_append (h : seen.Nodup) : AreNew seen names ↔ (seen ++ names).Nodup := by
  rw [nodup_append', AreNew]
  exact ⟨fun new => ⟨h, new.1, fun name old inside => new.2 name inside old⟩,
    fun all => ⟨all.2.1, fun name inside old => all.2.2 old inside⟩⟩

end

section

lemma checkLiteral_ok_iff {entity : String} {type : ValueType} :
    checkLiteral entity type value = .ok u ↔ value.Fits type := by
  cases value with
  | bool b => cases type <;> simp [checkLiteral, Literal.Fits, Literal.kind, ValueType.kind]
  | int v =>
    cases type <;> simp [checkLiteral, Literal.Fits, Literal.kind, ValueType.kind, fitsInt32]
    split <;> simp_all
  | str text =>
    cases type <;> simp [checkLiteral, Literal.Fits, Literal.kind, ValueType.kind, hasNul]
    split <;> simp_all

lemma Literal.Fits.plain {text : String} {type : ValueType} (h : (Literal.str text).Fits type) :
    hasNul text = false := by
  simpa [hasNul] using h.2

lemma firstRepeated_eq_none_iff : firstRepeated seen names = none ↔ AreNew seen names := by
  induction names generalizing seen with
  | nil => simp [firstRepeated, areNew_nil]
  | cons name rest ih =>
    rw [firstRepeated, areNew_cons, ← ih]
    split <;> simp_all

lemma build_ok_iff {owner : String} {r : Record} :
    build owner fields = .ok r ↔ (fields.map (·.name)).Nodup ∧ pack fields = r := by
  rw [← areNew_iff_nodup, ← firstRepeated_eq_none_iff, build]
  split <;> simp_all

end

namespace Layout

section

lemma placeSchemas_ok_iff {done result : List SchemaLayout} {schemas : List Schema} :
    placeSchemas done schemas = .ok result ↔
      ((∀ s ∈ schemas, s.IsWellFormed) ∧ AreNew (done.map (·.name)) (schemas.map (·.name))) ∧
      done ++ schemas.mapIdx (fun k s =>
      ⟨s.name, done.length + k + 1, pack s.fields⟩) = result := by
  induction schemas generalizing done with
  | nil => simp [placeSchemas, areNew_nil]
  | cons schema rest ih =>
    have step : placeSchemas done (schema :: rest) = .ok result ↔
        schema.IsWellFormed ∧ schema.name ∉ done.map (·.name) ∧ placeSchemas
          (done ++ [⟨schema.name, done.length + 1, pack schema.fields⟩]) rest = .ok result := by
      simp [placeSchemas, bind_ok, ite_throw_ok, checkName_ok_iff, build_ok_iff,
        Schema.isWellFormed_iff]
      tauto
    rw [step, ih, forall_mem_cons, map_append, map_singleton,
      areNew_append_singleton, map_cons, areNew_cons]
    simp only [mapIdx_cons, append_assoc, singleton_append, length_append,
      length_singleton, add_zero, add_right_comm _ 1, ← add_assoc]
    tauto

end

section

variable {schemas : List SchemaLayout} {template : Template} {seen : List String} {u : Unit}

lemma checkInit_ok_iff {field : StateField} :
    checkInit template field = .ok u ↔ ∀ value ∈ field.init, value.Fits field.type := by
  unfold checkInit
  cases field.init with
  | none => simp
  | some value => simp [checkLiteral_ok_iff]

lemma checkHandlers_ok_iff {handlers : List Handler} : checkHandlers schemas template seen
      handlers = .ok u ↔ (∀ handler ∈ handlers, handler.schema ∈ schemas.map (·.name)) ∧
      AreNew seen (handlers.map (·.schema)) := by
  induction handlers generalizing seen with
  | nil => simp [checkHandlers, areNew_nil]
  | cons handler rest ih =>
    rw [forall_mem_cons, map_cons, areNew_cons]
    simp only [checkHandlers, ite_throw_ok, ih]
    simp
    tauto

lemma checkHelpers_ok_iff {helpers : List Helper} : checkHelpers template seen helpers = .ok u ↔
      (∀ helper ∈ helpers, IsIdentifier helper.name ∧ helper.params.length ≤ 4) ∧
      AreNew seen (helpers.map (·.name)) := by
  induction helpers generalizing seen with
  | nil => simp [checkHelpers, areNew_nil]
  | cons helper rest ih =>
    rw [forall_mem_cons, map_cons, areNew_cons]
    simp only [checkHelpers, bind_ok, ite_throw_ok, ih, checkName_ok_iff]
    simp [maxHelperParams]
    tauto

lemma checkTemplates_ok_iff {templates : List Template} : checkTemplates schemas seen templates =
      .ok u ↔ (∀ t ∈ templates, t.IsWellFormed (schemas.map (·.name))) ∧
      AreNew seen (templates.map (·.name)) := by
  induction templates generalizing seen with
  | nil => simp [checkTemplates, areNew_nil]
  | cons template rest ih =>
    have step : checkTemplates schemas seen (template :: rest) = .ok u ↔
        template.IsWellFormed (schemas.map (·.name)) ∧ template.name ∉ seen ∧
        checkTemplates schemas (template.name :: seen) rest = .ok u := by
      simp only [checkTemplates, bind_ok, ite_throw_ok, checkName_ok_iff, forM_ok,
        checkInit_ok_iff, checkHandlers_ok_iff, checkHelpers_ok_iff, areNew_iff_nodup,
        Template.isWellFormed_iff]
      simp
      tauto
    rw [step, ih, forall_mem_cons, map_cons, areNew_cons]
    tauto

end

section

variable {schemas : List SchemaLayout} {agents : List AgentLayout} {table : List Route}
  {edge : String}

lemma checkSource_ok_iff {source : Endpoint} : checkSource agents edge source = .ok u ↔
      ∀ name, source = .agent name → name ∈ agents.map (·.name) := by
  cases source with
  | external => simp [checkSource]
  | agent name =>
    rw [checkSource]
    split <;> simp_all

lemma addDestinations_ok_iff {done goals result : List String} :
    addDestinations agents edge done goals = .ok result ↔
      (∀ goal ∈ goals, goal ∈ agents.map (·.name)) ∧ AreNew done goals ∧ done ++
      goals = result := by
  induction goals generalizing done with
  | nil => simp [addDestinations, areNew_nil]
  | cons goal rest ih =>
    rw [forall_mem_cons, areNew_cons]
    simp only [addDestinations, ite_throw_ok, ih, areNew_append_singleton]
    simp
    tauto

lemma addRoute_ok_iff {route : Route} {table' : List Route} : addRoute schemas agents table route =
      .ok table' ↔ route.IsWellFormed (schemas.map (·.name)) (agents.map (·.name)) ∧
      AreNew (destinationsIn table route.source route.schema) route.destinations ∧
      putRoute { route with
        destinations := destinationsIn table route.source route.schema ++ route.destinations }
          table =
        table' := by
  simp only [addRoute, bind_ok, ite_throw_ok, pure_ok, checkSource_ok_iff,
    addDestinations_ok_iff, Route.isWellFormed_iff]
  simp
  tauto

end

end Layout

end AgentCompiler
