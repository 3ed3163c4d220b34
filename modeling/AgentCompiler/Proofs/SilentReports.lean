import AgentCompiler.Proofs.ProgramLookups
import AgentCompiler.Proofs.ProgramText

/-!
Reports that are switched off cost nothing. A program and the same program with every report taken
out, at whatever depth it stands, have the same layout, the same code and the same image, or fail
in the same way.
-/

namespace AgentCompiler

open Stmt

section

mutual

def Stmt.withoutReports : Stmt → Stmt
  | .branch cond onTrue onFalse => .branch cond (dropReports onTrue) (dropReports onFalse)
  | .loop cond body => .loop cond (dropReports body)
  | .block body => .block (dropReports body)
  | s => s

def Stmt.dropReports : List Stmt → List Stmt
  | [] => []
  | .report _ :: rest => dropReports rest
  | s :: rest => s.withoutReports :: dropReports rest

end

def Handler.withoutReports (h : Handler) : Handler := { h with body := dropReports h.body }

def Helper.withoutReports (h : Helper) : Helper := { h with body := dropReports h.body }

def Template.withoutReports (t : Template) : Template := { t with
    handlers := t.handlers.map (·.withoutReports)
    helpers := t.helpers.map (·.withoutReports) }

def Program.withoutReports (p : Program) : Program :=
  { p with templates := p.templates.map (·.withoutReports) }

end

section

variable {plan : Plan} {r : Routine}

namespace Lower

section

variable (off : plan.settings.debugReports = false)
include off

lemma statement_of_silent (value : Expr) : statement plan r (.report value) = pure [] := by
  rw [statement, off]
  rfl

lemma statements_dropReports {body : List Stmt}
    (each : ∀ s ∈ body, statement plan r s.withoutReports = statement plan r s) :
    statements plan r (dropReports body) = statements plan r body := by
  induction body with
  | nil => rfl
  | cons s rest ih =>
    rw [List.forall_mem_cons] at each
    cases s with
    | report value => simp [dropReports, statements, statement_of_silent off, ih each.2]
    | _ => rw [dropReports, statements, statements, each.1, ih each.2]; simp

lemma statement_withoutReports (s : Stmt) : statement plan r s.withoutReports = statement plan
    r s := by
  induction s using induction with
  | branch cond onTrue onFalse first second =>
    simp only [withoutReports, statement, statements_dropReports off first,
      statements_dropReports off second]
  | loop cond body ih => simp only [withoutReports, statement, statements_dropReports off ih]
  | block body ih => simp only [withoutReports, statement, statements_dropReports off ih]
  | _ => simp only [withoutReports]

lemma block_dropReports (body : List Stmt) : block plan r (dropReports body) =
    block plan r body := by
  rw [block, block, statements_dropReports off fun s _ => statement_withoutReports off s]

end

end Lower

end

section

variable {settings : Settings}

lemma Template.writesAlike_withoutReports (off : settings.debugReports = false) (t : Template) :
    t.WritesAlike settings t.withoutReports where
  state := rfl
  schemas := by simp [Template.withoutReports, Handler.withoutReports]
  calls := ⟨rfl, by simp [Template.withoutReports, Helper.withoutReports, Helper.signature]⟩
  handlers := by
    rintro plan agent rfl
    simp only [Template.withoutReports, List.mapM_map, Function.comp_def,
      Emit.handler, Handler.withoutReports, Lower.block_dropReports off]
    rfl
  helpers := by
    rintro plan agent rfl
    simp only [Template.withoutReports, List.mapM_map, Function.comp_def,
      Emit.helper, Helper.withoutReports, Lower.block_dropReports off]
    rfl

lemma Program.writesAlike_withoutReports (off : settings.debugReports = false) (p : Program) :
    p.WritesAlike settings p.withoutReports where
  seed := rfl
  templates name := by
    have found : p.withoutReports.template? name = (p.template? name).map (·.withoutReports) :=
      List.find?_map ..
    rw [found]
    cases p.template? name with
    | none => exact .none
    | some t => exact .some (t.writesAlike_withoutReports off)

namespace Layout

lemma checkHandlers_withoutReports (schemas : List SchemaLayout) (t : Template) (seen : List String)
    (handlers : List Handler) : checkHandlers schemas t.withoutReports seen
    (handlers.map (·.withoutReports)) =
      checkHandlers schemas t seen handlers := by
  induction handlers generalizing seen with
  | nil => rfl
  | cons handler rest ih =>
    rw [List.map_cons, checkHandlers, checkHandlers, ih]
    rfl

lemma checkHelpers_withoutReports (t : Template) (seen : List String) (helpers : List Helper) :
    checkHelpers t.withoutReports seen (helpers.map (·.withoutReports)) = checkHelpers t
        seen helpers := by
  induction helpers generalizing seen with
  | nil => rfl
  | cons helper rest ih =>
    rw [List.map_cons, checkHelpers, checkHelpers, ih]
    rfl

lemma checkTemplates_withoutReports (schemas : List SchemaLayout) (seen : List String)
    (templates : List Template) :
    checkTemplates schemas seen (templates.map (·.withoutReports)) = checkTemplates schemas
        seen templates := by
  induction templates generalizing seen with
  | nil => rfl
  | cons t rest ih =>
    have handlers := checkHandlers_withoutReports schemas t [] t.handlers
    have helpers := checkHelpers_withoutReports t [] t.helpers
    rw [List.map_cons, checkTemplates, checkTemplates, ih, ← handlers, ← helpers]
    rfl

lemma analyze_withoutReports (off : settings.debugReports = false) (p : Program) :
    analyze p.withoutReports settings = analyze p settings := by
  have alike := p.writesAlike_withoutReports off
  have templates (schemas : List SchemaLayout) :
      checkTemplates schemas [] p.withoutReports.templates = checkTemplates schemas
          [] p.templates :=
    checkTemplates_withoutReports schemas [] p.templates
  simp only [analyze, templates, placeAgents_alike alike, collectUnits_alike alike]
  rfl

end Layout

/-- Layout, code and image of a program do not depend on reports that are switched off, and neither
does the way in which it is refused. -/
theorem compile_withoutReports (program : Program) (settings : Settings)
    (off : settings.debugReports = false) :
    describeLayout program.withoutReports settings = describeLayout program settings ∧
      lower program.withoutReports settings = lower program settings ∧
      compile program.withoutReports settings = compile program settings := by
  have layouts : describeLayout program.withoutReports settings = describeLayout
      program settings := by
    rw [describeLayout, describeLayout, Layout.analyze_withoutReports off]
  have codes : lower program.withoutReports settings = lower program settings := by
    simp only [lower, layouts, generate_alike (program.writesAlike_withoutReports off)
      (.refl settings)]
  refine ⟨layouts, codes, ?_⟩
  rw [compile, compile, codes]

/-- The counter with reports in its handler, in both arms of a branch and in its helper. One of them
reads a variable that nobody declares. -/
def chattyCounter : Program := { counterProgram with
    templates := [⟨"Counter", [⟨"total", .i64, some (.int 0)⟩],
      [⟨"Tick", [ .report (.str "tick"),
        .assign (.state "total") (.binary .add (.state "total")
        (.binary .div (.int 6) (.field "n"))), .write (.builtin .format [.state "total"]),
        .branch (.binary .lt (.state "total") (.int 10))
          [.report (.field "n"), .emit "Tick" [("n", .call "twice" [.field "n"])]]
          [.ret (some (.int 3)), .report (.var "nowhere")]]⟩],
      [⟨"twice", [⟨"x", .i64⟩], some .i64,
        [.report (.var "x"), .ret (some (.binary .add (.var "x") (.var "x")))]⟩]⟩] }

theorem compile_withoutReports_chattyCounter : chattyCounter.withoutReports = counterProgram ∧
    lower counterProgram {} = lower chattyCounter {} ∧
    compile counterProgram {} = compile chattyCounter {} ∧
    (lower chattyCounter {}).isOk = true := by
  have quiet : chattyCounter.withoutReports = counterProgram := rfl
  obtain ⟨-, codes, images⟩ := compile_withoutReports chattyCounter {} rfl
  rw [quiet] at codes images
  exact ⟨quiet, codes, images, codes ▸ counterProgram_lowers⟩

end

end AgentCompiler
