import AgentCompiler.Proofs.ScalarExpressions

/-!
How far declared types reach into registers. Fields of four bytes are extended by their sign
whenever they are read. Parameters and results are passed on as they are, and a body that runs off
its end returns zero even where an address is declared.
-/

namespace AgentCompiler

open Process
open Register (rax rbx rdx)

namespace Lower

variable {plan : Plan} {r : Routine} {f f' : Frame} {p q : Pool} {code : Code} {W : Workspace}
  {P : Process} {s : Machine} {message : Fields} {store store' : Store} {k : Nat}

section

variable {e : Expr} {v : Value}

lemma Computes.reads {d : Datum} {depth : Nat}
    (computes : Computes W P message store e k code s v depth)
    (means : (e.evaluate message store).run = some (.ok d)) :
    ∃ t, P.Flows ⟨k, s⟩ ⟨k + code.length, t⟩ ∧ t.regs v.reg = d.word := by
  obtain ⟨-, t, flows, receives⟩ := computes.value d means
  exact ⟨t, flows, receives.value⟩

/-- A field of four bytes is read with its sign, so that the register has a number of four bytes. A
variable is read as it was stored, whatever was declared for it. -/
theorem narrow_fields_are_extended (stands : W.Stands P) (ready : Ready W P r message f store s)
    (lowered : expression plan r e f p = .ok (((v, code), f'), q)) (placed : P.Holds k code) :
    (∀ name value, e = .state name ∧ store.fields name = some (.i32 value) ∨
        e = .field name ∧ message name = some (.i32 value) →
      ∃ t, P.Flows ⟨k, s⟩ ⟨k + code.length, t⟩ ∧ t.regs v.reg = value.toBitVec.signExtend 64 ∧
        (t.regs v.reg).toInt ∈ Set.Ico (-0x80000000) 0x80000000) ∧
    ∀ name d, e = .var name → store.locals.lookup name = some d →
      ∃ t, P.Flows ⟨k, s⟩ ⟨k + code.length, t⟩ ∧ t.regs v.reg = d.word := by
  refine ⟨fun name value reads => ?_, fun name d is known => ?_⟩
  · have computes : ∃ t, P.Flows ⟨k, s⟩ ⟨k + code.length, t⟩ ∧ t.regs v.reg =
      (Datum.int value.toInt64).word := by
      obtain ⟨rfl, known⟩ | ⟨rfl, known⟩ := reads
      · exact (state_computes stands ready lowered placed).reads
          (by simp [Expr.evaluate, known, Stored.read])
      · exact (field_computes stands ready lowered placed).reads
          (by simp [Expr.evaluate, known, Stored.read])
    obtain ⟨t, flows, content⟩ := computes
    have extended : t.regs v.reg = value.toBitVec.signExtend 64 :=
      content.trans (Int32.toBitVec_toInt64 value)
    refine ⟨t, flows, extended, ?_⟩
    rw [extended, BitVec.toInt_signExtend_of_le (by decide)]
    exact ⟨value.toBitVec.le_toInt, value.toBitVec.toInt_lt⟩
  · subst is
    exact (var_computes stands ready lowered placed).reads (by simp [Expr.evaluate, known])

end

section

variable {body : List Stmt} {ending : Ending}

/-- What the epilogue is reached with: the value of the return statement that was met, which has the
declared kind, or zero where the body has come to its end. -/
theorem bodies_return_or_give_zero (stands : W.Stands P) (distinct : P.HasDistinctLabels)
    (covered : IsCovered W plan r p f' q) (lowered : block plan r body f p = .ok ((code, f'), q))
    (placed : P.Holds k (code ++ [Instruction.zero rax, .label r.epilogue]))
    (ready : Ready W P r message f store s) (runs : Runs message body store store' ending) :
    (∀ d, ending = .returned d → (∀ kind, returnKind r.returns = some kind → d.kind = kind) ∧
      ∃ c, P.Flows ⟨k, s⟩ c ∧ P.labelPosition r.epilogue = some c.position ∧
        c.machine.regs rax = d.word) ∧
    (ending = .normal → ∃ c, P.Flows ⟨k, s⟩ c ∧ P.labelPosition r.epilogue = some c.position ∧
      c.machine.regs rax = 0) := by
  obtain ⟨e, inner, rfl⟩ := block_ok lowered
  obtain ⟨atBody, atEnd⟩ := holds_append.1 placed
  have parts : P.Holds (k + code.length) ([Instruction.zero rax] ++ [.label r.epilogue]) := atEnd
  obtain ⟨atZero, atLabel⟩ := holds_append.1 parts
  have leaves := Holds.labelPosition distinct atLabel
  -- Closing the scope of the block leaves the number of slots as it was.
  have whole : IsCovered W plan r p e q := ⟨covered.knows, covered.epilogue, covered.words,
    covered.slots⟩
  obtain ⟨c, -, flows, ended, -⟩ :=
    runs_isCarried stands distinct (by simp [leaves]) runs ready.openScope whole inner atBody
  constructor
  · rintro d rfl
    exact ⟨ended.2.2.2, c, flows, ended.1, ended.2.1⟩
  · rintro rfl
    obtain ⟨position, machine⟩ := c
    obtain rfl : position = k + code.length := ended.1
    have last : P.Flows ⟨k + code.length, machine⟩ _ := flows_execute atZero
      (by rw [execute_cons, effect_zero]; rfl)
    exact ⟨_, flows.trans last, leaves, by simp⟩

end

end Lower

section

open Lower

/-- The count is minus one, in four bytes and in the register. -/
theorem narrow_fields_are_extended_count : ∃ v code f' q t,
    expression countPlan countRoutine (.state "count") {} countPool = .ok (((v, code), f'), q) ∧
    (countProcess code).Flows ⟨0, countMachine⟩ ⟨0 + code.length, t⟩ ∧ t.regs v.reg = -1 := by
  obtain ⟨v, code, f', q, lowered⟩ : ∃ v code f' q,
      expression countPlan countRoutine (.state "count") {} countPool = .ok (((v, code), f'), q) :=
      ⟨_, _, _, _, rfl⟩
  have placed : (countProcess code).Holds 0 code := List.prefix_append _ _
  obtain ⟨t, flows, content, -⟩ := (narrow_fields_are_extended (countWorkspace_stands code)
    (countMachine_ready code) lowered placed).1 "count" (-1) (.inl ⟨rfl, rfl⟩)
  exact ⟨v, code, f', q, t, lowered, flows, content⟩

/-- The code of a helper, the only one of its agent. -/
def helperCode (h : Helper) : Option Code :=
  (Emit.helper { countPlan with helpers := [(("a", h.name), ⟨0⟩)] } countRoutine.agent
    countRoutine.template h countPool).toOption.map (·.1)

/-- A parameter of four bytes is stored, read and returned as a whole word. -/
theorem narrow_parameter_is_whole :
    (helperCode ⟨"same", [⟨"x", .i32⟩], some .i32, [.ret (some (.var "x"))]⟩).any
    ([.move (Variable.address 0) rdx, .move rbx (Variable.address 0), .move rax rbx,
      .jmp ⟨countPool.labels.size⟩] <:+: ·) = true := by
  decide +kernel

/-- A helper that returns a string, unless the agent is on. -/
def nameHelper : Helper :=
  ⟨"called", [], some .str, [.branch (.state "on") [] [.ret (some (.state "name"))]]⟩

def nameRoutine : Routine := { countRoutine with returns := .value nameHelper.returns }

/-- The agent is not on, and the string in its state is returned. -/
theorem bodies_return_or_give_zero_name : ∃ code f' q c,
    block countPlan nameRoutine nameHelper.body {} countPool = .ok ((code, f'), q) ∧
    (countProcess (code ++ [.zero rax])).Flows ⟨0, countMachine⟩ c ∧
    c.machine.regs rax = (Datum.str 8192).word := by
  obtain ⟨⟨⟨code, f'⟩, q⟩, lowered, facts⟩ := exists_ok_of_any (p := fun result =>
      result.2.words = [] ∧ result.1.2.slots = 0 ∧
      (boundLabels (countProcess (result.1.1 ++ [.zero rax])).code).Nodup)
    (by decide +kernel : (block countPlan nameRoutine nameHelper.body {} countPool).toOption.any _)
  obtain ⟨words, slots, labels⟩ : q.words = [] ∧ f'.slots = 0 ∧ _ := by simpa using facts
  have covered : IsCovered countWorkspace countPlan nameRoutine countPool f' q :=
    ⟨countPlan_knows, by decide, by simp [words], by simp [slots]⟩
  have placed : (countProcess (code ++ [.zero rax])).Holds 0
      (code ++ [.zero rax, .label nameRoutine.epilogue]) := by
    simp [Process.Holds, countProcess, nameRoutine]
  have off : ((Expr.state "on").evaluate (fun _ => none) (countStore (-1) [])).run =
      some (.ok (.bool false)) := rfl
  have runs : Runs (fun _ => none) nameHelper.body (countStore (-1) []) _ (.returned (.str 8192)) :=
    .branch off (.ret rfl)
  obtain ⟨-, c, flows, -, value⟩ := (bodies_return_or_give_zero (countWorkspace_stands _)
    (hasDistinctLabels_of_nodup labels) covered lowered placed { countMachine_ready _ with }
    runs).1 _ rfl
  exact ⟨code, f', q, c, lowered, flows, value⟩

/-- A helper without statements is accepted, and nothing stands between its entry and the zero. -/
theorem text_helper_falls_through : helperCode ⟨"greeting", [], some .str, []⟩ =
    some (prologue ⟨0⟩ {} 0 ++ epilogue ⟨countPool.labels.size⟩ {}) := by
  decide +kernel

end

end AgentCompiler
