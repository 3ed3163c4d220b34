import AgentCompiler.Proofs.BoundedQueue
import AgentCompiler.Proofs.LoweredStatements

/-!
A block keeps its meaning: in a process that has the code of the block somewhere, a run of the block
from one store to another is a run of the code from a machine that shows the first store to a
machine that shows the second.
-/

namespace AgentCompiler

open Record
open Register (rbp rsp)
open BitVec (ofNat)

variable {fields : List FieldDecl}

lemma Record.isSound_pack (names : (fields.map (·.name)).Nodup)
    (small : (pack fields).size ≤ 0x80000000) : (pack fields).IsSound where
  near := by
    intro slot mem
    have bound := pack_bounds mem
    have positive : 1 ≤ slot.type.size := by cases slot.type <;> decide
    omega
  names := by
    have slots : (pack fields).slots.map Slot.decl = fields := map_placeFields
    rw [← slots, List.map_map] at names
    exact names
  apart := pack_apart fields

lemma Record.cells_pack_subset {base : Word} (small : (pack fields).size ≤ UInt64.size) :
    (pack fields).cells base ⊆ AgentCompiler.cells base (pack fields).size := by
  rintro a ⟨slot, mem, inside⟩
  exact AgentCompiler.cells_subset (pack_bounds mem) small inside

namespace Lower

variable {plan : Plan} {r : Routine} {f f' : Frame} {p q : Pool} {code : Code} {W : Workspace}
  {P : Process} {s : Machine} {message : Fields} {store store' : Store} {k : Nat} {ending : Ending}
  {body : List Stmt}

/-- The code of a block does what the block means. The frame of its last statement tells where its
variables are then. -/
theorem block_preserves_meaning (stands : W.Stands P) (distinct : P.HasDistinctLabels)
    (leaves : (P.labelPosition r.epilogue).isSome) (covered : IsCovered W plan r p f' q)
    (lowered : block plan r body f p = .ok ((code, f'), q)) (placed : P.Holds k code)
    (ready : Ready W P r message f store s) (runs : Runs message body store store' ending) :
    ∃ e c names, statements plan r body f.openScope p = .ok ((code, e), q) ∧ f' = e.closeScope ∧
      P.Flows ⟨k, s⟩ c ∧ W.Ended P r s (k + code.length) c ending ∧
      f.scopes.flatten <:+ names ∧ names <:+ e.scopes.flatten ∧
      (ending = .normal → names = e.scopes.flatten) ∧
      W.Shows P message names store' c.machine.memory := by
  obtain ⟨e, inner, rfl⟩ := block_ok lowered
  have opened : Ready W P r message f.openScope store s := ready.openScope
  have whole : IsCovered W plan r p e q :=
    ⟨covered.knows, covered.epilogue, covered.words, covered.slots⟩
  obtain ⟨c, names, flows, ended, older, newer, all, shows⟩ :=
    runs_isCarried stands distinct leaves runs opened whole inner placed
  exact ⟨e, c, names, inner, rfl, flows, ended, older, newer, all, shows⟩

end Lower

section

lemma exists_ok_of_any {ε α : Type} {x : Except ε α} {p : α → Bool} (h : x.toOption.any p) :
    ∃ a, x = .ok a ∧ p a := by
  cases x with
  | error fault => cases h
  | ok a => exact ⟨a, rfl, h⟩

/-- Counts once in a loop, in a variable that hides another one of its name, and returns the count.
-/
def countOnce : List Stmt := [.declare "x" (.int 3), .loop (.binary .lt (.state "count") (.int 1)) [
    .declare "x" (.binary .add (.var "x") (.int 4)), .assign (.state "count") (.var "x")],
  .ret (some (.state "count"))]

def countState : Record := pack [⟨"on", .bool⟩, ⟨"count", .i32⟩, ⟨"name", .str⟩]

def countRoutine : Routine where
  name := "handler.a.Tick"
  agent := ⟨"a", "Counter", 0, 16, countState⟩
  template := ⟨"Counter", [], [], []⟩
  message := none
  returns := .status
  epilogue := ⟨Pool.initial.labels.size⟩

def countPlan : Plan where
  program := ⟨[], [], [], [], ⟨"Tick", []⟩⟩
  layout := ⟨[], [], [], [], 0⟩
  settings := {}
  handlers := []
  helpers := []
  sections := {}

def countPool : Pool := { Pool.initial with labels := (Pool.initial.labels.fresh "epilogue").2 }

def countProcess (code : Code) : Process where
  code := code ++ [.label countRoutine.epilogue]
  codeAddress := ofNat 64
  symbolAt := fun _ => 0
  mapped := fun _ => true
  outside := fun _ => none
  system := fun _ => none

def countWorkspace : Workspace where
  state := 4096
  message := 0
  frame := 8192
  stack := 8128
  stateRecord := countState
  messageRecord := none
  slots := 2
  words := []

def countMachine : Machine where
  regs := fun reg => if reg = .stateBase then 4096 else if reg = rbp then 8192
    else if reg = rsp then 8128 else 0
  flags := .undefined
  memory := fun x => if (x - 4100).toNat < 4 then 255 else if x = 4105 then 32 else 0

def countStore (count : Int32) (locals : List (String × Datum)) : Store where
  fields := Function.update (fun name => if name = "on" then some (.bool false)
    else if name = "name" then some (.str 8192) else none) "count" (some (.i32 count))
  locals := locals

lemma countOnce_lowers : ∃ code f' q,
    Lower.block countPlan countRoutine countOnce {} countPool = .ok ((code, f'), q) ∧
    q.words = [] ∧ f'.slots = 2 ∧ (boundLabels (countProcess code).code).Nodup := by
  obtain ⟨⟨⟨code, f'⟩, q⟩, lowered, facts⟩ := exists_ok_of_any (p := fun result =>
      result.2.words = [] ∧ result.1.2.slots = 2 ∧
      (boundLabels (countProcess result.1.1).code).Nodup)
    (by decide +kernel : (Lower.block countPlan countRoutine countOnce {} countPool).toOption.any _)
  exact ⟨code, f', q, lowered, by simpa using facts⟩

lemma countOnce_runs : Runs (fun _ => none) countOnce (countStore (-1) [])
    (countStore 7 [("x", .int 3)]) (.returned (.int 7)) := by
  have inner : Runs (fun _ => none) [.declare "x" (.binary .add (.var "x") (.int 4)),
      .assign (.state "count") (.var "x")] (countStore (-1) [("x", .int 3)])
      (countStore 7 [("x", .int 7), ("x", .int 3)]) .normal := by
    refine .cons (.declare (d := .int 7) rfl) (.assign (d := .int 7) rfl ?_)
    simp [Store.assign, Store.declare, countStore, Stored.type, Stored.ofDatum?]
  have last : Runs (fun _ => none) [.loop (.binary .lt (.state "count") (.int 1)) [
      .declare "x" (.binary .add (.var "x") (.int 4)), .assign (.state "count") (.var "x")]]
      (countStore 7 [("x", .int 3)]) (countStore 7 [("x", .int 3)]) .normal := .exit rfl
  exact .cons (.declare rfl) (.cons (.again rfl inner last) (.ret rfl))

lemma countWorkspace_stands (code : Code) : countWorkspace.Stands (countProcess code) := by
  have record : countState.cells 4096 ⊆ cells (0 + ofNat 64 4096) countState.size :=
    cells_pack_subset (by decide : countState.size ≤ UInt64.size)
  have fields : Disjoint (countState.cells 4096) (cells (0 + ofNat 64 8176) 16) :=
    (disjoint_cells (by decide) (by decide)).mono_left record
  have state : Disjoint (cells (0 + ofNat 64 8112) 16) (countState.cells 4096) :=
    ((disjoint_cells (by decide) (by decide)).mono_left record).symm
  have stack : Disjoint (cells (0 + ofNat 64 8112) 16) (cells (0 + ofNat 64 8176) 16) :=
    disjoint_cells (by decide) (by decide)
  refine ⟨fun _ _ => rfl, fields, (Disjoint.sup_right state stack).symm, ?_, ?_, ?_, by decide⟩
  · rw [Set.disjoint_left]
    rintro a (⟨_, none, -⟩ | ⟨_, mem, -⟩)
    · cases none
    · cases mem
  · have names : ([⟨"on", .bool⟩, ⟨"count", .i32⟩, ⟨"name", .str⟩].map FieldDecl.name).Nodup := by
      decide
    exact isSound_pack names (by decide)
  · intro _ none
    cases none

lemma countMachine_ready (code : Code) : Lower.Ready countWorkspace (countProcess code) countRoutine
    (fun _ => none) {} (countStore (-1) []) countMachine where
  stateRecord := rfl
  messageRecord := rfl
  own := .initial
  slots := by decide
  bears := ⟨rfl, rfl, rfl, rfl⟩
  holds := {
    fields := by
      have slots : countState.slots =
          [⟨"on", .bool, 0⟩, ⟨"count", .i32, 4⟩, ⟨"name", .str, 8⟩] := by decide
      intro slot mem
      rw [show countWorkspace.stateRecord = countState from rfl, slots] at mem
      simp only [List.mem_cons, List.not_mem_nil, or_false] at mem
      obtain rfl | rfl | rfl := mem
      · exact ⟨.bool false, rfl, rfl, rfl⟩
      · exact ⟨.i32 (-1), rfl, rfl, rfl⟩
      · exact ⟨.str 8192, rfl, rfl, rfl⟩
    payload := by
      intro _ none
      cases none
    locals := .nil
    words := by
      intro pair mem
      cases mem }

lemma countPlan_knows : countPlan.Knows countPool where
  fixed := by decide
  texts := by simp [countPool, Pool.initial]
  words := by simp [countPool, Pool.initial]
  queues := by simp [countPlan, Plan.storage?]

/-- The loop counts to seven, and the epilogue is reached with this status. -/
theorem block_preserves_meaning_countOnce : ∃ code f' q c,
    Lower.block countPlan countRoutine countOnce {} countPool = .ok ((code, f'), q) ∧
    Runs (fun _ => none) countOnce (countStore (-1) []) (countStore 7 [("x", .int 3)])
      (.returned (.int 7)) ∧
    (countProcess code).Flows ⟨0, countMachine⟩ c ∧ c.position = code.length ∧
    c.machine.regs .result = 7 ∧ c.machine.memory.bytes 4100 4 = [7, 0, 0, 0] := by
  obtain ⟨code, f', q, lowered, words, slots, labels⟩ := countOnce_lowers
  have distinct : (countProcess code).HasDistinctLabels := Process.hasDistinctLabels_of_nodup labels
  have leaves : (countProcess code).labelPosition countRoutine.epilogue = some code.length :=
    Process.labelPosition_of_at distinct (by simp [countProcess])
  have covered : Lower.IsCovered countWorkspace countPlan countRoutine countPool f' q := {
    knows := countPlan_knows
    epilogue := by decide
    words := by simp [words]
    slots := by simp [slots, countWorkspace] }
  have placed : (countProcess code).Holds 0 code := List.prefix_append _ _
  obtain ⟨e, c, names, -, -, flows, ended, -, -, -, shows⟩ := Lower.block_preserves_meaning
    (countWorkspace_stands code) distinct (by simp [leaves]) covered lowered placed
    (countMachine_ready code) countOnce_runs
  obtain ⟨reached, result, -⟩ := ended
  obtain ⟨v, known, -, bytes⟩ := shows.fields ⟨"count", .i32, 4⟩ (by decide)
  refine ⟨code, f', q, c, lowered, countOnce_runs, flows, ?_, result, ?_⟩
  · exact Option.some.inj (reached.symm.trans leaves)
  · obtain rfl : v = .i32 7 := by simpa [countStore] using known.symm
    exact bytes

end

end AgentCompiler
