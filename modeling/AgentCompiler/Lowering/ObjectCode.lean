import AgentCompiler.Lowering.Cycle
import AgentCompiler.Lowering.Routine
import AgentCompiler.Service.Library

/-!
The code and the data of a whole program: the main routine first, then the routines of each agent,
then the services.
-/

namespace AgentCompiler

structure ObjectCode where
  code : Code
  labels : LabelTable
  symbols : SymbolTable
  rodata : DataSection
  data : DataSection
  bss : DataSection
  dataRelocations : List Relocation
  entry : Label

namespace ObjectCode

def names (o : ObjectCode) : Names := ⟨o.labels.name, o.symbols.name⟩

def listing (o : ObjectCode) : Outcome String := AgentCompiler.listing o.names o.code

end ObjectCode

namespace Emit

def program (plan : Plan) : Emit (Label × Code) := do
  let (entry, main) ← mainRoutine plan
  let routines ← plan.layout.agents.mapM (agentRoutines plan)
  let support ← services plan.settings
  pure (entry, main ++ routines.flatten ++ support)

end Emit

def generate (program : Program) (layout : Layout) (settings : Settings) : Outcome ObjectCode := do
  let (plan, pool) ← (Plan.make program layout settings).run .initial
  let ((entry, code), pool) ← (Emit.program plan).run pool
  pure {
    code
    labels := pool.labels
    symbols := pool.symbols
    rodata := pool.rodata
    data := plan.sections.data
    bss := plan.sections.bss
    dataRelocations := plan.sections.relocations
    entry }

end AgentCompiler
