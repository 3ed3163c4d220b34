import AgentCompiler.Main
import AgentCompiler.Proofs.StackDiscipline
import AgentCompiler.Proofs.MemoryIsolation
import AgentCompiler.Proofs.MovedImages
import AgentCompiler.Proofs.TidalCycle
import AgentCompiler.Proofs.SilentReports
import AgentCompiler.Proofs.DeclarationOrder
import AgentCompiler.Proofs.PrintedPrograms
import AgentCompiler.Proofs.ScalarExpressions
import AgentCompiler.Proofs.DecimalStrings
import AgentCompiler.Proofs.InputStrings
import AgentCompiler.Proofs.DeliveredOutput
import AgentCompiler.Proofs.RelocatedImages
import AgentCompiler.Proofs.RefusedInstructions
import AgentCompiler.Proofs.SectionHistories
import AgentCompiler.Proofs.SymbolHistories
import AgentCompiler.Proofs.PoolHistories
import AgentCompiler.Proofs.DeclaredTypes
