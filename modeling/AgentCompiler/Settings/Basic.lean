import AgentCompiler.Diagnostic
import AgentCompiler.Text.Hex

/-! Settings of a compilation and the limits they have to keep. -/

namespace AgentCompiler

structure Settings where
  outputPath : String := "a.out"
  /-- The program stops after so many cycles; zero means never. -/
  maxCycles : UInt64 := 1000000
  /-- Accepted, without effect on the image. -/
  emitDebugSymbols : Bool := false
  debugReports : Bool := false
  heapSize : UInt64 := 1048576
  queueCapacity : UInt32 := 64
  maxStateBytes : UInt64 := 1048576
  loadAddress : UInt64 := 0x400000
  deriving DecidableEq

namespace Settings

def maxHeapSize : Nat := 0x40000000

def maxQueueCapacity : Nat := 65536

/-- Addresses of code and data have to stay within a signed 32-bit distance. -/
def loadAddressBound : Nat := 0x80000000

def validate (s : Settings) : Outcome Unit := do
  let heap := s.heapSize.toNat
  if heap = 0 ∨ maxHeapSize < heap then throw (.exhausted .layout "heap size" heap maxHeapSize)
  let queue := s.queueCapacity.toNat
  if queue = 0 ∨ maxQueueCapacity < queue then
    throw (.exhausted .layout "queue capacity" queue maxQueueCapacity)
  let load := s.loadAddress.toNat
  if load % 4096 ≠ 0 ∨ load = 0 then
    throw (.unencodable s!"load address {hexText load}"
      "must be a non-zero multiple of the page size")
  if loadAddressBound ≤ load then
    throw (.exhausted .layout "load address" load (loadAddressBound - 1))

end Settings

end AgentCompiler
