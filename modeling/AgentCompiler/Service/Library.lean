import AgentCompiler.Lowering.Pool
import AgentCompiler.Service.Queue
import AgentCompiler.Service.Stream
import AgentCompiler.Settings.Basic

/-! All services, in the order in which they stand in an image. -/

namespace AgentCompiler

namespace Emit

def abortService : Emit Code := do
  let newline ← internText "\n"
  pure (Service.abortCode newline)

def writeBytesService : Emit Code := do
  let again ← fresh "write.again"
  let done ← fresh "write.done"
  pure (Service.writeBytesCode again done)

def putTextService : Emit Code := do
  let scan ← fresh "puts.scan"
  let found ← fresh "puts.found"
  pure (Service.putTextCode scan found)

def textLengthService : Emit Code := do
  let scan ← fresh "strlen.scan"
  let done ← fresh "strlen.done"
  pure (Service.textLengthCode scan done)

def textEqualService : Emit Code := do
  let scan ← fresh "streq.scan"
  let equal ← fresh "streq.equal"
  let differ ← fresh "streq.differ"
  pure (Service.textEqualCode scan equal differ)

def allocateService (heapSize : Nat) : Emit Code := do
  if maxInt32 < heapSize then throw (.exhausted .codegen "heap size" heapSize maxInt32)
  let full ← fresh "alloc.oom"
  let message ← internText "tidal: out of heap memory"
  pure (Service.allocateCode Pool.heap Pool.heapCursor message heapSize full)

def formatIntService : Emit Code := do
  let positive ← fresh "fmt.positive"
  let digit ← fresh "fmt.digit"
  let done ← fresh "fmt.done"
  pure (Service.formatIntCode positive digit done)

def repeatTextService : Emit Code := do
  let counted ← fresh "repeat.counted"
  let fits ← fresh "repeat.fits"
  let sized ← fresh "repeat.sized"
  let copy ← fresh "repeat.copy"
  let done ← fresh "repeat.done"
  pure (Service.repeatTextCode counted fits sized copy done)

def printBoolService : Emit Code := do
  let yes ← internText "true"
  let no ← internText "false"
  let isFalse ← fresh "print_bool.false"
  pure (Service.printBoolCode yes no isFalse)

def enqueueService (capacity : Nat) : Emit Code := do
  let inRange ← fresh "enqueue.in_range"
  let overflow ← fresh "enqueue.overflow"
  let message ← internText "tidal: message queue overflow"
  pure (Service.enqueueCode capacity message inRange overflow)

def dequeueService (capacity : Nat) : Emit Code := do
  let empty ← fresh "dequeue.empty"
  let inRange ← fresh "dequeue.in_range"
  pure (Service.dequeueCode capacity empty inRange)

def services (settings : Settings) : Emit Code := do
  let capacity := settings.queueCapacity.toNat
  let abort ← abortService
  let writeBytes ← writeBytesService
  let putText ← putTextService
  let textLength ← textLengthService
  let textEqual ← textEqualService
  let allocate ← allocateService settings.heapSize.toNat
  let formatInt ← formatIntService
  let repeatText ← repeatTextService
  let printBool ← printBoolService
  let enqueue ← enqueueService capacity
  let dequeue ← dequeueService capacity
  pure (Service.exitCode ++ abort ++ writeBytes ++ putText ++ textLength ++ textEqual ++
    Service.copyBytesCode ++ Service.fillBytesCode ++ allocate ++ Service.concatCode ++
    formatInt ++ repeatText ++ Service.readBytesCode ++ Service.readTextCode ++
    Service.printIntCode ++ printBool ++ enqueue ++ dequeue)

end Emit

end AgentCompiler
