import AgentCompiler.Command.Run

/-! The command on a real file system. -/

namespace AgentCompiler

namespace Command

def faultOf : IO.Error → FileFault
  | .noFileOrDirectory _ _ _ => .missing
  | .inappropriateType _ code _ => if code = 21 then .isFolder else .notFolder
  | .permissionDenied _ _ _ => .denied
  | .invalidArgument _ 36 _ => .tooLong
  | other => .other (toString other)

def readDisk (path : String) : IO (Except FileFault String) := do
  try
    let bytes ← IO.FS.readBinFile path
    match String.fromUTF8? bytes with
    | some text => return .ok text
    | none => return .error .notText
  catch e => return .error (faultOf e)

def programRights : IO.FileRight where
  user := { read := true, write := true, execution := true }
  group := { read := true, execution := true }
  other := { read := true, execution := true }

def writeDisk (path : String) (bytes : Bytes) : IO Bool := do
  try
    IO.FS.writeBinFile path ⟨bytes.toArray⟩
    IO.setAccessRights path programRights
    return true
  catch _ => return false

def disk : FileSystem IO := ⟨readDisk, writeDisk⟩

end Command

end AgentCompiler

def main (args : List String) : IO UInt32 := do
  let report ← AgentCompiler.Command.run AgentCompiler.Command.disk args
  IO.print report.output
  IO.eprint report.errors
  return UInt32.ofNat report.status
