import AgentCompiler.Command.Files
import AgentCompiler.Command.Help
import AgentCompiler.Compile
import AgentCompiler.Program.Document
import AgentCompiler.Settings.Document

/-!
What the command does. Settings come first: those of the settings file, then those of the options.
Then the program is read and worked on. The first failure ends the command with status one, and a
command line that makes no sense with status two.
-/

namespace AgentCompiler

namespace Command

/-- What a command leaves behind, beside files. -/
structure Report where
  status : Nat
  output : String := ""
  errors : String := ""
  deriving DecidableEq

namespace Report

def success (output : String) : Report := { status := 0, output }

def usage (fault : UsageFault) : Report where
  status := 2
  errors := linesText [s!"error: {fault.message}", "", "For more information, try '--help'."]

def unreadable (path : String) (fault : FileFault) : Report where
  status := 1
  errors := linesText [s!"error: could not read '{path}': {fault.message}"]

def failure (d : Diagnostic) (path : String) : Report where
  status := 1
  errors := linesText [s!"error[{d.code}]: {d.message}", s!"  --> {path}",
    s!"  note: failed during {d.stage}"]

end Report

abbrev Attempt (m : Type → Type) := ExceptT Report m

section

variable {m : Type → Type} [Monad m]

def readText (fs : FileSystem m) (path : String) : Attempt m String := do
  match ← fs.readText path with
  | .ok text => pure text
  | .error fault => throw (.unreadable path fault)

/-- Goes on unless something is wrong with a file. -/
def about {α : Type} (path : String) (o : Outcome α) : Attempt m α :=
  match o with
  | .ok a => pure a
  | .error d => throw (.failure d path)

def Invocation.apply (i : Invocation) (s : Settings) : Settings :=
  { s with
    maxCycles := i.maxCycles.getD s.maxCycles
    heapSize := i.heapSize.getD s.heapSize
    queueCapacity := i.queueCapacity.getD s.queueCapacity
    loadAddress := i.loadAddress.getD s.loadAddress
    debugReports := s.debugReports || i.debugReports
    emitDebugSymbols := s.emitDebugSymbols || i.emitDebugSymbols }

def readSettings (fs : FileSystem m) (i : Invocation) : Attempt m Settings :=
  match i.config with
  | none => pure (i.apply {})
  | some path => do
      let text ← readText fs path
      let settings ← about path (Settings.read text)
      pure (i.apply settings)

def readProgram (fs : FileSystem m) (path : String) : Attempt m Program := do
  let text ← readText fs path
  about path (Program.read text)

def withoutExtension (path : String) : String :=
  let reversed := path.toList.reverse
  let name := reversed.takeWhile (· != '/')
  let folder := reversed.drop name.length
  let stem := (name.dropWhile (· != '.')).drop 1
  if stem.isEmpty || name == ['.', '.'] then path
  else String.ofList (stem ++ folder).reverse

/-- Where the image goes: the option decides, then the settings file, then the name of the
program's file. -/
def outputPath (i : Invocation) (settings : Settings) (file : String) : String :=
  match i.output with
  | some path => path
  | none => if i.config.isSome then settings.outputPath else withoutExtension file

def build (fs : FileSystem m) (i : Invocation) (settings : Settings) (program : Program)
    (file : String) : Attempt m Report := do
  let path := outputPath i settings file
  let image ← about file (compile program settings)
  if ← fs.writeProgram path image.bytes then
    pure (.success s!"Compiled {file} -> {path} ({image.bytes.length} bytes)\n")
  else throw (.failure .system file)

def perform (fs : FileSystem m) (i : Invocation) (file : String) : Attempt m Report := do
  let settings ← readSettings fs i
  let program ← readProgram fs file
  match i.action with
  | .build => build fs i settings program file
  | .layout => do
      let layout ← about file (describeLayout program settings)
      pure (.success layout.render)
  | .listing => do
      let text ← about file (assemblyListing program settings)
      pure (.success text)

def run (fs : FileSystem m) (args : List String) : m Report := do
  match read args with
  | .error fault => pure (.usage fault)
  | .ok .version => pure (.success versionText)
  | .ok (.help topic) => pure (.success (helpText topic))
  | .ok .helpOnHelp => pure (.success (linesText helpOnHelpLines))
  | .ok (.run i file) => do
      match ← (perform fs i file).run with
      | .ok report | .error report => pure report

end

end Command

end AgentCompiler
