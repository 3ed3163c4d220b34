import AgentCompiler.Bytes

/-!
Files as the command sees them: what can go wrong with reading one, and the two operations that the
command needs. A `Directory` is a value that provides both, without a disk: it is the place where
the command runs, on a system of which only the usual folders are known.
-/

namespace AgentCompiler

namespace Command

inductive FileFault
  | missing
  | isFolder
  | notFolder
  | denied
  /-- A name is longer than 255 bytes, or a path than 4095. -/
  | tooLong
  /-- The path has a zero character, which ends paths. -/
  | broken
  | notText
  | other (message : String)
  deriving DecidableEq

def FileFault.message : FileFault → String
  | missing => "No such file or directory (os error 2)"
  | isFolder => "Is a directory (os error 21)"
  | notFolder => "Not a directory (os error 20)"
  | denied => "Permission denied (os error 13)"
  | tooLong => "File name too long (os error 36)"
  | broken => "file name contained an unexpected NUL byte"
  | notText => "stream did not contain valid UTF-8"
  | other message => message

structure FileSystem (m : Type → Type) where
  readText : String → m (Except FileFault String)
  /-- Stores an executable file; false if that fails. -/
  writeProgram : String → Bytes → m Bool

abbrev Path := List String

structure Directory where
  files : List (Path × Bytes)
  folders : List Path

namespace Directory

def file? (d : Directory) (path : Path) : Option Bytes := d.files.lookup path

def isFolder (d : Directory) (path : Path) : Bool :=
  path.isEmpty || d.folders.any (path.isPrefixOf ·) ||
    d.files.any fun (file, _) => path.isPrefixOf file && path != file

def system : Directory where
  files := [(["dev", "null"], [])]
  folders := [["bin"], ["boot"], ["dev"], ["etc"], ["home"], ["lib"], ["media"], ["mnt"], ["opt"],
    ["proc"], ["run"], ["sbin"], ["srv"], ["sys"], ["tmp"], ["usr"], ["var"]]

inductive Place
  | here (path : Path)
  | outside (path : Path)
  deriving DecidableEq

namespace Place

/-- The folder around a place. Around the directory is the system, and nothing is around that. -/
def parent : Place → Place
  | here [] => outside []
  | here path => here path.dropLast
  | outside path => outside path.dropLast

def child (name : String) : Place → Place
  | here path => here (path ++ [name])
  | outside path => outside (path ++ [name])

end Place

def fileAt? (d : Directory) : Place → Option Bytes
  | .here path => d.file? path
  | .outside path => system.file? path

def isFolderAt (d : Directory) : Place → Bool
  | .here path => d.isFolder path
  | .outside path => system.isFolder path

def maxNameLength : Nat := 255

def maxPathLength : Nat := 4095

def follow (d : Directory) (reached : Place) : List String → Except FileFault Place
  | [] => pure reached
  | part :: rest =>
      if d.isFolderAt reached then
        if part == "" || part == "." then follow d reached rest
        else if part == ".." then follow d reached.parent rest
        else if part.utf8ByteSize > maxNameLength then throw .tooLong
        else follow d (reached.child part) rest
      else if (d.fileAt? reached).isSome then throw .notFolder
      else throw .missing

def parts (path : String) : List String := path.splitOn "/"

def resolve (d : Directory) (path : String) : Except FileFault Place :=
  if path.contains '\x00' then throw .broken
  else if path.utf8ByteSize > maxPathLength then throw .tooLong
  else if path.isEmpty then throw .missing
  else d.follow (if path.startsWith "/" then .outside [] else .here []) (parts path)

def readText (d : Directory) (path : String) : Except FileFault String := do
  let place ← d.resolve path
  match d.fileAt? place with
  | some bytes =>
      match String.fromUTF8? ⟨bytes.toArray⟩ with
      | some text => pure text
      | none => throw .notText
  | none => throw (if d.isFolderAt place then .isFolder else .missing)

def write? (d : Directory) (path : String) (bytes : Bytes) : Option Directory :=
  match d.resolve path with
  | .error _ => none
  | .ok place =>
      if d.isFolderAt place then none
      else
        match place with
        | .here path => some { d with files := d.files.filter (·.1 != path) ++ [(path, bytes)] }
        | .outside _ => some d

def fileSystem : FileSystem (StateM Directory) where
  readText path := do return (← get).readText path
  writeProgram path bytes := do
    match (← get).write? path bytes with
    | some next => do
        set next
        return true
    | none => return false

end Directory

end Command

end AgentCompiler
