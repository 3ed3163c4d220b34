import AgentCompiler.Settings.Basic

/-!
The command line.

A command is the name of an action, the file of a program and options, in any order. Options are
written long (`--name`, `--name value`, `--name=value`) or short (`-n`, `-n value`, `-nvalue`,
`-n=value`), and short ones without values can be joined. A value that is written apart must not
look like an option. After `--` there are no more options. Every option is given at most once.

Arguments are read from left to right, so the first fault or request for help decides.
-/

namespace AgentCompiler

namespace Command

inductive Action
  | build | layout | listing
  deriving DecidableEq

namespace Action

def all : List Action := [build, layout, listing]

def name : Action → String
  | build => "build"
  | layout => "layout"
  | listing => "asm"

end Action

/-- Why a command line makes no sense. -/
inductive UsageFault
  | unknownArgument (text : String)
  | unexpectedValue (option : String)
  | missingValue (option : String)
  | repeatedOption (option : String)
  | invalidValue (option value : String)
  | unexpectedFile (text : String)
  | unknownAction (name : String)
  | missingAction
  | missingFile
  deriving DecidableEq

def UsageFault.message : UsageFault → String
  | unknownArgument text => s!"unexpected argument '{text}'"
  | unexpectedValue option => s!"'{option}' takes no value"
  | missingValue option => s!"'{option}' needs a value"
  | repeatedOption option => s!"'{option}' is given twice"
  | invalidValue option value => s!"invalid value '{value}' for '{option}'"
  | unexpectedFile text => s!"unexpected file '{text}'"
  | unknownAction name => s!"unknown command '{name}'"
  | missingAction => "no command is given"
  | missingFile => "no file is given"

section

def digitsValue? (base : Nat) (cs : List Char) : Option Nat :=
  let digit? (c : Char) : Option Nat :=
    let value :=
      if '0' ≤ c && c ≤ '9' then c.toNat - '0'.toNat
      else if 'a' ≤ c && c ≤ 'z' then c.toNat - 'a'.toNat + 10
      else if 'A' ≤ c && c ≤ 'Z' then c.toNat - 'A'.toNat + 10
      else base
    if value < base then some value else none
  if cs.isEmpty then none
  else cs.foldlM (fun value c => (digit? c).map (base * value + ·)) 0

/-- A number to a base; a plus sign may stand in front. -/
def unsigned? (base : Nat) (cs : List Char) : Option Nat :=
  match cs with
  | '+' :: rest => digitsValue? base rest
  | _ => digitsValue? base cs

def word? (base : Nat) (cs : List Char) : Option UInt64 :=
  match unsigned? base cs with
  | some n => if n < UInt64.size then some (UInt64.ofNat n) else none
  | none => none

def parseWord (text : String) : Option UInt64 := word? 10 text.toList

/-- A number of four bytes; zero may have a minus sign. -/
def parseHalfWord (text : String) : Option UInt32 :=
  let value? :=
    match text.toList with
    | '-' :: rest => (digitsValue? 10 rest).filter (· == 0)
    | cs => unsigned? 10 cs
  match value? with
  | some n => if n < UInt32.size then some (UInt32.ofNat n) else none
  | none => none

def parseAddress (text : String) : Option UInt64 :=
  match text.toList with
  | '0' :: 'x' :: rest | '0' :: 'X' :: rest => word? 16 rest
  | cs => word? 10 cs

def parsePath (text : String) : Option String := if text.isEmpty then none else some text

end

/-- Options, beside those for help and version. -/
inductive Flag
  | output | config | maxCycles | heapSize | queueCapacity | loadAddress
  | debugReports | emitDebugSymbols | verbose
  deriving DecidableEq

namespace Flag

def all : List Flag :=
  [output, config, maxCycles, heapSize, queueCapacity, loadAddress, debugReports,
    emitDebugSymbols, verbose]

def long : Flag → String
  | output => "output"
  | config => "config"
  | maxCycles => "max-cycles"
  | heapSize => "heap-size"
  | queueCapacity => "queue-capacity"
  | loadAddress => "load-address"
  | debugReports => "debug-reports"
  | emitDebugSymbols => "emit-debug-symbols"
  | verbose => "verbose"

def short? : Flag → Option Char
  | output => some 'o'
  | verbose => some 'v'
  | _ => none

def takesValue : Flag → Bool
  | debugReports | emitDebugSymbols | verbose => false
  | _ => true

def text (f : Flag) : String := "--" ++ f.long

def isFor (action : Action) : Flag → Bool
  | output => action = .build
  | _ => true

end Flag

structure Invocation where
  action : Action
  file : Option String := none
  output : Option String := none
  config : Option String := none
  maxCycles : Option UInt64 := none
  heapSize : Option UInt64 := none
  queueCapacity : Option UInt32 := none
  loadAddress : Option UInt64 := none
  debugReports : Bool := false
  emitDebugSymbols : Bool := false
  verbose : Bool := false

namespace Invocation

def has (i : Invocation) : Flag → Bool
  | .output => i.output.isSome
  | .config => i.config.isSome
  | .maxCycles => i.maxCycles.isSome
  | .heapSize => i.heapSize.isSome
  | .queueCapacity => i.queueCapacity.isSome
  | .loadAddress => i.loadAddress.isSome
  | .debugReports => i.debugReports
  | .emitDebugSymbols => i.emitDebugSymbols
  | .verbose => i.verbose

def assign? (i : Invocation) (f : Flag) (value : String) : Option Invocation :=
  match f with
  | .output => do some { i with output := some (← parsePath value) }
  | .config => do some { i with config := some (← parsePath value) }
  | .maxCycles => do some { i with maxCycles := some (← parseWord value) }
  | .heapSize => do some { i with heapSize := some (← parseWord value) }
  | .queueCapacity => do some { i with queueCapacity := some (← parseHalfWord value) }
  | .loadAddress => do some { i with loadAddress := some (← parseAddress value) }
  | .debugReports => some { i with debugReports := true }
  | .emitDebugSymbols => some { i with emitDebugSymbols := true }
  | .verbose => some { i with verbose := true }

def add (i : Invocation) (f : Flag) (value : String) : Except UsageFault Invocation :=
  if i.has f then throw (.repeatedOption f.text)
  else
    match i.assign? f value with
    | some next => pure next
    | none => throw (.invalidValue f.text value)

def addFile (i : Invocation) (text : String) : Except UsageFault Invocation :=
  if i.file.isSome then throw (.unexpectedFile text)
  else
    match parsePath text with
    | some path => pure { i with file := some path }
    | none => throw (.invalidValue "FILE" text)

end Invocation

inductive Step
  | done (i : Invocation)
  | pending (i : Invocation) (f : Flag)
  | help

def isFreeValue (text : String) : Bool := text == "-" || !text.startsWith "-"

def splitAtEquals (cs : List Char) : String × Option String :=
  match cs.dropWhile (· != '=') with
  | [] => (String.ofList cs, none)
  | _ :: value => (String.ofList (cs.takeWhile (· != '=')), some (String.ofList value))

def longOption (i : Invocation) (cs : List Char) : Except UsageFault Step :=
  let (name, value) := splitAtEquals cs
  if name == "help" then
    if value.isSome then throw (.unexpectedValue "--help") else pure .help
  else
    match Flag.all.find? (fun f => f.isFor i.action && f.long == name) with
    | none => throw (.unknownArgument ("--" ++ name))
    | some f =>
        match value with
        | some value =>
            if f.takesValue then .done <$> i.add f value else throw (.unexpectedValue f.text)
        | none => if f.takesValue then pure (.pending i f) else .done <$> i.add f ""

def shortOptions (i : Invocation) : List Char → Except UsageFault Step
  | [] => pure (.done i)
  | c :: rest =>
      if c = 'h' then pure .help
      else
        match Flag.all.find? (fun f => f.isFor i.action && f.short? == some c) with
        | none => throw (.unknownArgument (String.ofList ['-', c]))
        | some f =>
            if f.takesValue then
              match rest with
              | [] => pure (.pending i f)
              | '=' :: value => .done <$> i.add f (String.ofList value)
              | value => .done <$> i.add f (String.ofList value)
            else
              match i.add f "" with
              | .ok next => shortOptions next rest
              | .error fault => throw fault

def readArgument (i : Invocation) (text : String) : Except UsageFault Step :=
  match text.toList with
  | '-' :: '-' :: cs => longOption i cs
  | '-' :: c :: cs => shortOptions i (c :: cs)
  | _ => .done <$> i.addFile text

inductive Request
  | run (i : Invocation) (file : String)
  | version
  | help (topic : Option Action)
  | helpOnHelp

def Invocation.request (i : Invocation) : Except UsageFault Request :=
  match i.file with
  | some file => pure (.run i file)
  | none => throw .missingFile

def readArguments (i : Invocation) : List String → Except UsageFault Request
  | [] => i.request
  | "--" :: rest => rest.foldlM Invocation.addFile i >>= Invocation.request
  | text :: rest => do
      match ← readArgument i text with
      | .help => pure (.help (some i.action))
      | .done next => readArguments next rest
      | .pending next f =>
          match rest with
          | [] => throw (.missingValue f.text)
          | value :: rest =>
              if isFreeValue value then do
                let next ← next.add f value
                readArguments next rest
              else throw (.missingValue f.text)

def readHelp : List String → Except UsageFault Request
  | [] => pure (.help none)
  | ["help"] => pure .helpOnHelp
  | [name] =>
      match Action.all.find? (·.name == name) with
      | some action => pure (.help (some action))
      | none => throw (.unknownAction name)
  | name :: _ => throw (.unknownAction name)

def readFrontOptions (verbose : Bool) : List Char → Except UsageFault (Bool ⊕ Request)
  | [] => pure (.inl verbose)
  | 'h' :: _ => pure (.inr (.help none))
  | 'V' :: _ => pure (.inr .version)
  | 'v' :: rest =>
      if verbose then throw (.repeatedOption "--verbose") else readFrontOptions true rest
  | c :: _ => throw (.unknownArgument (String.ofList ['-', c]))

def readFront (verbose : Bool) : List String → Except UsageFault Request
  | [] | "--" :: _ => throw .missingAction
  | "--help" :: _ => pure (.help none)
  | "--version" :: _ => pure .version
  | "--verbose" :: rest =>
      if verbose then throw (.repeatedOption "--verbose") else readFront true rest
  | "help" :: rest => readHelp rest
  | text :: rest =>
      match text.toList with
      | '-' :: '-' :: _ => throw (.unknownArgument text)
      | '-' :: c :: cs => do
          match ← readFrontOptions verbose (c :: cs) with
          | .inl verbose => readFront verbose rest
          | .inr request => pure request
      | _ =>
          match Action.all.find? (·.name == text) with
          | some action => readArguments { action } rest
          | none => throw (.unknownAction text)

def read (args : List String) : Except UsageFault Request := readFront false args

end Command

end AgentCompiler
