import AgentCompiler.Command.Arguments

/-! Help texts. -/

namespace AgentCompiler

namespace Command

/-- An option in a help text: short name, long name with its value, meaning. -/
structure HelpRow where
  short : String
  long : String
  meaning : String

def outputRow : HelpRow :=
  ⟨"-o, ", "--output <OUTPUT>", "Output file path (default: input file without its extension)"⟩

def verboseRow : HelpRow :=
  ⟨"-v, ", "--verbose", "Log pipeline stages to stderr (RUST_LOG takes precedence)"⟩

def configRow : HelpRow :=
  ⟨"    ", "--config <CONFIG>", "Base settings (JSON); flags below override it"⟩

def settingRows : List HelpRow :=
  [⟨"    ", "--max-cycles <MAX_CYCLES>", "Stop after this many tidal cycles (0 = unbounded)"⟩,
    ⟨"    ", "--heap-size <HEAP_SIZE>", "Heap size in bytes"⟩,
    ⟨"    ", "--queue-capacity <QUEUE_CAPACITY>", "Capacity of each agent's message queue"⟩,
    ⟨"    ", "--debug-reports", "Compile `report` statements into stderr writes"⟩,
    ⟨"    ", "--emit-debug-symbols", "Request debug symbols (accepted, not produced)"⟩,
    ⟨"    ", "--load-address <LOAD_ADDRESS>",
      "Load address of the image, decimal or 0x-prefixed hex"⟩,
    ⟨"-h, ", "--help", "Print help"⟩]

def columns (rows : List HelpRow) : List String :=
  let width := rows.foldl (fun widest row => max widest row.long.length) 0
  rows.map fun row =>
    let gap := String.ofList (List.replicate (width - row.long.length + 2) ' ')
    "  " ++ row.short ++ row.long ++ gap ++ row.meaning

def stacked (rows : List HelpRow) : List String :=
  rows.flatMap fun row => ["  " ++ row.short ++ row.long, "          " ++ row.meaning]

namespace Action

def summary : Action → String
  | build => "Compile a program model to a Linux x86-64 executable"
  | layout => "Print the layout tables: schemas, agent state, routes and handlers"
  | listing => "Print the instruction listing before encoding"

def optionLines : Action → List String
  | build => stacked ([outputRow, verboseRow, configRow] ++ settingRows)
  | _ => columns ([configRow, verboseRow] ++ settingRows)

def helpLines (a : Action) : List String :=
  [a.summary, "", s!"Usage: tidalc {a.name} [OPTIONS] <FILE>", "", "Arguments:",
    "  <FILE>  Input program model (JSON)", "", "Options:"] ++ a.optionLines

end Action

def generalHelpLines : List String :=
  ["Tidal Compiler - agent programs to native x86-64", "", "Usage: tidalc [OPTIONS] <COMMAND>", "",
    "Commands:",
    "  build   " ++ Action.build.summary,
    "  layout  " ++ Action.layout.summary,
    "  asm     " ++ Action.listing.summary,
    "  help    Print this message or the help of the given subcommand(s)", "", "Options:"] ++
    columns [verboseRow, ⟨"-h, ", "--help", "Print help"⟩, ⟨"-V, ", "--version", "Print version"⟩]

def helpOnHelpLines : List String :=
  ["Print this message or the help of the given subcommand(s)", "",
    "Usage: tidalc help [COMMAND]...", "", "Arguments:",
    "  [COMMAND]...  Print help for the subcommand(s)"]

def linesText (lines : List String) : String := String.join (lines.map (· ++ "\n"))

def helpText : Option Action → String
  | none => linesText generalHelpLines
  | some action => linesText action.helpLines

def versionText : String := "tidalc 0.1.0\n"

end Command

end AgentCompiler
