import CodeAtlas.Command.Arguments

/-!
# Commands of the program

The commands, with their options and operands, and what is said about each of them.
-/

namespace CodeAtlas.Command

/-- The operands of a command. -/
structure OperandSpec where
  title : String
  about : String
  several : Bool
  deriving DecidableEq, Repr

structure CommandSpec where
  name : String
  about : String
  options : List OptionSpec
  operand : OperandSpec
  deriving DecidableEq, Repr

def programName : String := "phpsem"

def versionText : String := programName ++ " 0.1.0\n"

/-! ### Options -/

/-- The options that every command takes. -/
def generalOptions : List OptionSpec :=
  [ { name := "verbose", form := .flag, about := "Enable verbose logging", short := some 'v' },
    { name := "json-logs", form := .flag, about := "Emit logs as JSON lines on stderr" },
    { name := "log-file", form := .valued .path, about := "Also write logs to a rolling file", title := "FILE" },
    { name := "config", form := .valued .path, about := "Analyzer configuration (TOML)", title := "FILE" } ]

def helpOption (about : String) : OptionSpec :=
  { name := "help", form := .help, about := about, short := some 'h' }

def versionOption : OptionSpec :=
  { name := "version", form := .version, about := "Print version", short := some 'V' }

/-- The options that name a position in a document. -/
def placeOptions : List OptionSpec :=
  [ { name := "uri", form := .valued .text, about := "Document uri as it appears in the input", title := "URI",
      required := true },
    { name := "line", form := .valued .word, about := "Zero-based line", title := "LINE", required := true },
    { name := "character", form := .valued .word, about := "Zero-based UTF-16 character offset", title := "CHARACTER",
      required := true } ]

/-! ### Commands -/

/-- Files that hold documents. -/
def trees (about : String) : OperandSpec :=
  ⟨"TREES", about, true⟩

def commands : List CommandSpec :=
  [ { name := "analyze"
      about := "Analyze documents and print per-document symbol and reference counts"
      options :=
        [ { name := "stats", form := .attached .path, title := "FILE",
            about := "Output statistics. Optionally specify a file path to save to" } ]
      operand := trees "JSON files holding one parsed document or an array of them" },
    { name := "symbols"
      about := "Search the workspace symbol index"
      options :=
        [ { name := "query", form := .valued .text, about := "Name or name prefix to look for", title := "QUERY",
            required := true },
          { name := "fuzzy", form := .flag, about := "Also match on name trigrams" } ]
      operand := trees "" },
    { name := "definition"
      about := "Print the declarations referred to at a position"
      options := placeOptions
      operand := trees "" },
    { name := "references"
      about := "Print every reference to what is referred to at a position"
      options := placeOptions
      operand := trees "" },
    { name := "dump"
      about := "Print the persisted symbol table of a document"
      options := []
      operand := ⟨"TREE", "", false⟩ } ]

def command? (name : String) : Option CommandSpec :=
  commands.find? (·.name == name)

/-! ### Levels -/

/-- The level of the arguments in front of the command. -/
def outerLevel : Level :=
  ⟨generalOptions ++ [helpOption "", versionOption], .command⟩

/-- The level of the arguments of a command. -/
def CommandSpec.level (c : CommandSpec) : Level :=
  ⟨c.options ++ generalOptions ++ [helpOption ""], if c.operand.several then .several else .single⟩

end CodeAtlas.Command
