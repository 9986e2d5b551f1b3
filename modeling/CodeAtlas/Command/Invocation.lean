import CodeAtlas.Command.Help
import CodeAtlas.Source.Position

/-!
# Invocations

An invocation is a command with its arguments.  General options stand before the command or among its arguments, and
the settings named there win.  Options about logging are accepted, and change no answer.  Instead of a run, the
arguments may ask for a text about the program.
-/

namespace CodeAtlas.Command

/-- The name of a document and a position in it. -/
structure Place where
  uri : String
  position : Position
  deriving DecidableEq, Repr

/-- What to do with the documents in the files `inputs`. -/
inductive Request where
  /-- Counts symbols and references, and saves the totals to a file. -/
  | analyze (inputs : List String) (totals : Option String)
  /-- Searches for symbols. -/
  | symbols (inputs : List String) (query : String) (fuzzy : Bool)
  /-- The declarations of what is at a position. -/
  | definition (inputs : List String) (place : Place)
  /-- The references to what is at a position. -/
  | references (inputs : List String) (place : Place)
  /-- Writes the symbol table of one document. -/
  | dump (input : String)
  deriving DecidableEq, Repr

def Request.inputs : Request → List String
  | .analyze inputs _ | .symbols inputs _ _ | .definition inputs _ | .references inputs _ => inputs
  | .dump input => [input]

structure Invocation where
  /-- The file that holds the settings. -/
  settings : Option String
  request : Request
  deriving DecidableEq, Repr

/-- The files that an invocation reads. -/
def Invocation.files (i : Invocation) : List String :=
  i.settings.toList ++ i.request.inputs

/-- What the arguments of the program ask for. -/
inductive Ask where
  | invocation (i : Invocation)
  /-- A text about the program. -/
  | text (s : String)
  deriving DecidableEq, Repr

/-! ### Requests -/

def place? (g : Given) : Option Place := do
  let uri ← g.value? "uri"
  let line ← (g.value? "line").bind wordOf?
  let character ← (g.value? "character").bind wordOf?
  some ⟨uri, line, character⟩

def request? (name : String) (g : Given) : Option Request :=
  match g.operands with
  | [] => none
  | input :: others =>
    let inputs := input :: others
    match name with
    | "analyze" => some (.analyze inputs (g.value? "stats"))
    | "symbols" => (g.value? "query").map fun query => .symbols inputs query (g.has "fuzzy")
    | "definition" => (place? g).map (.definition inputs)
    | "references" => (place? g).map (.references inputs)
    | "dump" => if others.isEmpty then some (.dump input) else none
    | _ => none

/-- Whether logs go to one place only. -/
def logsOnce (g : Given) : Bool :=
  !(g.has "json-logs" && g.has "log-file")

/-- The invocation of a command with what is given in front of it and after it. -/
def Invocation.ofGiven? (c : CommandSpec) (outer inner : Given) : Option Invocation :=
  if outer.isSound && logsOnce outer && c.level.isSound inner && logsOnce inner then
    (request? c.name inner).map fun r => ⟨(inner.value? "config").or (outer.value? "config"), r⟩
  else none

namespace Ask

/-- Reads the arguments of the program.  Help on a command is given before the last option in front of it is looked
at. -/
def ofArguments? (args : List String) : Option Ask :=
  match outerLevel.read args with
  | .error .fault => none
  | .error (.help long) => some (.text (programHelp long))
  | .error .version => some (.text versionText)
  | .ok outer =>
    match outer.operands with
    | [] => none
    | name :: rest =>
      if name == helpCommand.1 then (helpOn? rest).map .text
      else
        (command? name).bind fun c =>
          match c.level.read rest with
          | .error .fault => none
          | .error _ => some (.text c.help)
          | .ok inner => (Invocation.ofGiven? c outer inner).map .invocation

/-- The files that are read. -/
def files : Ask → List String
  | .invocation i => i.files
  | .text _ => []

end Ask

end CodeAtlas.Command
