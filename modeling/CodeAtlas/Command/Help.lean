import CodeAtlas.Command.Description

/-!
# Help texts

The text about a command says what it does and how it is called, and lists what goes with it in two columns.  The text
about the program comes in short and with all details, where every option has lines of its own.
-/

namespace CodeAtlas.Command

/-! ### Labels -/

/-- An option with its value, as it is written. -/
def OptionSpec.label (o : OptionSpec) : String :=
  match o.form with
  | .valued _ => "--" ++ o.name ++ " <" ++ o.title ++ ">"
  | .attached _ => "--" ++ o.name ++ "[=<" ++ o.title ++ ">]"
  | _ => "--" ++ o.name

/-- An option with its letter, or as much room as a letter takes. -/
def OptionSpec.heading (o : OptionSpec) : String :=
  match o.short with
  | some c => String.ofList ['-', c, ',', ' '] ++ o.label
  | none => "    " ++ o.label

def OperandSpec.label (o : OperandSpec) : String :=
  "<" ++ o.title ++ ">" ++ if o.several then "..." else ""

/-! ### Layout -/

def spaces (n : Nat) : String :=
  String.ofList (List.replicate n ' ')

/-- Rows of two columns, with two blanks in front of each. -/
def columns (rows : List (String × String)) : List String :=
  let width := rows.foldl (fun w row => max w row.1.length) 0
  rows.map fun (left, right) => "  " ++ left ++ spaces (width - left.length + 2) ++ right

/-- Rows with the second part on a line of its own, and an empty line between them. -/
def stacked (rows : List (String × String)) : List String :=
  ["\n\n".intercalate (rows.map fun (left, right) => "  " ++ left ++ "\n" ++ spaces 10 ++ right)]

/-- A titled list of lines. -/
def titled (title : String) (lines : List String) : String :=
  title ++ ":\n" ++ "\n".intercalate lines

/-- A help text: what a command does, how it is called, and what goes with it. -/
def helpText (about usage : String) (parts : List String) : String :=
  "\n\n".intercalate (about :: ("Usage: " ++ programName ++ " " ++ usage) :: parts) ++ "\n"

/-! ### Texts -/

def OptionSpec.row (o : OptionSpec) : String × String :=
  (o.heading, o.about)

/-- How a command is called: required options are written out. -/
def CommandSpec.usage (c : CommandSpec) : String :=
  let required := (c.options.filter (·.required)).map (·.label)
  " ".intercalate ([c.name, "[OPTIONS]"] ++ required ++ [c.operand.label])

def CommandSpec.help (c : CommandSpec) : String :=
  helpText c.about c.usage
    [titled "Arguments" (columns [(c.operand.label, c.operand.about)]),
      titled "Options" (columns ((c.options ++ generalOptions ++ [helpOption "Print help"]).map OptionSpec.row))]

/-- The command that prints help texts. -/
def helpCommand : String × String :=
  ("help", "Print this message or the help of the given subcommand(s)")

/-- The text about the command that prints help texts. -/
def helpOnHelp : String :=
  helpText helpCommand.2 (helpCommand.1 ++ " [COMMAND]...")
    [titled "Arguments" (columns [("[COMMAND]...", "Print help for the subcommand(s)")])]

/-- The text about the program. -/
def programHelp (long : Bool) : String :=
  let about :=
    if long then
      "Builds symbol tables and reference tables from parsed PHP syntax trees and answers lookups against them."
    else "PHP semantic analyzer"
  let helpAbout := if long then "Print help (see a summary with '-h')" else "Print help (see more with '--help')"
  let options := (generalOptions ++ [helpOption helpAbout, versionOption]).map OptionSpec.row
  helpText about "[OPTIONS] <COMMAND>"
    [titled "Commands" (columns (commands.map (fun c => (c.name, c.about)) ++ [helpCommand])),
      titled "Options" (if long then stacked options else columns options)]

/-- The help text on a topic: a command, or the program if none is named. -/
def helpOn? : List String → Option String
  | [] => some (programHelp true)
  | [name] => if name == helpCommand.1 then some helpOnHelp else (command? name).map CommandSpec.help
  | _ => none

end CodeAtlas.Command
