import CodeAtlas.Command.Run

/-!
# The program

Reads the files that the arguments name, does what they ask for, and prints the answer.  A file that cannot be saved
spoils no answer.
-/

namespace CodeAtlas.Command

/-- The text of a file, if it can be read. -/
def readFile? (path : String) : IO (Option String) :=
  try some <$> IO.FS.readFile path catch _ => pure none

/-- Saves a file, or says why this is not possible. -/
def saveFile (path text : String) : IO Unit :=
  try IO.FS.writeFile path text catch e => IO.eprintln ("Failed to save statistics: " ++ toString e)

def fail (f : Failure) : IO UInt32 := do
  IO.eprintln ("Error: " ++ f.message)
  return f.exitCode.toUInt32

/-- Runs the program: exits with 0 if there is an answer, with 2 if the arguments are wrong, and with 1 otherwise. -/
def runProgram (args : List String) : IO UInt32 := do
  match Ask.ofArguments? args with
  | none => fail .usage
  | some ask =>
    let texts ← ask.files.mapM fun path => return (path, ← readFile? path)
    match ask.run fun path => (texts.lookup path).join with
    | .error f => fail f
    | .ok reply =>
      IO.print reply.output
      if let some (path, text) := reply.saved then saveFile path text
      return 0

end CodeAtlas.Command

def main (args : List String) : IO UInt32 :=
  CodeAtlas.Command.runProgram args
