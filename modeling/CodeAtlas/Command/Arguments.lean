import CodeAtlas.Text.Cut
import CodeAtlas.Text.Digits

/-!
# Arguments of a command

The arguments of a level of the command line are options and operands, read from left to right.  An argument that is
not understood is a fault, and an option that asks for a text about the program ends the reading, unless there is a
fault before it.  After two dashes all arguments are operands.
-/

namespace CodeAtlas.Command

/-! ### Values -/

/-- A number below `2 ^ 32` with an optional sign. -/
def wordOf? (s : String) : Option Nat :=
  let (negative, digits) :=
    match s.toList with
    | '-' :: cs => (true, cs)
    | '+' :: cs => (false, cs)
    | cs => (false, cs)
  let n := Text.ofDigits digits
  if digits.isEmpty || !digits.all Text.isDigit || n ≥ Text.wordBound || negative && n != 0 then none else some n

inductive ValueKind where
  | text
  | path
  | word
  deriving DecidableEq, Repr

/-- Whether a text is a value of this kind; the empty text is no path. -/
def ValueKind.accepts (k : ValueKind) (s : String) : Bool :=
  match k with
  | .text => true
  | .path => !s.isEmpty
  | .word => (wordOf? s).isSome

/-! ### Options and operands -/

inductive OptionForm where
  /-- `--name` -/
  | flag
  /-- `--name value` or `--name=value` -/
  | valued (kind : ValueKind)
  /-- `--name` or `--name=value` -/
  | attached (kind : ValueKind)
  /-- Asks for the text about a command. -/
  | help
  /-- Asks for the version of the program. -/
  | version
  deriving DecidableEq, Repr

structure OptionSpec where
  name : String
  form : OptionForm
  about : String
  /-- The letter that stands for the option after one dash; no option with a value has one. -/
  short : Option Char := none
  /-- What the value is called in the text about a command. -/
  title : String := ""
  required : Bool := false
  deriving DecidableEq, Repr

def OptionSpec.accepts (o : OptionSpec) (value : String) : Bool :=
  match o.form with
  | .valued kind | .attached kind => kind.accepts value
  | _ => false

/-- What the operands of a level are. -/
inductive OperandForm where
  /-- The first one is a command, and all that follows it belongs to the command. -/
  | command
  /-- One path. -/
  | single
  /-- One path or more. -/
  | several
  deriving DecidableEq, Repr

/-- A level of the command line. -/
structure Level where
  options : List OptionSpec
  operands : OperandForm

/-! ### What is given -/

/-- The options of a level with their values, and its operands. -/
structure Given where
  options : List (OptionSpec × Option String)
  operands : List String
  deriving DecidableEq, Repr

namespace Given

def empty : Given :=
  ⟨[], []⟩

def addOption (g : Given) (o : OptionSpec) (value : Option String) : Given :=
  { g with options := g.options ++ [(o, value)] }

def addOperands (g : Given) (args : List String) : Given :=
  { g with operands := g.operands ++ args }

def has (g : Given) (name : String) : Bool :=
  g.options.any (·.1.name == name)

def value? (g : Given) (name : String) : Option String :=
  (g.options.find? (·.1.name == name)).bind (·.2)

/-- Whether no option is given twice and every value is of its kind. -/
def isSound (g : Given) : Bool :=
  decide (g.options.map (·.1.name)).Nodup && g.options.all fun (o, value) => value.all o.accepts

end Given

/-- Why the reading of a level ends early. -/
inductive Stop where
  | fault
  /-- Help is asked for, with all details or in short. -/
  | help (long : Bool)
  | version
  deriving DecidableEq, Repr

/-! ### Reading -/

/-- Whether an argument is written as an option; a single dash is an operand. -/
def isOption (arg : String) : Bool :=
  Text.beginsWith arg "-" && arg != "-"

namespace Level

/-- The option of this long name, and the value attached to it. -/
def option? (l : Level) (long : String) : Option (OptionSpec × Option String) :=
  let (name, value) :=
    match Text.splitOnce? (· == '=') long.toList with
    | some (name, value) => (String.ofList name, some (String.ofList value))
    | none => (long, none)
  (l.options.find? (·.name == name)).map fun o => (o, value)

/-- Whether what is given can stand: paths are not empty either. -/
def isSound (l : Level) (g : Given) : Bool :=
  g.isSound && (l.operands == .command || g.operands.all ValueKind.path.accepts)

/-- Passes on what is given so far, if it can stand. -/
def settle (l : Level) (g : Given) : Except Stop Given :=
  if l.isSound g then .ok g else .error .fault

/-- Ends the reading because of an option, unless there is a fault before it. -/
def stop (l : Level) (g : Given) (s : Stop) : Except Stop Given :=
  (l.settle g).bind fun _ => .error s

/-- Reads the letters after a single dash. -/
def readLetters (l : Level) (g : Given) : List Char → Except Stop Given
  | [] => l.settle g
  | c :: cs =>
    match l.options.find? (·.short == some c) with
    | none => .error .fault
    | some o =>
      match o.form with
      | .flag => l.readLetters (g.addOption o none) cs
      | .help => l.stop g (.help false)
      | .version => l.stop g .version
      | _ => .error .fault

/-- Reads the arguments of a level after the ones in `g`; `waiting` is the option that takes the next argument as its
value.  A value that is an argument of its own is looked at when the next option is read, or at the end. -/
def readFrom (l : Level) (waiting : Option OptionSpec) (g : Given) : List String → Except Stop Given
  | [] => if waiting.isNone then .ok g else .error .fault
  | arg :: rest =>
    match waiting with
    | some o => if isOption arg then .error .fault else l.readFrom none (g.addOption o (some arg)) rest
    | none =>
      if arg == "--" then if l.operands = .command then .error .fault else .ok (g.addOperands rest)
      else if isOption arg then
        match Text.afterStart? "--" arg with
        | none =>
          match l.readLetters g arg.toList.tail with
          | .error s => .error s
          | .ok g => l.readFrom none g rest
        | some long =>
          match l.option? long with
          | none => .error .fault
          | some (o, value) =>
            match o.form, value with
            | .valued _, none => if l.isSound g then l.readFrom (some o) g rest else .error .fault
            | .help, none => l.stop g (.help true)
            | .version, none => l.stop g .version
            | .flag, some _ | .help, some _ | .version, some _ => .error .fault
            | _, _ =>
              if l.isSound (g.addOption o value) then l.readFrom none (g.addOption o value) rest else .error .fault
      else
        match l.operands with
        | .command => .ok (g.addOperands (arg :: rest))
        | .single => if g.operands.isEmpty then l.readFrom none (g.addOperands [arg]) rest else .error .fault
        | .several => l.readFrom none (g.addOperands [arg]) rest

def read (l : Level) (args : List String) : Except Stop Given :=
  l.readFrom none .empty args

end Level

end CodeAtlas.Command
