import CodeAtlas.Text.Digits
import CodeAtlas.Json.Value

/-!
# Writing JSON

`compact` writes a value without blanks, `pretty` with one item or field on each line and two blanks for each level.
Only quotes, backslashes and control characters are escaped.
-/

namespace CodeAtlas.Json

open Text

/-- How a character is written inside a string. -/
def escapeChar (c : Char) : List Char :=
  match c with
  | '"' => ['\\', '"']
  | '\\' => ['\\', '\\']
  | '\x08' => ['\\', 'b']
  | '\x0c' => ['\\', 'f']
  | '\n' => ['\\', 'n']
  | '\r' => ['\\', 'r']
  | '\t' => ['\\', 't']
  | c => if c.toNat < 32 then ['\\', 'u', '0', '0', hexDigit (c.toNat / 16), hexDigit (c.toNat % 16)] else [c]

/-- A string in quotes; one that denotes no text is written as a lone half of a surrogate pair. -/
def quote : Option String → String
  | some s => String.ofList ('"' :: s.toList.flatMap escapeChar ++ ['"'])
  | none => "\"\\ud800\""

def Number.text : Number → String
  | .nat n => toString n
  | .decimal negative digits exponent =>
    if negative ∧ exponent = 0 then "-" ++ toString digits
    else (if negative then "-" else "") ++ toString digits ++ "e" ++ toString exponent

namespace Value

mutual

/-- The value without any blanks. -/
def compact : Value → String
  | .null => "null"
  | .bool b => if b then "true" else "false"
  | .number n => n.text
  | .string s => quote s
  | .array items => "[" ++ compactItems items ++ "]"
  | .object fields => "\x7b" ++ compactFields fields ++ "\x7d"

def compactItems : List Value → String
  | [] => ""
  | [v] => compact v
  | v :: vs => compact v ++ "," ++ compactItems vs

def compactFields : List (Option String × Value) → String
  | [] => ""
  | [(name, v)] => quote name ++ ":" ++ compact v
  | (name, v) :: fields => quote name ++ ":" ++ compact v ++ "," ++ compactFields fields

end

/-- The start of a new line at the given level. -/
def lineAt (level : Nat) : String :=
  String.ofList ('\n' :: List.replicate (2 * level) ' ')

mutual

/-- The value with one item or field on each line; what is inside starts at `level + 1`. -/
def prettyAt (level : Nat) : Value → String
  | .array (v :: vs) => "[" ++ prettyItems (level + 1) (v :: vs) ++ lineAt level ++ "]"
  | .object (f :: fs) => "\x7b" ++ prettyFields (level + 1) (f :: fs) ++ lineAt level ++ "\x7d"
  | .null => "null"
  | .bool b => if b then "true" else "false"
  | .number n => n.text
  | .string s => quote s
  | .array [] => "[]"
  | .object [] => "\x7b\x7d"

def prettyItems (level : Nat) : List Value → String
  | [] => ""
  | [v] => lineAt level ++ prettyAt level v
  | v :: vs => lineAt level ++ prettyAt level v ++ "," ++ prettyItems level vs

def prettyFields (level : Nat) : List (Option String × Value) → String
  | [] => ""
  | [(name, v)] => lineAt level ++ quote name ++ ": " ++ prettyAt level v
  | (name, v) :: fields => lineAt level ++ quote name ++ ": " ++ prettyAt level v ++ "," ++ prettyFields level fields

end

def pretty (v : Value) : String :=
  prettyAt 0 v

end Value

end CodeAtlas.Json
