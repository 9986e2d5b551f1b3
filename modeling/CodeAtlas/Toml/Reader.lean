import CodeAtlas.Toml.Scalar

/-!
# Reading TOML

A document is a list of lines, each a header, a key with its value, or empty.  `parse?` gives the fields of the root
table, or nothing where a line is malformed or a key or table is defined twice.
-/

namespace CodeAtlas.Toml

open Text

/-- How deeply arrays and tables in braces may be nested. -/
def maxNesting : Nat := 80

/-- How many parts a key may have. -/
def maxParts : Nat := 80

/-! ### Blanks, comments and keys -/

def skipSpace (cs : List Char) : List Char :=
  cs.dropWhile isSpace

/-- Drops a comment, if there is one. -/
def skipComment : List Char → List Char
  | '#' :: rest => rest.dropWhile isPrintable
  | cs => cs

/-- The text after the end of a line with nothing but blanks and a comment left on it. -/
def endLine? (cs : List Char) : Option (List Char) :=
  match skipComment (skipSpace cs) with
  | [] => some []
  | rest => afterNewline? rest

/-- Drops blanks, comments and line ends; `fuel` bounds the number of lines. -/
def skipLines (fuel : Nat) (cs : List Char) : List Char :=
  match fuel with
  | 0 => cs
  | fuel + 1 =>
    let rest := skipSpace cs
    match afterNewline? (skipComment rest) with
    | some next => skipLines fuel next
    | none => rest

def isBareKeyChar (c : Char) : Bool :=
  c.isAlphanum || c == '_' || c == '-'

/-- Reads one part of a key. -/
def readKeyPart (cs : List Char) : Option (String × List Char) :=
  match cs with
  | '"' :: rest => (readBasic (cs.length + 1) rest).map fun (s, rest) => (String.ofList s, rest)
  | '\x27' :: rest => (readLiteral rest).map fun (s, rest) => (String.ofList s, rest)
  | _ =>
    match cs.takeWhile isBareKeyChar with
    | [] => none
    | part => some (String.ofList part, cs.dropWhile isBareKeyChar)

/-- Reads at most `limit` parts of a key with points between them, and the blanks after them. -/
def readParts (limit : Nat) (cs : List Char) : Option (List String × List Char) :=
  match limit with
  | 0 => none
  | limit + 1 =>
    (readKeyPart cs).bind fun (part, rest) =>
      match skipSpace rest with
      | '.' :: rest => (readParts limit (skipSpace rest)).map fun (parts, rest) => (part :: parts, rest)
      | rest => some ([part], rest)

def readKey (cs : List Char) : Option (List String × List Char) :=
  readParts maxParts cs

/-- The table path of a key and its last part. -/
def splitKey (parts : List String) : List String × String :=
  (parts.dropLast, parts.getLastD "")

/-! ### Values -/

mutual

/-- Reads a value in which at most `depth` arrays and tables are nested. -/
def readValue (depth : Nat) (fuel : Nat) (cs : List Char) : Option (Value × List Char) :=
  match fuel with
  | 0 => none
  | fuel + 1 =>
    match cs with
    | '"' :: _ => (readString cs).map fun (s, rest) => (.string (String.ofList s), rest)
    | '\x27' :: _ => (readString cs).map fun (s, rest) => (.string (String.ofList s), rest)
    | '[' :: rest =>
      if depth = 0 then none
      else (readArray (depth - 1) fuel rest).map fun (items, rest) => (.array items, rest)
    | '\x7b' :: rest =>
      if depth = 0 then none
      else (readInline (depth - 1) fuel [] rest).map fun (fields, rest) => (.table .inline fields, rest)
    | _ => readBareScalar cs

/-- Reads the items of an array up to its closing bracket; a comma may follow the last one. -/
def readArray (depth : Nat) (fuel : Nat) (cs : List Char) : Option (List Value × List Char) :=
  match fuel with
  | 0 => none
  | fuel + 1 =>
    match skipLines (cs.length + 1) cs with
    | ']' :: rest => some ([], rest)
    | rest =>
      match readValue depth fuel rest with
      | none => none
      | some (v, rest) =>
        match skipLines (rest.length + 1) rest with
        | ']' :: rest => some ([v], rest)
        | ',' :: rest => (readArray depth fuel rest).map fun (vs, rest) => (v :: vs, rest)
        | _ => none

/-- Reads the fields of a table in braces after the ones in `fields`, up to its closing brace; a comma may follow the
last one, and lines may end and comments stand around keys and values. -/
def readInline (depth : Nat) (fuel : Nat) (fields : Fields) (cs : List Char) : Option (Fields × List Char) :=
  match fuel with
  | 0 => none
  | fuel + 1 =>
    match skipLines (cs.length + 1) cs with
    | '\x7d' :: rest => some (fields, rest)
    | rest =>
      match readKey rest with
      | none => none
      | some (parts, rest) =>
        match skipLines (rest.length + 1) rest with
        | '=' :: rest =>
          match readValue depth fuel (skipLines (rest.length + 1) rest) with
          | none => none
          | some (v, rest) =>
            let (path, key) := splitKey parts
            match Fields.insertDotted? key v path fields with
            | none => none
            | some fields =>
              match skipLines (rest.length + 1) rest with
              | '\x7d' :: rest => some (fields, rest)
              | ',' :: rest => readInline depth fuel fields rest
              | _ => none
        | _ => none

end

/-! ### Documents -/

/-- The fields of the root table so far, and the path of the table that the next keys go to. -/
structure State where
  root : Fields
  path : List String

/-- Reads a header: the parts of its name up to the closing brackets. -/
def readHeader? (closing : List Char) (cs : List Char) : Option (List String × List Char) :=
  (readKey (skipSpace cs)).bind fun (parts, rest) =>
    (closing.isPrefixOf? rest).map fun rest => (parts, rest)

/-- Reads one line. -/
def readLine? (s : State) (cs : List Char) : Option (State × List Char) :=
  match skipSpace cs with
  | '[' :: '[' :: rest =>
    (readHeader? [']', ']'] rest).bind fun (parts, rest) =>
      let (path, key) := splitKey parts
      (Fields.changeUnder? (Fields.appendTable? key) path s.root).bind fun root =>
        (endLine? rest).map fun rest => (⟨root, parts⟩, rest)
  | '[' :: rest =>
    (readHeader? [']'] rest).bind fun (parts, rest) =>
      let (path, key) := splitKey parts
      (Fields.changeUnder? (Fields.defineTable? key) path s.root).bind fun root =>
        (endLine? rest).map fun rest => (⟨root, parts⟩, rest)
  | rest =>
    match endLine? rest with
    | some rest => some (s, rest)
    | none =>
      match readKey rest with
      | some (parts, '=' :: rest) =>
        (readValue maxNesting (rest.length + 1) (skipSpace rest)).bind fun (v, rest) =>
          let (path, key) := splitKey parts
          (Fields.changeUnder? (Fields.insertDotted? key v path) s.path s.root).bind fun root =>
            (endLine? rest).map fun rest => (⟨root, s.path⟩, rest)
      | _ => none

/-- Reads line after line; `fuel` bounds their number. -/
def readLines (fuel : Nat) (s : State) (cs : List Char) : Option Fields :=
  match fuel, cs with
  | _, [] => some s.root
  | 0, _ => none
  | fuel + 1, cs => (readLine? s cs).bind fun (s, rest) => readLines fuel s rest

/-- Reads a whole document; a byte order mark in front is ignored. -/
def parse? (text : String) : Option Fields :=
  let cs := text.toList
  let cs := if cs.head? == some (Char.ofNat 0xFEFF) then cs.tail else cs
  readLines (cs.length + 1) ⟨[], []⟩ cs

end CodeAtlas.Toml
