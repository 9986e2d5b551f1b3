import CodeAtlas.Json.Value

/-!
# JSON libraries

A library prints and parses values, and takes records, fields and words of enumerations apart.  `Library.Lawful` is
what the forms that are stored as JSON rely on: a simple value that is not nested too deeply is parsed from its own
text, and a record is taken apart into the fields that it was made of.
-/

namespace CodeAtlas.Json

/-! ### Simple values -/

namespace Value

mutual

/-- How many containers are nested in one another at most. -/
def nesting : Value → Nat
  | .array items => nestingOf items + 1
  | .object fields => fieldNesting fields + 1
  | _ => 0

def nestingOf : List Value → Nat
  | [] => 0
  | v :: vs => max (nesting v) (nestingOf vs)

def fieldNesting : List (Option String × Value) → Nat
  | [] => 0
  | (_, v) :: fields => max (nesting v) (fieldNesting fields)

end

mutual

/-- Whether every text is proper, every number a natural one of 64 bits, and every field of an object the only one of
its name. -/
def isSimple : Value → Bool
  | .null => true
  | .bool _ => true
  | .number (.nat n) => n < Text.longWordBound
  | .number (.decimal ..) => false
  | .string s => s.isSome
  | .array items => areSimple items
  | .object fields => fieldsAreSimple fields

def areSimple : List Value → Bool
  | [] => true
  | v :: vs => isSimple v && areSimple vs

def fieldsAreSimple : List (Option String × Value) → Bool
  | [] => true
  | (name, v) :: fields => name.isSome && fields.all (·.1 != name) && isSimple v && fieldsAreSimple fields

end

end Value

/-! ### Libraries -/

/-- The functions of a JSON library that writers and readers of JSON forms call. -/
class Library where
  print : Value → String
  /-- The value that a text holds. -/
  parse? : String → Option Value
  /-- How deeply containers may be nested in a text that is read. -/
  depthLimit : Nat
  /-- The values of the named fields of a record, in this order. -/
  fields? : List String → Value → Option (List (Option Value))
  /-- Reads a field that may be missing or null. -/
  optional? {α : Type} : (Value → Option α) → Option Value → Option (Option α)
  /-- Reads a field that takes a default when it is missing. -/
  orDefault? {α : Type} : α → (Value → Option α) → Option Value → Option α
  /-- A word of an enumeration, in a value in which only so many containers may be nested. -/
  word? : Nat → Value → Option String

/-- What a library promises of the values that it prints itself. -/
structure Library.Lawful (json : Library) : Prop where
  /-- Printing is undone by parsing, up to the limit of nesting. -/
  parse_print : ∀ v : Value, v.isSimple = true → v.nesting ≤ json.depthLimit → json.parse? (json.print v) = some v
  /-- The fields of a record are found under their names, and no others. -/
  fields_record : ∀ (names : List String) (fields : List (String × Value)), names.Nodup →
    (fields.map Prod.fst).Nodup → (∀ f ∈ fields, f.1 ∈ names) →
    json.fields? names (.record fields) = some (names.map (fields.lookup ·))
  /-- A missing field may be left out of a record, and a field that is there is read. -/
  optional_missing : ∀ {α : Type} (read : Value → Option α), json.optional? read none = some none
  optional_present : ∀ {α : Type} (read : Value → Option α) (v : Value), v ≠ .null →
    json.optional? read (some v) = (read v).map some
  /-- Only a missing field takes the default. -/
  orDefault_missing : ∀ {α : Type} (default : α) (read : Value → Option α),
    json.orDefault? default read none = some default
  orDefault_present : ∀ {α : Type} (default : α) (read : Value → Option α) (v : Value),
    json.orDefault? default read (some v) = read v
  /-- Words are written as texts. -/
  word_text : ∀ (depth : Nat) (s : String), json.word? depth (.ofString s) = some s

end CodeAtlas.Json
