/-!
# TOML values

A table remembers how it came about, because that decides what may still be added to it: a table written in braces is
closed, one defined by a header cannot be defined again, and so on.
-/

namespace CodeAtlas.Toml

/-- How a table was made. -/
inductive Origin where
  /-- On the way to another table. -/
  | implicit
  /-- By a header of its own. -/
  | header
  /-- By a dotted key. -/
  | dotted
  /-- In braces. -/
  | inline
  deriving DecidableEq, Repr

inductive Value where
  | string (s : String)
  | integer (n : Int)
  | float (text : String)
  | boolean (b : Bool)
  | datetime (text : String)
  | array (items : List Value)
  | table (origin : Origin) (fields : List (String × Value))
  /-- The tables of a repeated header. -/
  | tables (elements : List (List (String × Value)))

abbrev Fields := List (String × Value)

namespace Fields

def get? (fields : Fields) (key : String) : Option Value :=
  fields.lookup key

/-- Replaces the value of a key, or adds it at the end. -/
def set (fields : Fields) (key : String) (value : Value) : Fields :=
  match fields with
  | [] => [(key, value)]
  | (k, v) :: rest => if k = key then (k, value) :: rest else (k, v) :: set rest key value

/-- Adds a key that is not there yet. -/
def insertNew? (fields : Fields) (key : String) (value : Value) : Option Fields :=
  match fields.get? key with
  | some _ => none
  | none => some (fields ++ [(key, value)])

/-- Changes the table that is reached through the keys of a header, making the tables on the way.  Repeated headers
are followed to their last table. -/
def changeUnder? (f : Fields → Option Fields) : List String → Fields → Option Fields
  | [], fields => f fields
  | key :: path, fields =>
    match fields.get? key with
    | none => (changeUnder? f path []).map fun sub => fields ++ [(key, .table .implicit sub)]
    | some (.table .inline _) => none
    | some (.table origin sub) => (changeUnder? f path sub).map fun sub => set fields key (.table origin sub)
    | some (.tables elements) =>
      match elements.getLast? with
      | none => none
      | some last => (changeUnder? f path last).map fun last => set fields key (.tables (elements.dropLast ++ [last]))
    | some _ => none

/-- Adds the value of a dotted key.  The table that gets the value must be made by dotted keys only, and none on the way
to it may be defined by a header, unless the header is repeated. -/
def insertDotted? (key : String) (value : Value) : List String → Fields → Option Fields
  | [], fields => fields.insertNew? key value
  | [k], fields =>
    match fields.get? k with
    | none => some (fields ++ [(k, .table .dotted [(key, value)])])
    | some (.table .dotted sub) => (Fields.insertNew? sub key value).map fun sub => set fields k (.table .dotted sub)
    | some _ => none
  | k :: path, fields =>
    match fields.get? k with
    | none => (insertDotted? key value path []).map fun sub => fields ++ [(k, .table .dotted sub)]
    | some (.table .dotted sub) =>
      (insertDotted? key value path sub).map fun sub => set fields k (.table .dotted sub)
    | some (.table .implicit sub) =>
      (insertDotted? key value path sub).map fun sub => set fields k (.table .implicit sub)
    | some (.tables elements) =>
      match elements.getLast? with
      | none => none
      | some last =>
        (insertDotted? key value path last).map fun last => set fields k (.tables (elements.dropLast ++ [last]))
    | some _ => none

/-- Defines a table by its header; it may have been made on the way to another one. -/
def defineTable? (key : String) (fields : Fields) : Option Fields :=
  match fields.get? key with
  | none => some (fields ++ [(key, .table .header [])])
  | some (.table .implicit sub) => some (set fields key (.table .header sub))
  | some _ => none

/-- Adds a table for a repeated header. -/
def appendTable? (key : String) (fields : Fields) : Option Fields :=
  match fields.get? key with
  | none => some (fields ++ [(key, .tables [[]])])
  | some (.tables elements) => some (set fields key (.tables (elements ++ [[]])))
  | some _ => none

end Fields

end CodeAtlas.Toml
