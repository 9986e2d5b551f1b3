import CodeAtlas.Json.Value

/-!
# Taking records apart

A record is written as an object, or as an array of its fields in order.  Unknown fields of an object are ignored,
a known one may stand only once, and the last fields of an array may be left out.
-/

namespace CodeAtlas.Json

/-- How deeply containers may be nested in a text that is read as a record. -/
def maxDepth : Nat := 127

namespace Value

/-- The value of the field `name`: none if it is missing, a failure if it stands twice. -/
def fieldOf? (fields : List (Option String × Value)) (name : String) : Option (Option Value) :=
  match fields.filter (·.1 == some name) with
  | [] => some none
  | [(_, v)] => some (some v)
  | _ => none

/-- The values of the named fields of a record, in this order. -/
def fields? (names : List String) : Value → Option (List (Option Value))
  | .object fields => if fields.all (·.1.isSome) then names.mapM (fieldOf? fields) else none
  | .array items =>
    if items.length ≤ names.length then
      some (items.map some ++ List.replicate (names.length - items.length) none)
    else none
  | _ => none

/-- A field that may be missing or null. -/
def optional? {α : Type} (read : Value → Option α) : Option Value → Option (Option α)
  | none => some none
  | some .null => some none
  | some v => (read v).map some

/-- A field that takes a default when it is missing. -/
def orDefault? {α : Type} (default : α) (read : Value → Option α) : Option Value → Option α
  | none => some default
  | some v => read v

/-- A word of an enumeration: a string, or an object with the word as its only field and null as its value. -/
def word? (depth : Nat) : Value → Option String
  | .string s => s
  | .object [(name, .null)] => if depth = 0 then none else name
  | _ => none

end Value

end CodeAtlas.Json
