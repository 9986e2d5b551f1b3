import CodeAtlas.Json.Library
import CodeAtlas.Settings
import CodeAtlas.Toml.Reader

/-!
# Written settings

Settings are written as a TOML document or a JSON object.  Every setting may be left out, unknown ones are ignored, and
numbers are not negative and fit in 64 bits.
-/

namespace CodeAtlas.Settings

/-! ### TOML -/

/-- A field that takes a default when it is missing. -/
def tomlField? {α : Type} (fields : Toml.Fields) (name : String) (default : α) (read : Toml.Value → Option α) :
    Option α :=
  match fields.get? name with
  | none => some default
  | some v => read v

def natOfToml? : Toml.Value → Option Nat
  | .integer (.ofNat n) => if n < Text.longWordBound then some n else none
  | _ => none

def boolOfToml? : Toml.Value → Option Bool
  | .boolean b => some b
  | _ => none

def ofToml? (text : String) : Option Settings := do
  let fields ← Toml.parse? text
  let defaults : Settings := {}
  let limit ← tomlField? fields "workspace_symbol_limit" defaults.symbolLimit natOfToml?
  let members ← tomlField? fields "index_members" defaults.listMembers boolOfToml?
  let fuzzy ← tomlField? fields "fuzzy_min_query_len" defaults.fuzzyMin natOfToml?
  some { symbolLimit := limit, listMembers := members, fuzzyMin := fuzzy }

/-! ### JSON -/

open Json

def ofJson? [Library] (v : Value) : Option Settings :=
  match Library.fields? ["workspace_symbol_limit", "index_members", "fuzzy_min_query_len"] v with
  | some [limit, members, fuzzy] => do
    let defaults : Settings := {}
    let limit ← Library.orDefault? defaults.symbolLimit (Value.natBelow? Text.longWordBound) limit
    let members ← Library.orDefault? defaults.listMembers Value.bool? members
    let fuzzy ← Library.orDefault? defaults.fuzzyMin (Value.natBelow? Text.longWordBound) fuzzy
    some { symbolLimit := limit, listMembers := members, fuzzyMin := fuzzy }
  | _ => none

def toJson (s : Settings) : Value :=
  .record [("workspace_symbol_limit", .ofNat s.symbolLimit), ("index_members", .bool s.listMembers),
    ("fuzzy_min_query_len", .ofNat s.fuzzyMin)]

end CodeAtlas.Settings
