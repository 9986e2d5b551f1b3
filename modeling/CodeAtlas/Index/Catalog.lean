import CodeAtlas.Index.NameMap
import CodeAtlas.Symbol.Basic

/-!
# The catalog of symbols

Every symbol is filed under its name, its short name, the runs of three characters of its short name, and its
abbreviation; a namespace is filed under its path and each segment.  Entries carry the identity of their symbol, so
that the very symbol that was added can be removed again, and the number of their addition, so that answers have a
stable order.
-/

namespace CodeAtlas

/-! ### The keys of a symbol -/

/-- The runs of three characters. -/
def windows : List Char → List (List Char)
  | a :: b :: c :: rest => [a, b, c] :: windows (b :: c :: rest)
  | _ => []

def triples (s : String) : List String :=
  (windows s.toList).map String.ofList

/-- Whether a letter after `previous` starts a word. -/
def startsWord (previous : Option Char) (c : Char) : Bool :=
  match previous with
  | none => true
  | some p => p == '_' || p == '$' || (Text.isUppercase c && Text.isLowercase p)

/-- The lower case of the letters that start a word. -/
def initials (previous : Option Char) : List Char → List Char
  | [] => []
  | c :: cs =>
    (if Text.isAlphabetic c && startsWord previous c then Text.lowerChar c else []) ++ initials (some c) cs

/-- The initials of the short name, if there are at least two. -/
def abbreviation? (name : String) : Option String :=
  let letters := initials none (Text.lastSegment name).toList
  if letters.length > 1 then some (String.ofList letters) else none

/-- The keys of a symbol, sorted and without repetition. -/
def Symbol.keys (s : Symbol) : List String :=
  let name := Text.lower s.name
  let keys :=
    if s.kind == .space then name :: Text.split '\\' name
    else
      let short := Text.lastSegment name
      triples short ++ ((abbreviation? s.name).filter (· != short)).toList ++ [short, name]
  ((keys.filter (!·.isEmpty)).mergeSort (fun a b => decide (a ≤ b))).eraseDups

/-! ### Entries -/

structure CatalogEntry (ι : Type) where
  /-- The number of the addition. -/
  sequence : Nat
  /-- The identity of the symbol. -/
  id : ι
  symbol : Symbol

/-- A catalog of symbols with identities in `ι`. -/
structure Catalog (ι : Type) where
  names : NameMap (CatalogEntry ι)
  /-- The number of the next addition. -/
  next : Nat
  /-- The least length of a query that is also matched by runs of three characters. -/
  fuzzyMin : Nat

namespace Catalog

variable {ι : Type}

def empty (fuzzyMin : Nat) : Catalog ι :=
  ⟨NameMap.empty, 0, fuzzyMin⟩

def add (ix : Catalog ι) (id : ι) (s : Symbol) : Catalog ι :=
  { ix with names := s.keys.foldl (fun names key => names.add key ⟨ix.next, id, s⟩) ix.names, next := ix.next + 1 }

/-- Removes every entry of the symbol with this identity. -/
def remove [BEq ι] (ix : Catalog ι) (id : ι) (s : Symbol) : Catalog ι :=
  { ix with names := s.keys.foldl (fun names key => (names.remove key (·.id == id)).1) ix.names }

/-- The symbols with the given name, by the case rules of their kind. -/
def find (ix : Catalog ι) (text : String) : List Symbol :=
  ((ix.names.find text).filter fun e => e.symbol.kind.sameNames e.symbol.name text).map (·.symbol)

/-- How well a symbol matches a query in lower case: 0 if its name starts with it, 1 if its short name contains it,
2 otherwise. -/
def rankOf (s : Symbol) (query : String) : Nat :=
  let short := (Text.lower (Text.lastSegment s.name)).toList.dropWhile (· == '$')
  let query := query.toList.dropWhile (· == '$')
  if query.isPrefixOf short || query.isPrefixOf (Text.lower s.name).toList then 0
  else if Text.occursIn query short then 1
  else 2

/-- The entries that match a query in lower case, repetitions included. -/
def candidates (ix : Catalog ι) (query : String) (fuzzy : Bool) : List (CatalogEntry ι) :=
  (ix.names.startingWith query).flatMap (·.items) ++
    if fuzzy && ix.fuzzyMin ≤ query.length then (triples query).flatMap ix.names.find else []

/-- Ranked entries in order of rank and then of addition. -/
def inOrder (a b : Nat × CatalogEntry ι) : Bool :=
  a.1 < b.1 || (a.1 == b.1 && a.2.sequence ≤ b.2.sequence)

/-- The symbols one of whose keys starts with the text, and with `fuzzy` also those that share a run of three
characters with it, the best matches first. -/
def matching (ix : Catalog ι) (text : String) (fuzzy : Bool) : List Symbol :=
  let query := Text.lower text
  if query.isEmpty then []
  else
    let entries := (ix.candidates query fuzzy).eraseDupsBy fun a b => a.sequence == b.sequence
    ((entries.map fun e => (rankOf e.symbol query, e)).mergeSort inOrder).map (·.2.symbol)

def keys (ix : Catalog ι) : List String :=
  ix.names.keys

/-- The number of keys. -/
def size (ix : Catalog ι) : Nat :=
  ix.names.size

/-- The number of symbols under all keys together. -/
def entryCount (ix : Catalog ι) : Nat :=
  ix.names.itemCount

end Catalog

end CodeAtlas
