import CodeAtlas.Json.Library
import CodeAtlas.Symbol.Table

/-!
# Stored symbol tables

The form in which symbol tables are kept: locations without the uri, which the table holds once, types as texts, and
modifiers as a number.  Its JSON form leaves out what is absent or empty and restores it when reading, with whatever
JSON library there is.
-/

namespace CodeAtlas

structure StoredSymbol where
  kind : SymbolKind
  name : String
  location : Option Range
  modifiers : Nat
  type : Option String
  doc : Option Documentation
  associated : List SymbolLink
  children : List StoredSymbol
  scope : Option String
  value : Option String

structure StoredTable where
  uri : String
  root : StoredSymbol

/-! ### Storing and restoring -/

namespace Symbol

mutual

def store : Symbol → StoredSymbol
  | .mk kind name location modifiers type doc associated children scope value =>
    { kind, name, location := location.map (·.range), modifiers := Modifiers.bits modifiers,
      type := type.map TypeText.text, doc, associated, children := storeAll children, scope, value }

def storeAll : List Symbol → List StoredSymbol
  | [] => []
  | s :: rest => store s :: storeAll rest

end

end Symbol

namespace StoredSymbol

mutual

/-- The symbol of the document `uri`; its type is read from its text. -/
def restore (uri : String) : StoredSymbol → Symbol
  | .mk kind name location modifiers type doc associated children scope value =>
    { kind, name, location := location.map fun range => ⟨uri, range⟩, modifiers := Modifiers.ofBits modifiers,
      type := type.map TypeText.ofText, doc, associated, children := restoreAll uri children, scope, value }

def restoreAll (uri : String) : List StoredSymbol → List Symbol
  | [] => []
  | s :: rest => restore uri s :: restoreAll uri rest

end

end StoredSymbol

def SymbolTable.store (t : SymbolTable) : StoredTable :=
  ⟨t.uri, t.root.store⟩

def StoredTable.restore (t : StoredTable) : SymbolTable :=
  ⟨t.uri, t.root.restore t.uri⟩

/-! ### The JSON form -/

open Json

def Range.toJson (r : Range) : Value :=
  .array (r.toList.map Value.ofNat)

/-- The field of a value that may be absent. -/
def optionalField {α : Type} (name : String) (f : α → Value) : Option α → List (String × Value)
  | none => []
  | some a => [(name, f a)]

/-- The field of a list, left out when the list is empty. -/
def listField (name : String) (items : List Value) : List (String × Value) :=
  if items.isEmpty then [] else [(name, .array items)]

def Documentation.toJson (doc : Documentation) : Value :=
  .record <|
    [("description", .ofString doc.description)] ++
    optionalField "type_string" (fun t => .ofString t.text) doc.type ++
    (if doc.inherit then [("inherit", .bool true)] else [])

def SymbolLink.toJson (link : SymbolLink) : Value :=
  .record [("kind", .ofString link.kind.label), ("name", .ofString link.name)]

namespace StoredSymbol

mutual

def toJson : StoredSymbol → Value
  | .mk kind name location modifiers type doc associated children scope value =>
    .record <|
      [("kind", .ofString kind.label), ("name", .ofString name)] ++
      optionalField "location" Range.toJson location ++
      (if modifiers = 0 then [] else [("modifiers", .ofNat modifiers)]) ++
      optionalField "type" .ofString type ++
      optionalField "doc" Documentation.toJson doc ++
      listField "associated" (associated.map SymbolLink.toJson) ++
      listField "children" (toJsonAll children) ++
      optionalField "scope" .ofString scope ++
      optionalField "value" .ofString value

def toJsonAll : List StoredSymbol → List Value
  | [] => []
  | s :: rest => toJson s :: toJsonAll rest

end

end StoredSymbol

def StoredTable.toJson (t : StoredTable) : Value :=
  .record [("uri", .ofString t.uri), ("root", t.root.toJson)]

/-! ### Reading the JSON form -/

/-- Exactly four numbers. -/
def Range.ofJson? (depth : Nat) (v : Value) : Option Range :=
  if depth = 0 then none
  else
    match v.items? with
    | some [a, b, c, d] => do
      let a ← a.natBelow? Text.wordBound
      let b ← b.natBelow? Text.wordBound
      let c ← c.natBelow? Text.wordBound
      let d ← d.natBelow? Text.wordBound
      some ⟨⟨a, b⟩, ⟨c, d⟩⟩
    | _ => none

/-- A list whose items are read at one level less. -/
def listOfJson? {α : Type} (depth : Nat) (read : Nat → Value → Option α) (v : Value) : Option (List α) :=
  match depth with
  | 0 => none
  | depth + 1 => v.items?.bind fun items => items.mapM (read depth)

section

variable [Library]

def SymbolKind.ofJson? (depth : Nat) (v : Value) : Option SymbolKind :=
  (Library.word? depth v).bind SymbolKind.ofLabel?

def Documentation.ofJson? (depth : Nat) (v : Value) : Option Documentation :=
  if depth = 0 then none
  else
    match Library.fields? ["description", "type_string", "inherit"] v with
    | some [some description, type, inherit] => do
      let description ← description.text?
      let type ← Library.optional? (fun v => v.text?.map TypeText.ofText) type
      let inherit ← Library.orDefault? false Value.bool? inherit
      some ⟨description, type, inherit⟩
    | _ => none

def SymbolLink.ofJson? (depth : Nat) (v : Value) : Option SymbolLink :=
  match depth with
  | 0 => none
  | depth + 1 =>
    match Library.fields? ["kind", "name"] v with
    | some [some kind, some name] => do
      let kind ← SymbolKind.ofJson? depth kind
      let name ← name.text?
      some ⟨kind, name⟩
    | _ => none

/-- Reads a symbol in which at most `depth` containers are nested. -/
def StoredSymbol.ofJson? (depth : Nat) (v : Value) : Option StoredSymbol :=
  match depth with
  | 0 => none
  | depth + 1 =>
    match Library.fields? ["kind", "name", "location", "modifiers", "type", "doc", "associated", "children", "scope",
        "value"] v with
    | some [some kind, some name, location, modifiers, type, doc, associated, children, scope, value] => do
      let kind ← SymbolKind.ofJson? depth kind
      let name ← name.text?
      let location ← Library.optional? (Range.ofJson? depth) location
      let modifiers ← Library.orDefault? 0 (Value.natBelow? Text.wordBound) modifiers
      let type ← Library.optional? Value.text? type
      let doc ← Library.optional? (Documentation.ofJson? depth) doc
      let associated ← Library.orDefault? [] (listOfJson? depth SymbolLink.ofJson?) associated
      -- a list as above, opened up so that the recursion is on the depth
      let readChildren := fun (v : Value) =>
        match depth with
        | 0 => none
        | depth + 1 => v.items?.bind fun items => items.mapM (StoredSymbol.ofJson? depth)
      let children ← Library.orDefault? [] readChildren children
      let scope ← Library.optional? Value.text? scope
      let value ← Library.optional? Value.text? value
      some ⟨kind, name, location, modifiers, type, doc, associated, children, scope, value⟩
    | _ => none

def StoredTable.ofJson? (depth : Nat) (v : Value) : Option StoredTable :=
  match depth with
  | 0 => none
  | depth + 1 =>
    match Library.fields? ["uri", "root"] v with
    | some [some uri, some root] => do
      let uri ← uri.text?
      let root ← StoredSymbol.ofJson? depth root
      some ⟨uri, root⟩
    | _ => none

/-- The JSON text of a table. -/
def SymbolTable.toJsonText (t : SymbolTable) : String :=
  Library.print t.store.toJson

/-- Reads the JSON text of a table. -/
def SymbolTable.ofJsonText? (text : String) : Option SymbolTable :=
  (Library.parse? text).bind fun v => (StoredTable.ofJson? Library.depthLimit v).map StoredTable.restore

end

end CodeAtlas
