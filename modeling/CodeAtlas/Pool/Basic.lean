import CodeAtlas.Index.Catalog
import CodeAtlas.Settings
import CodeAtlas.Symbol.Table

/-!
# The symbols of a workspace

A pool holds the symbol tables of documents with different uris and one catalog of them.  Not every symbol is in the
catalog: imports, anonymous symbols, parameters and local variables are not, nor is anything inside an anonymous class,
and members are only if the settings ask for them.
-/

namespace CodeAtlas

/-! ### What is listed -/

namespace Symbol

/-- Whether a symbol is listed as a child of a symbol of kind `parent`. -/
def isListed (members : Bool) (parent : SymbolKind) (s : Symbol) : Bool :=
  !s.name.isEmpty && !s.isImport && !s.isAnonymous &&
    match s.kind with
    | .file | .parameter => false
    | .var => parent == .file
    | .method | .property | .classConstant => members && parent.isClassLike
    | _ => true

mutual

/-- The listed symbols among a child of a symbol of kind `parent` and everything below it. -/
def listedIn (members : Bool) (parent : SymbolKind) : Symbol → List Symbol
  | .mk kind name location modifiers type doc associated children scope value =>
    let s := Symbol.mk kind name location modifiers type doc associated children scope value
    if s.isAnonymous && kind.isClassLike then []
    else (if s.isListed members parent then [s] else []) ++ listedInAll members kind children

def listedInAll (members : Bool) (parent : SymbolKind) : List Symbol → List Symbol
  | [] => []
  | s :: rest => listedIn members parent s ++ listedInAll members parent rest

end

end Symbol

/-- Symbols are told apart by their document and their number among its listed symbols. -/
abbrev SymbolId := String × Nat

/-- The listed symbols of a table; the root counts as a file. -/
def SymbolTable.listed (members : Bool) (t : SymbolTable) : List (SymbolId × Symbol) :=
  (Symbol.listedInAll members .file t.root.children).zipIdx.map fun (s, n) => ((t.uri, n), s)

/-! ### The pool -/

structure SymbolPool where
  /-- The tables in the order in which they were added. -/
  tables : List SymbolTable
  catalog : Catalog SymbolId
  listMembers : Bool
  /-- The number of symbols in all tables, listed or not. -/
  symbolCount : Nat

namespace SymbolPool

def empty (settings : Settings) : SymbolPool :=
  { tables := [], catalog := Catalog.empty settings.fuzzyMin, listMembers := settings.listMembers,
    symbolCount := 0 }

def table? (s : SymbolPool) (uri : String) : Option SymbolTable :=
  s.tables.find? (·.uri == uri)

def knowsDocument (s : SymbolPool) (uri : String) : Bool :=
  s.tables.any (·.uri == uri)

def documentCount (s : SymbolPool) : Nat :=
  s.tables.length

/-- Adds a table, unless there is one with its uri already. -/
def add? (s : SymbolPool) (t : SymbolTable) : Option SymbolPool :=
  if s.knowsDocument t.uri then none
  else
    some { s with
      tables := s.tables ++ [t]
      catalog := (t.listed s.listMembers).foldl (fun c (id, symbol) => c.add id symbol) s.catalog
      symbolCount := s.symbolCount + t.symbolCount }

/-- Removes the table of a document, if there is one. -/
def remove (s : SymbolPool) (uri : String) : SymbolPool :=
  match s.table? uri with
  | none => s
  | some t =>
    { s with
      tables := s.tables.filter (·.uri != uri)
      catalog := (t.listed s.listMembers).foldl (fun c (id, symbol) => c.remove id symbol) s.catalog
      symbolCount := s.symbolCount - t.symbolCount }

/-- The symbols with the given name that satisfy `p`. -/
def findAll (s : SymbolPool) (name : String) (p : Symbol → Bool) : List Symbol :=
  (s.catalog.find name).filter p

/-- The first symbol with the given name that satisfies `p`. -/
def find? (s : SymbolPool) (name : String) (p : Symbol → Bool) : Option Symbol :=
  (s.catalog.find name).find? p

/-- The symbols that match a text, the best first. -/
def matching (s : SymbolPool) (text : String) (fuzzy : Bool) (p : Symbol → Bool) : List Symbol :=
  (s.catalog.matching text fuzzy).filter p

end SymbolPool

end CodeAtlas
