import CodeAtlas.Symbol.Basic

/-!
# Symbol tables

The symbol tree of one document, and what can be asked about a position in it.
-/

namespace CodeAtlas

structure SymbolTable where
  uri : String
  root : Symbol

namespace Symbol

/-- Whether the symbol is written in the document and its location contains the position. -/
def touches (s : Symbol) (p : Position) : Bool :=
  !s.isMagic && !s.isImport &&
    match s.location with
    | none => false
    | some location => location.range.contains p

/-- Functions, methods and class-like symbols: what can declare variables or members. -/
def isScope (s : Symbol) : Bool :=
  s.kind.isClassLike || s.kind == .function || s.kind == .method

mutual

/-- Follows the children that touch the position down from a symbol, and gives the last scope on the way. -/
def innermost (p : Position) (found : Symbol) : Symbol → Symbol
  | .mk _ _ _ _ _ _ _ children _ _ => innermostOf p found children

def innermostOf (p : Position) (found : Symbol) : List Symbol → Symbol
  | [] => found
  | s :: rest =>
    if s.touches p then innermost p (if s.isScope then s else found) s else innermostOf p found rest

end

end Symbol

namespace SymbolTable

/-- Every symbol, the file first, each before its children. -/
def symbols (t : SymbolTable) : List Symbol :=
  t.root.descendants

/-- The number of symbols without the file. -/
def symbolCount (t : SymbolTable) : Nat :=
  t.symbols.length - 1

/-- The declaration whose location starts at the position. -/
def symbolAt? (t : SymbolTable) (p : Position) : Option Symbol :=
  t.symbols.find? fun s =>
    s.kind != .file &&
      match s.location with
      | none => false
      | some location => location.range.start == p

/-- The innermost function, method or class-like symbol around the position, or the file. -/
def scopeAt (t : SymbolTable) (p : Position) : Symbol :=
  t.root.innermost p t.root

/-- The parameters and variables declared by the scope around the position. -/
def variablesAt (t : SymbolTable) (p : Position) : List Symbol :=
  (t.scopeAt p).children.filter (·.kind.isLocal)

end SymbolTable

end CodeAtlas
