import CodeAtlas.Symbol.Modifiers
import CodeAtlas.TypeText

/-!
# Symbols

A symbol is a named declaration.  The symbols of a document form a tree with the file at its root: members are children
of their class, parameters and variables children of the function that declares them.
-/

namespace CodeAtlas

/-- What the documentation comment of a symbol says about it. -/
structure Documentation where
  description : String
  type : Option TypeText
  /-- The documentation is that of the inherited symbol. -/
  inherit : Bool
  deriving DecidableEq, Repr

/-- Another symbol, such as a base class, by its kind and fully qualified name. -/
structure SymbolLink where
  kind : SymbolKind
  name : String
  deriving DecidableEq, Repr

structure Symbol where
  kind : SymbolKind
  name : String
  location : Option Location
  modifiers : Modifiers
  /-- The documented type if there is one, otherwise the declared one. -/
  type : Option TypeText
  doc : Option Documentation
  associated : List SymbolLink
  children : List Symbol
  /-- The class of a member. -/
  scope : Option String
  /-- The text of a default or initial value. -/
  value : Option String

namespace Symbol

def bare (kind : SymbolKind) (name : String) : Symbol :=
  { kind, name, location := none, modifiers := Modifiers.empty, type := none, doc := none, associated := [],
    children := [], scope := none, value := none }

def withLocation (s : Symbol) (location : Location) : Symbol :=
  { s with location := some location }

def withModifiers (s : Symbol) (modifiers : Modifiers) : Symbol :=
  { s with modifiers := s.modifiers ||| modifiers }

/-- An empty type is no type. -/
def withType (s : Symbol) (type : TypeText) : Symbol :=
  { s with type := if type.isEmpty then none else some type }

def withScope (s : Symbol) (scope : String) : Symbol :=
  { s with scope := some scope }

def has (s : Symbol) (modifiers : Modifiers) : Bool :=
  s.modifiers.has modifiers

def isPrivate (s : Symbol) : Bool := s.has Modifiers.privateBit
def isStatic (s : Symbol) : Bool := s.has Modifiers.staticBit
def isMagic (s : Symbol) : Bool := s.has Modifiers.magicBit
def isAnonymous (s : Symbol) : Bool := s.has Modifiers.anonymousBit
def isImport (s : Symbol) : Bool := s.has Modifiers.importBit

def isDocumented (s : Symbol) : Bool :=
  match s.doc with
  | none => false
  | some doc => !doc.description.isEmpty || doc.type.isSome

def inheritsDoc (s : Symbol) : Bool :=
  match s.doc with
  | none => false
  | some doc => doc.inherit

/-- The name without its namespace. -/
def shortName (s : Symbol) : String :=
  Text.lastSegment s.name

def knownType (s : Symbol) : TypeText :=
  s.type.getD TypeText.empty

/-- The base class of a class. -/
def baseClass? (s : Symbol) : Option SymbolLink :=
  if s.kind == .cls then s.associated.find? (·.kind == .cls) else none

mutual

/-- The symbol and everything below it, each symbol before its children. -/
def descendants : Symbol → List Symbol
  | .mk kind name location modifiers type doc associated children scope value =>
    .mk kind name location modifiers type doc associated children scope value :: descendantsOf children

def descendantsOf : List Symbol → List Symbol
  | [] => []
  | s :: rest => descendants s ++ descendantsOf rest

end

end Symbol

end CodeAtlas
