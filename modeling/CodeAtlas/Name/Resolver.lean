import CodeAtlas.Symbol.Kind
import CodeAtlas.Tree.Document

/-!
# Name resolution

A resolver holds the naming context at a place in a document: the current namespace, the classes around the place and
the import rules in force.  It turns a name as written into a fully qualified name.
-/

namespace CodeAtlas

/-- Functions and constants are imported separately; everything else goes by the rules for classes. -/
def SymbolKind.importFamily : SymbolKind → SymbolKind
  | .function => .function
  | .constant => .constant
  | _ => .cls

/-- A name introduced by an import, and the fully qualified name it stands for. -/
structure ImportedName where
  kind : SymbolKind
  localName : String
  target : String
  deriving DecidableEq, Repr

def ImportedName.of (kind : SymbolKind) (localName target : String) : ImportedName :=
  ⟨kind.importFamily, localName, target⟩

/-- A class around the current place, with the name of its base class (empty if it has none). -/
structure EnclosingClass where
  name : String
  base : String
  deriving DecidableEq, Repr

structure Resolver where
  /-- The current namespace, empty for the global one. -/
  space : String
  /-- The enclosing classes, innermost first. -/
  classes : List EnclosingClass
  /-- The import rules in the order in which they were added. -/
  rules : List ImportedName
  deriving DecidableEq, Repr

namespace Resolver

def empty : Resolver :=
  ⟨"", [], []⟩

/-- Entering a namespace drops the import rules. -/
def setSpace (r : Resolver) (space : String) : Resolver :=
  { r with space := space, rules := [] }

def addImport (r : Resolver) (rule : ImportedName) : Resolver :=
  { r with rules := r.rules ++ [rule] }

def intoClass (r : Resolver) (name base : String) : Resolver :=
  { r with classes := ⟨name, base⟩ :: r.classes }

def outOfClass (r : Resolver) : Resolver :=
  { r with classes := r.classes.tail }

/-- The innermost class, or nothing outside of any. -/
def className (r : Resolver) : String :=
  match r.classes with
  | [] => ""
  | frame :: _ => frame.name

def baseName (r : Resolver) : String :=
  match r.classes with
  | [] => ""
  | frame :: _ => frame.base

/-- Joins two names with a backslash, unless one of them is empty. -/
def joinNames (outer inner : String) : String :=
  if outer.isEmpty then inner
  else if inner.isEmpty then outer
  else outer ++ "\\" ++ inner

/-- The name inside the current namespace. -/
def relative (r : Resolver) (name : String) : String :=
  joinNames r.space name

/-- The last import rule for this name. -/
def rule? (r : Resolver) (localName : String) (kind : SymbolKind) : Option ImportedName :=
  r.rules.reverse.find? fun rule => rule.kind == kind && Text.sameFolded rule.localName localName

/-- What the words for the current class and its base stand for. -/
def keyword? (r : Resolver) (name : String) : Option String :=
  if Text.sameFolded name "self" || Text.sameFolded name "static" || Text.sameFolded name "$this" then
    some r.className
  else if Text.sameFolded name "parent" then some r.baseName
  else none

/-- Resolves a name written without a leading backslash.  The first segment of a qualified name is looked up among
the class imports, a plain name among those of its own kind. -/
def resolvePlain (r : Resolver) (name : String) (kind : SymbolKind) : String :=
  if name.isEmpty then ""
  else
    match r.keyword? name with
    | some special => special
    | none =>
      match Text.splitOnce? (· == '\\') name.toList with
      | none =>
        match r.rule? name kind.importFamily with
        | some rule => rule.target
        | none => r.relative name
      | some (first, rest) =>
        match r.rule? (String.ofList first) .cls with
        | some rule => joinNames rule.target (String.ofList rest)
        | none => r.relative name

/-- Resolves a name according to the form in which it was written. -/
def resolve (r : Resolver) (name : String) (form : NameStyle) (kind : SymbolKind) : String :=
  match form with
  | .fullyQualified => String.ofList (name.toList.dropWhile (· == '\\'))
  | .relative => r.relative name
  | .qualified | .unqualified => r.resolvePlain name kind

/-- Whether the name may also mean a global function or constant: it is unqualified, inside a namespace, and not
imported. -/
def mayBeGlobal (r : Resolver) (name : String) (form : NameStyle) (kind : SymbolKind) : Bool :=
  form == .unqualified && !r.space.isEmpty && !name.toList.contains '\\' &&
    (kind == .function || kind == .constant) && (r.rule? name kind).isNone

end Resolver

end CodeAtlas
