import CodeAtlas.Symbol.Kind
import CodeAtlas.Source.Position
import CodeAtlas.TypeText

/-!
# References

A reference is one use of a name at a range of a document.
-/

namespace CodeAtlas

structure Reference where
  kind : SymbolKind
  /-- The fully qualified name, or the bare name of a member. -/
  name : String
  range : Range
  type : Option TypeText
  /-- The global function or constant that an unqualified name falls back to. -/
  altName : Option String
  /-- The type of the object or class on which a member is accessed. -/
  scope : Option String
  deriving DecidableEq, Repr

/-- Kinds that share their names: whatever names a class, and whatever names a variable. -/
def SymbolKind.family : SymbolKind → SymbolKind
  | .constructor | .interface | .trait => .cls
  | .parameter => .var
  | kind => kind

namespace Reference

def bare (kind : SymbolKind) (name : String) (range : Range) : Reference :=
  { kind, name, range, type := none, altName := none, scope := none }

/-- An empty type is no type. -/
def withType (r : Reference) (type : TypeText) : Reference :=
  { r with type := if type.isEmpty then none else some type }

def withAltName (r : Reference) (name : String) : Reference :=
  { r with altName := some name }

def withScope (r : Reference) (scope : String) : Reference :=
  { r with scope := some scope }

/-- The name and the fallback name. -/
def names (r : Reference) : List String :=
  r.name :: r.altName.toList

/-- Whether two references name the same thing, wherever they are. -/
def sameName (a b : Reference) : Bool :=
  a.kind.family == b.kind.family &&
    a.names.any fun x => b.names.any fun y => a.kind.family.sameNames x y

end Reference

end CodeAtlas
