import CodeAtlas.Reference.Basic
import CodeAtlas.Pool.Hierarchy

/-!
# From references to declarations

Which symbols of a workspace a reference may mean.
-/

namespace CodeAtlas.SymbolPool

/-- The members of the classes in `scope` with the given kind and name, inherited ones included. -/
def membersOf (s : SymbolPool) (scope : TypeText) (kind : SymbolKind) (name : String)
    (strategy : MergeStrategy) : List Symbol :=
  let isMember := fun (member : Symbol) =>
    member.kind == kind && if kind == .method then Text.sameFolded member.name name else member.name == name
  (scope.classNames.filterMap (Hierarchy.ofName? s)).flatMap fun h => h.members s strategy isMember

/-- The constructors of a class, its own or inherited. -/
def constructors (s : SymbolPool) (strategy : MergeStrategy) (cls : Symbol) : List Symbol :=
  (Hierarchy.ofSymbol cls false).members s strategy fun member =>
    member.kind == .method && Text.sameFolded member.name "__construct"

/-- The declarations that a reference may mean.  Variables are found in the table of their document and not here. -/
def findByReference (s : SymbolPool) (r : Reference) (strategy : MergeStrategy) : List Symbol :=
  match r.kind with
  | .cls | .interface | .trait => s.findAll r.name (·.kind.isClassLike)
  | .constructor =>
    let classes := s.findAll r.name (·.kind.isClassLike)
    match classes.flatMap (s.constructors strategy) with
    | [] => classes
    | found => found
  | .function | .constant =>
    match s.findAll r.name (·.kind == r.kind), r.altName with
    | [], some alt => s.findAll alt (·.kind == r.kind)
    | found, _ => found
  | .space => s.findAll r.name (·.kind == .space)
  | .method | .property | .classConstant =>
    s.membersOf ((r.scope.map TypeText.ofText).getD TypeText.empty) r.kind r.name strategy
  | .var | .parameter | .file => []

end CodeAtlas.SymbolPool
