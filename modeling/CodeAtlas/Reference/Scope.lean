import CodeAtlas.Reference.Basic

/-!
# The references of a document

References are grouped by the scope in which they occur: the file, or a function, method or closure.  For look-ups by
position they are also kept in one list, sorted by where they start and then by where they end.
-/

namespace CodeAtlas

structure ScopeTree where
  range : Range
  references : List Reference
  children : List ScopeTree

namespace ScopeTree

mutual

/-- The references of the scope and of the scopes inside it. -/
def collect : ScopeTree → List Reference
  | .mk _ references children => references ++ collectAll children

def collectAll : List ScopeTree → List Reference
  | [] => []
  | s :: rest => collect s ++ collectAll rest

end

mutual

/-- The innermost scope around the position, following the first child that contains it. -/
def innermost (p : Position) : ScopeTree → ScopeTree
  | .mk range references children => innermostOf p ⟨range, references, children⟩ children

def innermostOf (p : Position) (found : ScopeTree) : List ScopeTree → ScopeTree
  | [] => found
  | s :: rest => if s.range.contains p then innermost p s else innermostOf p found rest

end

end ScopeTree

/-- By start, then by end. -/
def Reference.inOrder (a b : Reference) : Bool :=
  if a.range.start = b.range.start then a.range.stop ≤ b.range.stop else a.range.start ≤ b.range.start

structure Occurrences where
  uri : String
  root : ScopeTree
  /-- All references in order. -/
  sorted : List Reference
  /-- For each of them, the furthest end among the references up to it. -/
  reach : List Position

namespace Occurrences

/-- The furthest ends so far, starting from `furthest`. -/
def reachFrom (furthest : Position) : List Reference → List Position
  | [] => []
  | r :: rest => let furthest := furthest.later r.range.stop; furthest :: reachFrom furthest rest

def ofScope (uri : String) (root : ScopeTree) : Occurrences :=
  let sorted := root.collect.mergeSort Reference.inOrder
  ⟨uri, root, sorted, reachFrom ⟨0, 0⟩ sorted⟩

def size (d : Occurrences) : Nat :=
  d.sorted.length

/-- Whether `a` is the closer of two references around a position: it ends earlier, or ends there too and starts
later. -/
def closer (a b : Reference) : Bool :=
  if a.range.stop = b.range.stop then a.range.start ≠ b.range.start && b.range.start ≤ a.range.start
  else a.range.stop ≤ b.range.stop

/-- The first of the closest references. -/
def closest? : List Reference → Option Reference
  | [] => none
  | r :: rest => some (rest.foldl (fun best r => if closer r best then r else best) r)

/-- The innermost reference around the position: among those that start at or before it, the search goes backwards and
ends where nothing reaches the position any more. -/
def referenceAt? (d : Occurrences) (p : Position) : Option Reference :=
  let starting := (d.sorted.zip d.reach).takeWhile fun (r, _) => r.range.start ≤ p
  let reaching := starting.reverse.takeWhile fun (_, furthest) => p ≤ furthest
  closest? ((reaching.map (·.1)).filter (·.range.contains p))

/-- The references of the scope around the position, without those of inner scopes. -/
def scopeUsesAt (d : Occurrences) (p : Position) : List Reference :=
  (d.root.innermost p).references

/-- The references of the scope around the position and of its inner scopes. -/
def nestedUsesAt (d : Occurrences) (p : Position) : List Reference :=
  (d.root.innermost p).collect

end Occurrences

end CodeAtlas
