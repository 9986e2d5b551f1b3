import CodeAtlas.Pool.Basic

/-!
# Class hierarchies

The types above a class are found by following the names of its traits, base classes and interfaces through the pool,
breadth first and each name once, so that cycles do no harm.  Members declared at several levels are merged into one.
-/

namespace CodeAtlas

/-- What to do with members of the same name at several levels. -/
inductive MergeStrategy where
  /-- Keep all of them. -/
  | keepAll
  /-- Keep the nearest one, but let a magic one give way to any that is not, and one without a documentation of its own
  to one that has it and is not magic. -/
  | documented
  /-- Keep the one furthest up. -/
  | base
  deriving DecidableEq, Repr

/-- One or several declarations of a type, and whether its traits count. -/
structure Hierarchy where
  roots : List Symbol
  excludeTraits : Bool

namespace Hierarchy

def ofSymbol (s : Symbol) (excludeTraits : Bool) : Hierarchy :=
  ⟨[s], excludeTraits⟩

/-- All class-like declarations of a name, if there are any. -/
def ofName? (pool : SymbolPool) (name : String) : Option Hierarchy :=
  match pool.findAll name (·.kind.isClassLike) with
  | [] => none
  | roots => some ⟨roots, false⟩

/-- The name of the first declaration. -/
def name (h : Hierarchy) : String :=
  match h.roots with
  | [] => ""
  | s :: _ => s.name

def kind? (h : Hierarchy) : Option SymbolKind :=
  h.roots.head?.map (·.kind)

/-! ### The types above -/

/-- Traits come first, then base classes, then interfaces. -/
def linkRank (link : SymbolLink) : Nat :=
  match link.kind with
  | .trait => 0
  | .cls => 1
  | _ => 2

/-- The types that a declaration names, in the order in which they are looked up. -/
def linksOf (excludeTraits : Bool) (s : Symbol) : List SymbolLink :=
  (s.associated.filter fun link => !(excludeTraits && link.kind == .trait)).mergeSort
    fun a b => linkRank a ≤ linkRank b

/-- Looks up the names in the queue one after the other, skipping the ones in `visited`, and appends the names that
each type found brings along; `fuel` bounds the number of names. -/
def resolve (pool : SymbolPool) (excludeTraits : Bool) (fuel : Nat) (visited : List String)
    (queue : List SymbolLink) : List Symbol :=
  match fuel, queue with
  | 0, _ => []
  | _, [] => []
  | fuel + 1, link :: queue =>
    let key := Text.lower link.name
    if visited.contains key then resolve pool excludeTraits fuel visited queue
    else
      match pool.find? link.name (·.kind.isClassLike) with
      | none => resolve pool excludeTraits fuel (key :: visited) queue
      | some found =>
        found :: resolve pool excludeTraits fuel (key :: visited) (queue ++ linksOf excludeTraits found)

/-- The number of names that all symbols in the catalog bring along. -/
def linkTotal (pool : SymbolPool) : Nat :=
  (pool.catalog.names.nodes.flatMap fun node => node.items.flatMap (·.symbol.associated)).length

/-- The types above, nearest first.  Every type is found once, so all names together bound the search. -/
def associated (pool : SymbolPool) (h : Hierarchy) : List Symbol :=
  let queue := h.roots.flatMap (linksOf h.excludeTraits)
  resolve pool h.excludeTraits (queue.length + linkTotal pool) (h.roots.map fun s => Text.lower s.name) queue

def isAbove (pool : SymbolPool) (h : Hierarchy) (name : String) : Bool :=
  (h.associated pool).any fun s => Text.sameFolded s.name name

/-- The declaration of the base class. -/
def baseClass? (pool : SymbolPool) (h : Hierarchy) : Option Symbol :=
  match h.roots.findSome? Symbol.baseClass? with
  | none => none
  | some link => (h.associated pool).find? fun s => Text.sameFolded s.name link.name

/-! ### Members -/

/-- Members with the same key are merged; the case of method names does not matter. -/
def mergeKey (s : Symbol) : SymbolKind × String :=
  (s.kind, if s.kind == .method then Text.lower s.name else s.name)

/-- Whether a member further up is better documented than the current one. -/
def betterDocumented (current candidate : Symbol) : Bool :=
  (current.isMagic && !candidate.isMagic) ||
    ((!current.isDocumented || current.inheritsDoc) && candidate.isDocumented && !candidate.inheritsDoc &&
      !candidate.isMagic)

def replaces (strategy : MergeStrategy) (current candidate : Symbol) : Bool :=
  match strategy with
  | .keepAll => false
  | .documented => betterDocumented current candidate
  | .base => true

/-- Adds a member to the merged ones, in the place of the one with its key if there is one. -/
def mergeInto (strategy : MergeStrategy) (member : Symbol) : List Symbol → List Symbol
  | [] => [member]
  | s :: rest =>
    if mergeKey s = mergeKey member then (if replaces strategy s member then member else s) :: rest
    else s :: mergeInto strategy member rest

def mergeAll (strategy : MergeStrategy) (members : List Symbol) : List Symbol :=
  if strategy = .keepAll then members
  else members.foldl (fun merged member => mergeInto strategy member merged) []

/-- A member with the words for its own class bound to `name`. -/
def withSelf (name : String) (member : Symbol) : Symbol :=
  let docType := member.doc.bind (·.type)
  let refers := (member.type.any TypeText.refersToSelf) || (docType.any TypeText.refersToSelf)
  if name.isEmpty || !refers then member
  else
    { member with
      type := member.type.map (·.withSelf name)
      doc := member.doc.map fun doc => { doc with type := doc.type.map (·.withSelf name) } }

/-- The members of the type itself and those it inherits; private members are inherited from traits only. -/
def allMembers (pool : SymbolPool) (h : Hierarchy) (p : Symbol → Bool) : List Symbol :=
  h.roots.flatMap (·.children.filter p) ++
    (h.associated pool).flatMap fun s =>
      s.children.filter fun child => (s.kind == .trait || !child.isPrivate) && p child

def members (pool : SymbolPool) (h : Hierarchy) (strategy : MergeStrategy) (p : Symbol → Bool) : List Symbol :=
  (mergeAll strategy (h.allMembers pool p)).map (withSelf h.name)

def leadingMember? (pool : SymbolPool) (h : Hierarchy) (p : Symbol → Bool) : Option Symbol :=
  (h.members pool .documented p).head?

end Hierarchy

end CodeAtlas
