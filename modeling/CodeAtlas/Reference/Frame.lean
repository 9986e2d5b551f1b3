import CodeAtlas.Symbol.Basic
import CodeAtlas.Tree.Kind

/-!
# Frames of the reference walk

Each open phrase has a frame, which holds the results of the phrases inside it and says what to make of them when the
phrase is left.  A cursor goes through the children of an open declaration, so that each declaration phrase can be
paired with its symbol.
-/

namespace CodeAtlas

/-- What a finished phrase means to the phrase around it. -/
structure Outcome where
  type : TypeText
  /-- The name of the variable, if the phrase is a plain variable. -/
  variableName : Option String
  /-- The place of its reference among those of the current scope. -/
  reference : Option Nat
  deriving DecidableEq, Repr

def Outcome.typed (type : TypeText) : Outcome :=
  ⟨type, none, none⟩

/-- The union of the types of some outcomes. -/
def Outcome.union (outcomes : List Outcome) : TypeText :=
  outcomes.foldl (fun type o => type.merge o.type) TypeText.empty

/-- How the outcomes inside a phrase become its own. -/
inductive Reduction where
  /-- There is no outcome. -/
  | discard
  /-- The first one. -/
  | first
  /-- The union of all types. -/
  | union
  /-- The union of the arms. -/
  | ternary
  /-- A fixed type. -/
  | typed (type : TypeText)
  /-- A name that stands for something of the given kind. -/
  | name (kind : SymbolKind)
  | variableName
  | assignment
  | objectCreation
  | call
  /-- An access to a member of the given kind. -/
  | member (kind : SymbolKind)
  | instanceOf
  | arrayCreation
  | arrayElement
  | subscript
  | foreachValue
  | catching
  | closureUse
  /-- A conditional, and whether it has an `else`. -/
  | conditional (hasElse : Bool)
  /-- A switch, whether one of its arms is open, and whether it has a default. -/
  | switch (armOpen hasDefault : Bool)
  deriving DecidableEq, Repr

/-- What to undo when a phrase is left. -/
inductive Unwinding where
  | nothing | leaveClass | leaveFunction | leaveSpace
  deriving DecidableEq, Repr

structure ReferenceFrame where
  kind : PhraseKind
  transform : Reduction
  exit : Unwinding
  outcomes : List Outcome
  deriving DecidableEq, Repr

/-- The families of declarations, each paired with its symbols in order. -/
inductive DeclarationFamily where
  | imported | classLike | anonymousClass | function | closure | method
  deriving DecidableEq, Repr

/-- Whether a symbol belongs to a family. -/
def DeclarationFamily.includes (family : DeclarationFamily) (s : Symbol) : Bool :=
  match family with
  | .imported => s.isImport
  | .classLike => s.kind.isClassLike && !s.isAnonymous && !s.isImport
  | .anonymousClass => s.kind == .cls && s.isAnonymous
  | .function => s.kind == .function && !s.isAnonymous && !s.isImport
  | .closure => s.kind == .function && s.isAnonymous
  | .method => s.kind == .method && !s.isMagic

/-- An open declaration, and how many of its children of each family are used up. -/
structure Cursor where
  symbol : Symbol
  used : DeclarationFamily → Nat

namespace Cursor

def ofSymbol (s : Symbol) : Cursor :=
  ⟨s, fun _ => 0⟩

/-- The next child of a family. -/
def next? (c : Cursor) (family : DeclarationFamily) : Option Symbol :=
  (c.symbol.children.filter family.includes)[c.used family]?

/-- The cursor after the next child of a family is taken. -/
def advance (c : Cursor) (family : DeclarationFamily) : Cursor :=
  { c with used := fun f => if f = family then c.used f + 1 else c.used f }

/-- The first child of the given kind and name. -/
def child? (c : Cursor) (kind : SymbolKind) (name : String) : Option Symbol :=
  c.symbol.children.find? fun child => child.kind == kind && child.name == name

end Cursor

end CodeAtlas
