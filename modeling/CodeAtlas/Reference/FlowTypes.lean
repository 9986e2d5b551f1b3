import CodeAtlas.TypeText

/-!
# Types of variables

The table follows the flow of a program.  It is a stack of frames: a scope frame starts a function and hides what is
below it, a branch frame holds what is assigned in one arm of a conditional and lets look-ups through.  A finished
branch waits at the frame below; `mergeBranches` folds the waiting branches into one union for each variable.
-/

namespace CodeAtlas

inductive FlowKind where
  | scope | branch
  deriving DecidableEq, Repr

/-- Variables in the order of their first assignment, and the finished branches that wait to be merged. -/
structure FlowFrame where
  kind : FlowKind
  types : List (String × TypeText)
  branches : List FlowFrame

namespace FlowFrame

def empty (kind : FlowKind) : FlowFrame :=
  ⟨kind, [], []⟩

def get? (f : FlowFrame) (name : String) : Option TypeText :=
  f.types.lookup name

/-- Replaces the type of a variable, or adds the variable at the end. -/
def assign (name : String) (type : TypeText) : List (String × TypeText) → List (String × TypeText)
  | [] => [(name, type)]
  | (n, t) :: rest => if n = name then (n, type) :: rest else (n, t) :: assign name type rest

def set (f : FlowFrame) (name : String) (type : TypeText) : FlowFrame :=
  { f with types := assign name type f.types }

def names (f : FlowFrame) : List String :=
  f.types.map (·.1)

end FlowFrame

/-- The innermost frame and the frames below it. -/
structure FlowTypes where
  top : FlowFrame
  below : List FlowFrame

namespace FlowTypes

def empty : FlowTypes :=
  ⟨FlowFrame.empty .scope, []⟩

def depth (t : FlowTypes) : Nat :=
  t.below.length + 1

/-- The type of a variable in the first frame that has it, looking no further than the first scope frame. -/
def typeIn (name : String) : List FlowFrame → TypeText
  | [] => TypeText.empty
  | f :: rest =>
    match f.get? name with
    | some type => type
    | none => if f.kind = .scope then TypeText.empty else typeIn name rest

def typeOf (t : FlowTypes) (name : String) : TypeText :=
  typeIn name (t.top :: t.below)

def setType (t : FlowTypes) (name : String) (type : TypeText) : FlowTypes :=
  { t with top := t.top.set name type }

/-- Opens a scope in which the carried variables have their current types. -/
def enterScope (t : FlowTypes) (carried : List String) : FlowTypes :=
  let frame := carried.foldl (fun f name => f.set name (t.typeOf name)) (FlowFrame.empty .scope)
  ⟨frame, t.top :: t.below⟩

/-- Closes the innermost scope; without one above the first, nothing happens. -/
def leaveScope (t : FlowTypes) : FlowTypes :=
  match t.top.kind, t.below with
  | .scope, parent :: rest => ⟨parent, rest⟩
  | _, _ => t

def startBranch (t : FlowTypes) : FlowTypes :=
  ⟨FlowFrame.empty .branch, t.top :: t.below⟩

/-- Closes the innermost branch and leaves it waiting at the frame below. -/
def endBranch (t : FlowTypes) : FlowTypes :=
  match t.top.kind, t.below with
  | .branch, parent :: rest => ⟨{ parent with branches := parent.branches ++ [t.top] }, rest⟩
  | _, _ => t

/-- The type of a variable after the branches: the union of its types in them, and also of the type before if some
branch does not assign it. -/
def mergedType (before : TypeText) (branches : List FlowFrame) (name : String) : TypeText :=
  let start := if branches.all fun b => (b.get? name).isSome then TypeText.empty else before
  branches.foldl
    (fun type b =>
      match b.get? name with
      | some t => type.merge t
      | none => type)
    start

/-- Merges the branches waiting at the innermost frame into it. -/
def mergeBranches (t : FlowTypes) : FlowTypes :=
  let branches := t.top.branches
  let cleared : FlowTypes := { t with top := { t.top with branches := [] } }
  let names := (branches.flatMap FlowFrame.names).eraseDups
  (names.map fun name => (name, mergedType (cleared.typeOf name) branches name)).foldl
    (fun t (name, type) => t.setType name type) cleared

/-- The names seen from the frames, innermost frame first, no further than the first scope frame. -/
def namesIn : List FlowFrame → List String
  | [] => []
  | f :: rest => f.names ++ if f.kind = .scope then [] else namesIn rest

def visibleNames (t : FlowTypes) : List String :=
  (namesIn (t.top :: t.below)).eraseDups

end FlowTypes

end CodeAtlas
