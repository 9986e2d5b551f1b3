import CodeAtlas.Tree.Basic

/-!
# Walking a tree

A visitor is a state that changes when a phrase is entered, when it is left and at each token.  Entering may refuse a
phrase, which skips everything below it and its `leave`.  Each step sees the path of enclosing phrases, innermost
first.

`Visitor.walk` is the plain recursion over the tree, and `Visitor.traverse` runs the same walk in rounds, with the open
phrases on one stack and the numbers of their next children on another.
-/

namespace CodeAtlas

structure Visitor (σ : Type) where
  /-- The state after entering, and whether to look inside. -/
  enter : σ → Phrase → List Phrase → σ × Bool
  leave : σ → Phrase → List Phrase → σ
  token : σ → Token → List Phrase → σ

/-! ### The recursive walk -/

namespace Visitor

variable {σ : Type}

mutual

/-- Visits a node whose enclosing phrases are `path`. -/
def walkNode (v : Visitor σ) (path : List Phrase) : Node → σ → σ
  | .token t, s => v.token s t path
  | .phrase kind children, s =>
    match v.enter s ⟨kind, children⟩ path with
    | (s, false) => s
    | (s, true) => v.leave (walkNodes v (⟨kind, children⟩ :: path) children s) ⟨kind, children⟩ path

def walkNodes (v : Visitor σ) (path : List Phrase) : List Node → σ → σ
  | [], s => s
  | n :: ns, s => walkNodes v path ns (walkNode v path n s)

end

/-- The recursive walk over a whole tree. -/
def walk (v : Visitor σ) (root : Phrase) (s : σ) : σ :=
  v.walkNode [] root.toNode s

/-! ### The walk in rounds -/

/-- A walk under way: the open phrases, innermost first, the number of the next child of each, and the state of the
visitor. -/
structure Walking (σ : Type) where
  spine : List Phrase
  cursors : List Nat
  state : σ

/-- One round moves the cursor of the innermost open phrase on and visits the child that it stood at, or closes the
phrase when there is no such child.  No round is left when no phrase is open. -/
def advance? (v : Visitor σ) (w : Walking σ) : Option (Walking σ) :=
  match w.spine, w.cursors with
  | phrase :: outer, next :: cursors =>
    match phrase.children[next]? with
    | some (.token t) => some ⟨phrase :: outer, (next + 1) :: cursors, v.token w.state t (phrase :: outer)⟩
    | some (.phrase kind children) =>
      match v.enter w.state ⟨kind, children⟩ (phrase :: outer) with
      | (s, false) => some ⟨phrase :: outer, (next + 1) :: cursors, s⟩
      | (s, true) => some ⟨⟨kind, children⟩ :: phrase :: outer, 0 :: (next + 1) :: cursors, s⟩
    | none => some ⟨outer, cursors, v.leave w.state phrase outer⟩
  | _, _ => none

mutual

/-- The number of rounds a node can take. -/
def nodeRounds : Node → Nat
  | .token _ => 1
  | .phrase _ children => 2 + nodesRounds children

def nodesRounds : List Node → Nat
  | [] => 0
  | n :: ns => nodeRounds n + nodesRounds ns

end

/-- The number of rounds that open phrases can still take: for each its children from the cursor on, and its end. -/
def openRounds : List Phrase → List Nat → Nat
  | phrase :: outer, next :: cursors => 1 + nodesRounds (phrase.children.drop next) + openRounds outer cursors
  | _, _ => 0

theorem nodesRounds_drop {ns : List Node} {i : Nat} {n : Node} (h : ns[i]? = some n) :
    nodesRounds (ns.drop i) = nodeRounds n + nodesRounds (ns.drop (i + 1)) := by
  obtain ⟨hi, rfl⟩ := List.getElem?_eq_some_iff.1 h
  rw [List.drop_eq_getElem_cons hi, nodesRounds]

/-- Each round leaves fewer rounds to take. -/
theorem openRounds_advance {v : Visitor σ} {w w' : Walking σ} (h : v.advance? w = some w') :
    openRounds w'.spine w'.cursors < openRounds w.spine w.cursors := by
  obtain ⟨spine, counts, s⟩ := w
  unfold advance? at h
  split at h
  · rename_i phrase outer next cursors hspine hcounts
    obtain rfl : spine = phrase :: outer := hspine
    obtain rfl : counts = next :: cursors := hcounts
    split at h
    · rename_i t ht
      cases h
      have := nodesRounds_drop ht
      simp only [openRounds, nodeRounds] at *
      omega
    · rename_i kind children hn
      have := nodesRounds_drop hn
      split at h <;> cases h <;> simp only [openRounds, nodeRounds, List.drop_zero] at * <;> omega
    · cases h
      simp only [openRounds]
      omega
  · cases h

/-- Takes rounds until none is left. -/
def run (v : Visitor σ) (w : Walking σ) : σ :=
  match _ : v.advance? w with
  | none => w.state
  | some w' => run v w'
termination_by openRounds w.spine w.cursors
decreasing_by exact openRounds_advance ‹_›

/-- The walk right after its root is entered; no phrase is open if the root is refused. -/
def start (v : Visitor σ) (root : Phrase) (s : σ) : Walking σ :=
  match v.enter s root [] with
  | (s, false) => ⟨[], [], s⟩
  | (s, true) => ⟨[root], [0], s⟩

/-- The walk over a whole tree, round by round. -/
def traverse (v : Visitor σ) (root : Phrase) (s : σ) : σ :=
  v.run (v.start root s)

end Visitor

end CodeAtlas
