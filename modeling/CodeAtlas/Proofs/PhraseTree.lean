import CodeAtlas.Reference.Pass
import Mathlib.Data.List.Forall2

/-!
# Trees of chosen phrases

A harvest says which phrases of a document are looked into, which of them stand for themselves, and what a phrase
contributes.  It gives each of the phrases that stand for themselves a node in a tree, with the file as the root: the
node holds what the phrases in it contribute, without those in an inner node.
-/

namespace CodeAtlas

/-- A chosen phrase, or the file, with what it holds itself and the chosen phrases in it. -/
structure PhraseTree (α : Type) where
  phrase : Option Phrase
  held : List α
  inner : List (PhraseTree α)

/-- Where parts match trees one by one, each part has its tree. -/
theorem PhraseTree.exists_of_mem {α β : Type} {M : β → PhraseTree α → Prop} {parts : List β}
    {trees : List (PhraseTree α)} (h : List.Forall₂ M parts trees) {b : β} (hb : b ∈ parts) : ∃ τ ∈ trees, M b τ := by
  induction h with
  | nil => cases hb
  | cons hm _ ih =>
    rcases List.mem_cons.1 hb with rfl | hb
    · exact ⟨_, List.mem_cons_self, hm⟩
    · obtain ⟨τ, hτ, hm⟩ := ih hb
      exact ⟨τ, List.mem_cons_of_mem _ hτ, hm⟩

/-- What is taken from the phrases of a document, and which of them it is grouped by. -/
structure Harvest (α : Type) where
  /-- The phrases that are looked into. -/
  enters : PhraseKind → Bool
  /-- The phrases that get a node of their own; they contribute nothing themselves. -/
  chooses : PhraseKind → Bool
  items : Phrase → List α

namespace Harvest

variable {α : Type} (g : Harvest α)

mutual

/-- What the node of a tree contributes to the chosen phrase around it. -/
def held : Node → List α
  | .token _ => []
  | .phrase kind children =>
    if g.enters kind && !g.chooses kind then g.items ⟨kind, children⟩ ++ heldIn children else []

def heldIn : List Node → List α
  | [] => []
  | n :: ns => held n ++ heldIn ns

end

mutual

/-- The outermost chosen phrases at or below a node. -/
def trees : Node → List (PhraseTree α)
  | .token _ => []
  | .phrase kind children =>
    if g.enters kind then
      if g.chooses kind then [.mk (some ⟨kind, children⟩) (g.heldIn children) (treesIn children)] else treesIn children
    else []

def treesIn : List Node → List (PhraseTree α)
  | [] => []
  | n :: ns => trees n ++ treesIn ns

end

/-- The tree of a whole document. -/
def ofRoot (root : Phrase) : PhraseTree α :=
  .mk none (g.held root.toNode) (g.trees root.toNode)

section

variable {g} {p : Phrase}

theorem held_refused (h : g.enters p.kind = false) : g.held p.toNode = [] := by
  rw [Phrase.toNode, held, h]
  rfl

theorem trees_refused (h : g.enters p.kind = false) : g.trees p.toNode = [] := by
  rw [Phrase.toNode, trees, h]
  rfl

theorem held_plain (h : g.enters p.kind = true) (hc : g.chooses p.kind = false) :
    g.held p.toNode = g.items p ++ g.heldIn p.children := by
  rw [Phrase.toNode, held, h, hc]
  rfl

theorem trees_plain (h : g.enters p.kind = true) (hc : g.chooses p.kind = false) :
    g.trees p.toNode = g.treesIn p.children := by
  rw [Phrase.toNode, trees, h, hc]
  rfl

theorem held_chosen (h : g.enters p.kind = true) (hc : g.chooses p.kind = true) : g.held p.toNode = [] := by
  rw [Phrase.toNode, held, h, hc]
  rfl

theorem trees_chosen (h : g.enters p.kind = true) (hc : g.chooses p.kind = true) :
    g.trees p.toNode = [.mk (some p) (g.heldIn p.children) (g.treesIn p.children)] := by
  rw [Phrase.toNode, trees, h, hc]
  rfl

end

end Harvest

/-! ### The place of a chosen phrase -/

namespace Source

/-- The range of a phrase, or of the whole document. -/
def rangeOf (src : Source) : Option Phrase → Range
  | none => src.lines.range 0 src.document.text.utf8ByteSize
  | some p => src.range p

/-- The location of a phrase, or of the whole document. -/
def locationOf (src : Source) : Option Phrase → Option Location
  | none => some ⟨src.document.uri, src.lines.range 0 src.document.text.utf8ByteSize⟩
  | some p => src.location? p

end Source

end CodeAtlas
