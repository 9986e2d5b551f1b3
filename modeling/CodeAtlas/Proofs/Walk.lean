import CodeAtlas.Tree.Walk

/-!
# Walks

The walk that goes in rounds comes to an end, in the state of the recursive one (`ends_start`, `traverse_eq_walk`), so
that every statement about a pass can be proved along the tree.  Three tools for such proofs follow.

* What each step of a visitor keeps, the whole walk keeps; and if entering opens one level and leaving closes one, the
  walk ends at the level where it began (`Balanced.traverse`).
* Two visitors that enter the same phrases can be followed side by side: a relation between their states that each step
  keeps holds at the end of the walk (`Related.traverse`).
* `visit?` tells in which state a walk comes to the phrase at a given place of the tree: the siblings before it have been
  walked, and everything around it has been entered (`visitBelow_entered`).
-/

namespace CodeAtlas

namespace Visitor

variable {σ : Type} (v : Visitor σ)

theorem walkNode_refused {kind : PhraseKind} {children : List Node} {path : List Phrase} {s s' : σ}
    (h : v.enter s ⟨kind, children⟩ path = (s', false)) : v.walkNode path (.phrase kind children) s = s' := by
  rw [walkNode, h]

theorem walkNode_entered {kind : PhraseKind} {children : List Node} {path : List Phrase} {s s' : σ}
    (h : v.enter s ⟨kind, children⟩ path = (s', true)) : v.walkNode path (.phrase kind children) s =
      v.leave (v.walkNodes (⟨kind, children⟩ :: path) children s') ⟨kind, children⟩ path := by
  rw [walkNode, h]

/-! ### The rounds -/

section

variable {v}

/-- From here the rounds come to an end, in the given state. -/
inductive Ends (v : Visitor σ) : Walking σ → σ → Prop
  | stop {w : Walking σ} (h : v.advance? w = none) : Ends v w w.state
  | round {w w' : Walking σ} {s : σ} (h : v.advance? w = some w') (rest : Ends v w' s) : Ends v w s

theorem Ends.run_eq {w : Walking σ} {s : σ} (h : v.Ends w s) : v.run w = s := by
  induction h with
  | stop h =>
    rw [run]
    split
    · rfl
    · rename_i h'
      rw [h] at h'
      cases h'
  | round h _ ih =>
    rw [run]
    split
    · rename_i h'
      rw [h] at h'
      cases h'
    · rename_i h'
      rw [h] at h'
      cases h'
      exact ih

variable {phrase : Phrase} {outer : List Phrase} {next : Nat} {cursors : List Nat} {s r : σ}

theorem advance_token {t : Token} (h : phrase.children[next]? = some (.token t)) :
    v.advance? ⟨phrase :: outer, next :: cursors, s⟩ =
      some ⟨phrase :: outer, (next + 1) :: cursors, v.token s t (phrase :: outer)⟩ := by
  simp only [advance?, h]

theorem advance_refused {kind : PhraseKind} {children : List Node} {s' : σ}
    (h : phrase.children[next]? = some (.phrase kind children))
    (he : v.enter s ⟨kind, children⟩ (phrase :: outer) = (s', false)) :
    v.advance? ⟨phrase :: outer, next :: cursors, s⟩ = some ⟨phrase :: outer, (next + 1) :: cursors, s'⟩ := by
  simp only [advance?, h, he]

theorem advance_entered {kind : PhraseKind} {children : List Node} {s' : σ}
    (h : phrase.children[next]? = some (.phrase kind children))
    (he : v.enter s ⟨kind, children⟩ (phrase :: outer) = (s', true)) :
    v.advance? ⟨phrase :: outer, next :: cursors, s⟩ =
      some ⟨⟨kind, children⟩ :: phrase :: outer, 0 :: (next + 1) :: cursors, s'⟩ := by
  simp only [advance?, h, he]

theorem advance_closed (h : phrase.children[next]? = none) :
    v.advance? ⟨phrase :: outer, next :: cursors, s⟩ = some ⟨outer, cursors, v.leave s phrase outer⟩ := by
  simp only [advance?, h]

mutual

/-- The rounds for one child do to the state what the recursion does, and move the cursor behind it. -/
private theorem Ends.child : ∀ (n : Node) {phrase : Phrase} {outer : List Phrase} {next : Nat} {cursors : List Nat}
    {s r : σ}, phrase.children[next]? = some n →
    v.Ends ⟨phrase :: outer, (next + 1) :: cursors, v.walkNode (phrase :: outer) n s⟩ r →
    v.Ends ⟨phrase :: outer, next :: cursors, s⟩ r
  | .token t, _, _, _, _, _, _, hn, h => by
    rw [walkNode] at h
    exact .round (advance_token hn) h
  | .phrase kind children, phrase, outer, _, _, s, _, hn, h => by
    rcases he : v.enter s ⟨kind, children⟩ (phrase :: outer) with ⟨s', entered⟩
    cases entered with
    | false =>
      rw [walkNode_refused v he] at h
      exact .round (advance_refused hn he) h
    | true =>
      rw [walkNode_entered v he] at h
      exact .round (advance_entered hn he) (Ends.children children rfl h)

/-- The rounds for the children from the cursor on, and the last one, which closes the phrase. -/
private theorem Ends.children : ∀ (ns : List Node) {phrase : Phrase} {outer : List Phrase} {next : Nat}
    {cursors : List Nat} {s r : σ}, phrase.children.drop next = ns →
    v.Ends ⟨outer, cursors, v.leave (v.walkNodes (phrase :: outer) ns s) phrase outer⟩ r →
    v.Ends ⟨phrase :: outer, next :: cursors, s⟩ r
  | [], _, _, _, _, _, _, hns, h => by
    rw [walkNodes] at h
    exact .round (advance_closed (List.getElem?_eq_none (List.drop_eq_nil_iff.1 hns))) h
  | n :: ns, phrase, _, next, _, _, _, hns, h => by
    have hn : phrase.children[next]? = some n := by
      rw [← List.head?_drop, hns]
      rfl
    have hrest : phrase.children.drop (next + 1) = ns := by
      rw [← List.tail_drop, hns]
      rfl
    rw [walkNodes] at h
    exact Ends.child n hn (Ends.children ns hrest h)

end

end

/-- The rounds end in the state of the recursive walk. -/
theorem ends_start (root : Phrase) (s : σ) : v.Ends (v.start root s) (v.walk root s) := by
  have hstop : ∀ s' : σ, v.Ends ⟨[], [], s'⟩ s' := fun s' => .stop rfl
  unfold start walk Phrase.toNode
  rcases he : v.enter s root [] with ⟨s', entered⟩
  cases entered with
  | false =>
    rw [walkNode_refused v he]
    exact hstop s'
  | true =>
    rw [walkNode_entered v he]
    exact Ends.children root.children rfl (hstop _)

/-- The walk that keeps its open phrases on a stack is the recursive walk. -/
theorem traverse_eq_walk (root : Phrase) (s : σ) : v.traverse root s = v.walk root s :=
  (v.ends_start root s).run_eq

/-! ### What a walk keeps -/

/-- Every step keeps `inv`; entering a phrase opens one level and leaving it closes one. -/
structure Balanced (inv : σ → Prop) (level : σ → Nat) : Prop where
  enter : ∀ s p path, inv s →
    inv (v.enter s p path).1 ∧ level (v.enter s p path).1 = level s + (v.enter s p path).2.toNat
  leave : ∀ s p path, inv s → inv (v.leave s p path) ∧ level (v.leave s p path) = level s - 1
  token : ∀ s t path, inv s → inv (v.token s t path) ∧ level (v.token s t path) = level s

namespace Balanced

variable {v : Visitor σ} {inv : σ → Prop} {level : σ → Nat}

mutual

theorem walkNode (hv : v.Balanced inv level) (path : List Phrase) :
    ∀ (n : Node) (s : σ), inv s → inv (v.walkNode path n s) ∧ level (v.walkNode path n s) = level s
  | .token t, s, hs => by
    rw [Visitor.walkNode]
    exact hv.token s t path hs
  | .phrase kind children, s, hs => by
    have he := hv.enter s ⟨kind, children⟩ path hs
    rcases h : v.enter s ⟨kind, children⟩ path with ⟨s', entered⟩
    rw [h] at he
    cases entered with
    | false =>
      rw [walkNode_refused v h]
      exact he
    | true =>
      rw [walkNode_entered v h]
      have hc := hv.walkNodes (⟨kind, children⟩ :: path) children s' he.1
      have hl := hv.leave _ ⟨kind, children⟩ path hc.1
      have hopen : level s' = level s + 1 := he.2
      exact ⟨hl.1, by rw [hl.2, hc.2, hopen]; rfl⟩

theorem walkNodes (hv : v.Balanced inv level) (path : List Phrase) :
    ∀ (ns : List Node) (s : σ), inv s → inv (v.walkNodes path ns s) ∧ level (v.walkNodes path ns s) = level s
  | [], s, hs => by
    rw [Visitor.walkNodes]
    exact ⟨hs, rfl⟩
  | n :: ns, s, hs => by
    have hn := hv.walkNode path n s hs
    have hns := hv.walkNodes path ns _ hn.1
    rw [Visitor.walkNodes]
    exact ⟨hns.1, hns.2.trans hn.2⟩

end

/-- A whole walk keeps the invariant and ends at the level where it began. -/
theorem traverse (hv : v.Balanced inv level) (root : Phrase) {s : σ} (hs : inv s) :
    inv (v.traverse root s) ∧ level (v.traverse root s) = level s := by
  rw [traverse_eq_walk]
  exact hv.walkNode [] root.toNode s hs

end Balanced

/-! ### Two walks side by side -/

/-- Both visitors enter the same phrases, and each of their steps keeps `R` between their states. -/
structure Related {τ : Type} (v : Visitor σ) (v' : Visitor τ) (R : σ → τ → Prop) : Prop where
  enter : ∀ s s' p path, R s s' →
    R (v.enter s p path).1 (v'.enter s' p path).1 ∧ (v'.enter s' p path).2 = (v.enter s p path).2
  leave : ∀ s s' p path, R s s' → R (v.leave s p path) (v'.leave s' p path)
  token : ∀ s s' t path, R s s' → R (v.token s t path) (v'.token s' t path)

namespace Related

variable {τ : Type} {v : Visitor σ} {v' : Visitor τ} {R : σ → τ → Prop}

mutual

theorem walkNode (hv : v.Related v' R) (path : List Phrase) :
    ∀ (n : Node) (s : σ) (s' : τ), R s s' → R (v.walkNode path n s) (v'.walkNode path n s')
  | .token t, s, s', hs => by
    rw [Visitor.walkNode, Visitor.walkNode]
    exact hv.token s s' t path hs
  | .phrase kind children, s, s', hs => by
    have he := hv.enter s s' ⟨kind, children⟩ path hs
    rcases h : v.enter s ⟨kind, children⟩ path with ⟨s₁, entered⟩
    rcases h' : v'.enter s' ⟨kind, children⟩ path with ⟨s₁', entered'⟩
    rw [h, h'] at he
    obtain ⟨hR, rfl⟩ : R s₁ s₁' ∧ entered' = entered := he
    cases entered' with
    | false =>
      rw [walkNode_refused v h, walkNode_refused v' h']
      exact hR
    | true =>
      rw [walkNode_entered v h, walkNode_entered v' h']
      exact hv.leave _ _ _ _ (hv.walkNodes (⟨kind, children⟩ :: path) children s₁ s₁' hR)

theorem walkNodes (hv : v.Related v' R) (path : List Phrase) :
    ∀ (ns : List Node) (s : σ) (s' : τ), R s s' → R (v.walkNodes path ns s) (v'.walkNodes path ns s')
  | [], s, s', hs => by
    rw [Visitor.walkNodes, Visitor.walkNodes]
    exact hs
  | n :: ns, s, s', hs => by
    rw [Visitor.walkNodes, Visitor.walkNodes]
    exact hv.walkNodes path ns _ _ (hv.walkNode path n s s' hs)

end

/-- Whole walks of the same tree keep `R`. -/
theorem traverse (hv : v.Related v' R) (root : Phrase) {s : σ} {s' : τ} (hs : R s s') :
    R (v.traverse root s) (v'.traverse root s') := by
  rw [traverse_eq_walk, traverse_eq_walk]
  exact hv.walkNode [] root.toNode s s' hs

end Related

/-- What every step of a walk keeps, the whole walk keeps. -/
theorem traverse_keeps {v : Visitor σ} (inv : σ → Prop) (enter : ∀ s p path, inv s → inv (v.enter s p path).1)
    (leave : ∀ s p path, inv s → inv (v.leave s p path)) (token : ∀ s t path, inv s → inv (v.token s t path))
    (root : Phrase) {s : σ} (hs : inv s) : inv (v.traverse root s) := by
  have hv : v.Related v fun s s' => s' = s ∧ inv s := by
    constructor
    · rintro s _ p path ⟨rfl, h⟩
      exact ⟨⟨rfl, enter _ p path h⟩, rfl⟩
    · rintro s _ p path ⟨rfl, h⟩
      exact ⟨rfl, leave _ p path h⟩
    · rintro s _ t path ⟨rfl, h⟩
      exact ⟨rfl, token _ t path h⟩
  exact (hv.traverse root ⟨rfl, hs⟩).2

/-! ### Visits -/

theorem walkNodes_append (path : List Phrase) (ms ns : List Node) (s : σ) :
    v.walkNodes path (ms ++ ns) s = v.walkNodes path ns (v.walkNodes path ms s) := by
  induction ms generalizing s with
  | nil => rw [List.nil_append, walkNodes]
  | cons m ms ih => rw [List.cons_append, walkNodes, walkNodes, ih]

end Visitor

/-- A phrase that a walk comes to. -/
structure Visit (σ : Type) where
  phrase : Phrase
  /-- The phrases around it, innermost first. -/
  path : List Phrase
  /-- The state in which the phrase is entered. -/
  before : σ

namespace Visit

variable {σ : Type}

/-- The state right after the phrase is entered. -/
def after (v : Visitor σ) (e : Visit σ) : σ :=
  (v.enter e.before e.phrase e.path).1

/-- The state right before the phrase is left. -/
def last (v : Visitor σ) (e : Visit σ) : σ :=
  v.walkNodes (e.phrase :: e.path) e.phrase.children (e.after v)

end Visit

namespace Visitor

variable {σ : Type} (v : Visitor σ)

/-- The visit of the phrase that is reached from `p` by taking the child with the given number at each level; there is
none where a phrase on the way is refused. -/
def visitBelow? : List Nat → Phrase → List Phrase → σ → Option (Visit σ)
  | [], p, path, s => some ⟨p, path, s⟩
  | i :: place, p, path, s =>
    match v.enter s p path with
    | (_, false) => none
    | (s, true) =>
      match p.children[i]? with
      | some (.phrase kind children) =>
        visitBelow? place ⟨kind, children⟩ (p :: path) (v.walkNodes (p :: path) (p.children.take i) s)
      | _ => none

section

variable {v} {i : Nat} {place : List Nat} {p : Phrase} {path : List Phrase} {s s' : σ}

theorem visitBelow_refused (h : v.enter s p path = (s', false)) : v.visitBelow? (i :: place) p path s = none := by
  rw [visitBelow?, h]

theorem visitBelow_entered (h : v.enter s p path = (s', true)) {kind : PhraseKind} {children : List Node}
    (hc : p.children[i]? = some (.phrase kind children)) : v.visitBelow? (i :: place) p path s =
      v.visitBelow? place ⟨kind, children⟩ (p :: path) (v.walkNodes (p :: path) (p.children.take i) s') := by
  rw [visitBelow?, h]
  simp only
  rw [hc]

/-- A visit below a phrase is one below some child of it. -/
theorem visitBelow_cons {r : Visit σ} (h : v.visitBelow? (i :: place) p path s = some r) :
    ∃ s' kind children, v.enter s p path = (s', true) ∧ p.children[i]? = some (.phrase kind children) ∧
      v.visitBelow? place ⟨kind, children⟩ (p :: path) (v.walkNodes (p :: path) (p.children.take i) s') = some r := by
  rw [visitBelow?] at h
  split at h
  · cases h
  · rename_i s' he
    split at h
    · rename_i kind children hc
      exact ⟨s', kind, children, he, hc, h⟩
    · cases h

end

/-- The visit of the phrase at a place of the tree. -/
def visit? (root : Phrase) (s : σ) (place : List Nat) : Option (Visit σ) :=
  v.visitBelow? place root [] s

end Visitor

end CodeAtlas
