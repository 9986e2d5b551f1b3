import CodeAtlas.Reference.Pass

/-!
# Growing scopes

A scope grows when references are recorded in it and scopes are closed in it.  What was there before stays in its place:
each reference becomes one that stands in a given relation to it, and each inner scope grows (`ScopeTree.Grows`).  The
relation is equality, or `Reference.SameButType` where references get other types.

On the stack of open scopes only the innermost one grows, and at most one scope is opened or closed at a time
(`StackGrows`).  So the scope of the whole file grows (`StackGrows.root`), and a scope that stays open keeps its place
above the same scopes (`StackGrows.keeps`).
-/

namespace CodeAtlas

/-- The second list begins with elements that stand in the relation to those of the first, one by one. -/
inductive Prolongs {α : Type} (R : α → α → Prop) : List α → List α → Prop
  | nil {l : List α} : Prolongs R [] l
  | cons {a b : α} {l l' : List α} (head : R a b) (tail : Prolongs R l l') : Prolongs R (a :: l) (b :: l')

namespace Prolongs

variable {α : Type} {R : α → α → Prop} {l l' l'' : List α}

theorem refl (hR : ∀ a, R a a) : ∀ l : List α, Prolongs R l l
  | [] => .nil
  | a :: l => .cons (hR a) (refl hR l)

theorem trans (hR : ∀ a b c, R a b → R b c → R a c) (h : Prolongs R l l') (h' : Prolongs R l' l'') :
    Prolongs R l l'' := by
  induction h generalizing l'' with
  | nil => exact .nil
  | cons hab _ ih =>
    cases h' with
    | cons hbc htail => exact .cons (hR _ _ _ hab hbc) (ih htail)

theorem append (h : Prolongs R l l') (more : List α) : Prolongs R l (l' ++ more) := by
  induction h with
  | nil => exact .nil
  | cons hab _ ih => exact .cons hab ih

/-- The last element may change as well. -/
theorem append_of {a b : α} (hR : ∀ a, R a a) (h : R a b) (l : List α) : Prolongs R (l ++ [a]) (l ++ [b]) := by
  induction l with
  | nil => exact .cons h .nil
  | cons c l ih => exact .cons (hR c) ih

theorem modify {f : α → α} (hR : ∀ a, R a a) (hf : ∀ a, R a (f a)) (l : List α) (n : Nat) :
    Prolongs R l (l.modify n f) := by
  induction l generalizing n with
  | nil => exact .nil
  | cons a l ih =>
    cases n with
    | zero => exact .cons (hf a) (refl hR l)
    | succ n => exact .cons (hR a) (ih n)

theorem getElem? (h : Prolongs R l l') {i : Nat} {a : α} (ha : l[i]? = some a) : ∃ b, l'[i]? = some b ∧ R a b := by
  induction h generalizing i with
  | nil => cases ha
  | cons hab _ ih =>
    cases i with
    | zero =>
      cases ha
      exact ⟨_, rfl, hab⟩
    | succ i => exact ih ha

end Prolongs

/-- The same reference, whatever its type is now. -/
structure Reference.SameButType (r r' : Reference) : Prop where
  kind : r'.kind = r.kind
  name : r'.name = r.name
  range : r'.range = r.range
  altName : r'.altName = r.altName
  scope : r'.scope = r.scope

namespace Reference.SameButType

theorem refl (r : Reference) : r.SameButType r :=
  ⟨rfl, rfl, rfl, rfl, rfl⟩

theorem trans (r r' r'' : Reference) (h : r.SameButType r') (h' : r'.SameButType r'') : r.SameButType r'' :=
  ⟨h'.kind.trans h.kind, h'.name.trans h.name, h'.range.trans h.range, h'.altName.trans h.altName,
    h'.scope.trans h.scope⟩

theorem withType (r : Reference) (type : TypeText) : r.SameButType (r.withType type) :=
  ⟨rfl, rfl, rfl, rfl, rfl⟩

end Reference.SameButType

/-! ### Scopes -/

/-- The second scope is the first one later on: its references and its inner scopes come first, in the same places. -/
inductive ScopeTree.Grows (R : Reference → Reference → Prop) : ScopeTree → ScopeTree → Prop
  | mk {scope scope' : ScopeTree} (range : scope'.range = scope.range)
    (references : Prolongs R scope.references scope'.references)
    (children : Prolongs (ScopeTree.Grows R) scope.children scope'.children) : ScopeTree.Grows R scope scope'

namespace ScopeTree.Grows

variable {R : Reference → Reference → Prop} {scope scope' : ScopeTree}

theorem references (h : scope.Grows R scope') : Prolongs R scope.references scope'.references := by
  cases h with
  | mk _ hr _ => exact hr

mutual

theorem refl (hR : ∀ r, R r r) : ∀ scope : ScopeTree, scope.Grows R scope
  | ⟨_, references, children⟩ => .mk rfl (Prolongs.refl hR references) (refl_all hR children)

theorem refl_all (hR : ∀ r, R r r) : ∀ l : List ScopeTree, Prolongs (Grows R) l l
  | [] => .nil
  | scope :: l => .cons (refl hR scope) (refl_all hR l)

end

mutual

theorem trans (hR : ∀ a b c, R a b → R b c → R a c) :
    ∀ a b c : ScopeTree, a.Grows R b → b.Grows R c → a.Grows R c
  | ⟨_, _, children⟩, _, _, .mk hrange hr hc, .mk hrange' hr' hc' =>
    .mk (hrange'.trans hrange) (hr.trans hR hr') (trans_all hR children hc hc')

theorem trans_all (hR : ∀ a b c, R a b → R b c → R a c) : ∀ (l : List ScopeTree) {l' l'' : List ScopeTree},
    Prolongs (Grows R) l l' → Prolongs (Grows R) l' l'' → Prolongs (Grows R) l l''
  | [], _, _, _, _ => .nil
  | scope :: l, _, _, .cons h htail, .cons h' htail' => .cons (trans hR scope _ _ h h') (trans_all hR l htail htail')

end

theorem of_references (hR : ∀ r, R r r) (scope : ScopeTree) {references : List Reference}
    (h : Prolongs R scope.references references) : scope.Grows R { scope with references := references } :=
  .mk rfl h (refl_all hR scope.children)

/-- One more scope is closed in it. -/
theorem close (h : scope.Grows R scope') (child : ScopeTree) :
    scope.Grows R { scope' with children := scope'.children ++ [child] } := by
  cases h with
  | mk hrange hr hc => exact .mk hrange hr (hc.append [child])

end ScopeTree.Grows

/-! ### Open scopes -/

/-- The innermost scope grows, and then one more scope may be opened in it, or it is closed. -/
inductive StackGrows (R : Reference → Reference → Prop) : List ScopeTree → List ScopeTree → Prop
  | inner {scope scope' : ScopeTree} {below : List ScopeTree} (h : scope.Grows R scope') :
    StackGrows R (scope :: below) (scope' :: below)
  | opened {scope scope' : ScopeTree} {below : List ScopeTree} (new : ScopeTree) (h : scope.Grows R scope') :
    StackGrows R (scope :: below) (new :: scope' :: below)
  | closed {top top' : ScopeTree} (h : top.Grows R top') (scope : ScopeTree) (below : List ScopeTree) :
    StackGrows R (top :: scope :: below) ({ scope with children := scope.children ++ [top'] } :: below)

namespace StackGrows

variable {R : Reference → Reference → Prop}

private theorem closeScopes_grows (hR : ∀ r, R r r) {scope scope' : ScopeTree} (h : scope.Grows R scope')
    (below : List ScopeTree) :
    (ReferenceState.closeScopes scope below).Grows R (ReferenceState.closeScopes scope' below) := by
  induction below generalizing scope scope' with
  | nil => exact h
  | cons parent below ih =>
    have hchildren : Prolongs (ScopeTree.Grows R) (parent.children ++ [scope]) (parent.children ++ [scope']) :=
      Prolongs.append_of (ScopeTree.Grows.refl hR) h parent.children
    exact ih (.mk rfl (Prolongs.refl hR parent.references) hchildren)

/-- With the open scopes the scope of the file grows. -/
theorem root (hR : ∀ r, R r r) {s s' : ReferenceState} (h : StackGrows R s.scopes s'.scopes) :
    s.root.Grows R s'.root := by
  unfold ReferenceState.root
  generalize s.scopes = scopes at h
  generalize s'.scopes = scopes' at h
  cases h with
  | inner h => exact closeScopes_grows hR h _
  -- the new scope shows as the last child of the one in which it is opened
  | opened new h => exact closeScopes_grows hR (h.close new) _
  | closed h scope below => exact closeScopes_grows hR h (scope :: below)

/-- A scope that stays open grows, and the scopes below it stay as they are. -/
theorem keeps (hR : ∀ r, R r r) {scopes scopes' inner below : List ScopeTree} {scope : ScopeTree}
    (h : StackGrows R scopes scopes') (hs : scopes = inner ++ scope :: below) (hopen : below.length < scopes'.length) :
    ∃ inner' scope', scopes' = inner' ++ scope' :: below ∧ scope.Grows R scope' := by
  cases h with
  | inner h =>
    rcases inner with _ | ⟨top, inner⟩
    · obtain ⟨rfl, rfl⟩ := List.cons.inj hs
      exact ⟨[], _, rfl, h⟩
    · obtain ⟨rfl, rfl⟩ := List.cons.inj hs
      exact ⟨_ :: inner, scope, rfl, ScopeTree.Grows.refl hR scope⟩
  | opened new h =>
    rcases inner with _ | ⟨top, inner⟩
    · obtain ⟨rfl, rfl⟩ := List.cons.inj hs
      exact ⟨[new], _, rfl, h⟩
    · obtain ⟨rfl, rfl⟩ := List.cons.inj hs
      exact ⟨new :: _ :: inner, scope, rfl, ScopeTree.Grows.refl hR scope⟩
  | closed htop parent rest =>
    rcases inner with _ | ⟨_, _ | ⟨_, inner⟩⟩
    · -- the scope itself would be closed
      obtain ⟨rfl, rfl⟩ := List.cons.inj hs
      exact absurd hopen (Nat.lt_irrefl _)
    · obtain ⟨rfl, rfl⟩ := List.cons.inj (List.cons.inj hs).2
      exact ⟨[], _, rfl, (ScopeTree.Grows.refl hR parent).close _⟩
    · obtain ⟨rfl, rfl⟩ := List.cons.inj (List.cons.inj hs).2
      exact ⟨_ :: inner, scope, rfl, ScopeTree.Grows.refl hR scope⟩

end StackGrows

end CodeAtlas
