import CodeAtlas.Proofs.PhraseTree
import CodeAtlas.Proofs.PointLookup
import CodeAtlas.Text.Digits

/-!
# Tokens in order

In the tree of a parsed text each token ends before the next one begins (`Document.InOrder`).  Then the range of a
phrase goes from its first token to its last one and contains those of all others (`Range.Spans`), phrases inside each
other have ranges inside each other, and phrases beside each other have ranges that share at most an end.  For the
chosen phrases of a harvest this is `PhraseTree.LaidOut`, and `Harvest.laidOut` shows it of a whole document.

A phrase without tokens has no range of its own; where one is needed it is the start of the document, which lies before
everything.
-/

namespace CodeAtlas

/-! ### Leaves -/

namespace Token

/-- `a` ends before `b` begins. -/
def Before (a b : Token) : Prop :=
  a.stop ≤ b.offset

/-- All of the one list end before any of the other begins. -/
def AllBefore (as bs : List Token) : Prop :=
  ∀ a ∈ as, ∀ b ∈ bs, a.Before b

/-- One list of tokens comes before the other. -/
def Apart (as bs : List Token) : Prop :=
  AllBefore as bs ∨ AllBefore bs as

theorem Apart.symm {as bs : List Token} (h : Apart as bs) : Apart bs as :=
  Or.symm h

/-- A token of the one list and some of the other. -/
theorem Apart.token {as bs bs' : List Token} {a : Token} (h : Apart as bs) (ha : a ∈ as) (hb : bs' ⊆ bs) :
    Apart [a] bs' :=
  h.imp (fun h => List.forall_mem_singleton.2 fun b hb' => h a ha b (hb hb'))
    fun h b hb' => List.forall_mem_singleton.2 (h b (hb hb') a ha)

end Token

namespace Node

mutual

/-- The tokens at or below a node, from left to right. -/
def leaves : Node → List Token
  | .token t => [t]
  | .phrase _ children => leavesOf children

def leavesOf : List Node → List Token
  | [] => []
  | n :: ns => leaves n ++ leavesOf ns

end

mutual

theorem firstToken_eq : ∀ n : Node, n.firstToken? = n.leaves.head?
  | .token _ => rfl
  | .phrase _ children => by
    rw [firstToken?, leaves]
    exact firstTokenOf_eq children

theorem firstTokenOf_eq : ∀ ns : List Node, firstTokenOf? ns = (leavesOf ns).head?
  | [] => rfl
  | n :: ns => by rw [firstTokenOf?, leavesOf, List.head?_append, firstToken_eq n, firstTokenOf_eq ns]

end

mutual

theorem lastToken_eq : ∀ n : Node, n.lastToken? = n.leaves.getLast?
  | .token _ => rfl
  | .phrase _ children => by
    rw [lastToken?, leaves]
    exact lastTokenOf_eq children

theorem lastTokenOf_eq : ∀ ns : List Node, lastTokenOf? ns = (leavesOf ns).getLast?
  | [] => rfl
  | n :: ns => by rw [lastTokenOf?, leavesOf, List.getLast?_append, lastToken_eq n, lastTokenOf_eq ns]

end

theorem leaves_subset {n : Node} {ns : List Node} (h : n ∈ ns) : n.leaves ⊆ leavesOf ns := by
  induction ns with
  | nil => cases h
  | cons m ns ih =>
    rw [leavesOf]
    rcases List.mem_cons.1 h with rfl | h
    · exact List.subset_append_left _ _
    · exact List.subset_append_of_subset_right _ (ih h)

end Node

/-- Every token of the document ends before the next one begins. -/
def Document.InOrder (d : Document) : Prop :=
  d.tree.toNode.leaves.Pairwise Token.Before

/-- Every token of the document ends at an offset that fits in 32 bits. -/
def Document.InBounds (d : Document) : Prop :=
  ∀ t ∈ d.tree.toNode.leaves, t.stop < Text.wordBound

/-! ### Ranges -/

theorem Position.origin_le (p : Position) : (⟨0, 0⟩ : Position) ≤ p := by
  rcases Nat.eq_zero_or_pos p.line with h | h
  · exact Or.inr ⟨h.symm, Nat.zero_le _⟩
  · exact Or.inl h

/-- Two ranges share at most an end. -/
def Range.Apart (a b : Range) : Prop :=
  a.stop ≤ b.start ∨ b.stop ≤ a.start

theorem Range.Apart.symm {a b : Range} (h : a.Apart b) : b.Apart a :=
  Or.symm h

/-- A position in two ranges that are apart is an end of both. -/
theorem Range.Apart.meet {a b : Range} {p : Position} (h : a.Apart b) (ha : a.contains p = true)
    (hb : b.contains p = true) : a.stop = p ∧ b.start = p ∨ b.stop = p ∧ a.start = p := by
  obtain ⟨ha, ha'⟩ := Range.contains_iff.1 ha
  obtain ⟨hb, hb'⟩ := Range.contains_iff.1 hb
  rcases h with h | h
  · exact Or.inl ⟨le_antisymm (h.trans hb) ha', le_antisymm hb (ha'.trans h)⟩
  · exact Or.inr ⟨le_antisymm (h.trans ha) hb', le_antisymm ha (hb'.trans h)⟩

theorem Range.containsRange_trans {a b c : Range} (h : a.containsRange b = true) (h' : b.containsRange c = true) :
    a.containsRange c = true := by
  rw [containsRange_iff] at h h' ⊢
  exact ⟨h.1.trans h'.1, h'.2.trans h.2⟩

theorem Range.contains_of_containsRange {a b : Range} {p : Position} (h : a.containsRange b = true)
    (hp : b.contains p = true) : a.contains p = true := by
  rw [containsRange_iff] at h
  rw [contains_iff] at hp ⊢
  exact ⟨h.1.trans hp.1, hp.2.trans h.2⟩

/-- A later offset has a later position. -/
theorem LineMap.positionAt_mono (text : String) {a b : Nat} (h : a ≤ b) :
    (LineMap.ofText text).positionAt a ≤ (LineMap.ofText text).positionAt b := by
  unfold positionAt
  dsimp only
  have ho : min a (LineMap.ofText text).length ≤ min b (LineMap.ofText text).length := by omega
  generalize min a (LineMap.ofText text).length = o at ho
  generalize min b (LineMap.ofText text).length = o' at ho
  -- the lines that start by the first offset are the first of those that start by the second
  have hfront : (LineMap.ofText text).starts.takeWhile (decide <| · ≤ o) <+:
      (LineMap.ofText text).starts.takeWhile (decide <| · ≤ o') := by
    have heq : (LineMap.ofText text).starts.takeWhile (decide <| · ≤ o) =
        ((LineMap.ofText text).starts.takeWhile (decide <| · ≤ o')).takeWhile (decide <| · ≤ o) := by
      rw [List.takeWhile_takeWhile]
      congr 1
      funext x
      rw [Bool.eq_iff_iff]
      simp only [decide_eq_true_eq]
      omega
    rw [heq]
    exact List.takeWhile_prefix _
  have hpos : 0 < ((LineMap.ofText text).starts.takeWhile (decide <| · ≤ o)).length := by
    unfold LineMap.ofText
    dsimp only
    rw [List.takeWhile_cons_of_pos (by simp)]
    exact Nat.succ_pos _
  rcases Nat.lt_or_ge ((LineMap.ofText text).starts.takeWhile (decide <| · ≤ o)).length
    ((LineMap.ofText text).starts.takeWhile (decide <| · ≤ o')).length with hlt | hge
  · exact Or.inl (by dsimp only; omega)
  · rw [hfront.eq_of_length_le hge]
    exact Or.inr ⟨rfl, by dsimp only; omega⟩

/-- The range begins with one of the tokens, ends with one of them, and contains them all. -/
structure Range.Spans (src : Source) (ts : List Token) (r : Range) : Prop where
  start : ∃ t ∈ ts, r.start = (src.tokenRange t).start
  stop : ∃ t ∈ ts, r.stop = (src.tokenRange t).stop
  containsAll : ∀ t ∈ ts, r.containsRange (src.tokenRange t) = true

namespace Range.Spans

variable {src : Source} {ts ts' : List Token} {r r' : Range}

/-- Of fewer tokens the range is smaller. -/
theorem containsRange (h : r.Spans src ts) (h' : r'.Spans src ts') (hs : ts' ⊆ ts) : r.containsRange r' = true := by
  obtain ⟨a, ha, hstart⟩ := h'.start
  obtain ⟨b, hb, hstop⟩ := h'.stop
  have hca := Range.containsRange_iff.1 (h.containsAll a (hs ha))
  have hcb := Range.containsRange_iff.1 (h.containsAll b (hs hb))
  exact Range.containsRange_iff.2 ⟨hstart ▸ hca.1, hstop ▸ hcb.2⟩

theorem apart {d : Document} (h : r.Spans (Source.ofDocument d) ts) (h' : r'.Spans (Source.ofDocument d) ts')
    (ha : Token.Apart ts ts') : r.Apart r' := by
  have hside : ∀ {r r' : Range} {ts ts' : List Token}, r.Spans (Source.ofDocument d) ts →
      r'.Spans (Source.ofDocument d) ts' → Token.AllBefore ts ts' → r.stop ≤ r'.start := by
    intro r r' ts ts' h h' hb
    obtain ⟨a, ha, hstop⟩ := h.stop
    obtain ⟨b, hb', hstart⟩ := h'.start
    rw [hstop, hstart]
    exact LineMap.positionAt_mono d.text (hb a ha b hb')
  exact ha.imp (hside h h') (hside h' h)

theorem token (d : Document) (t : Token) : ((Source.ofDocument d).tokenRange t).Spans (Source.ofDocument d) [t] :=
  ⟨⟨t, List.mem_singleton_self t, rfl⟩, ⟨t, List.mem_singleton_self t, rfl⟩,
    List.forall_mem_singleton.2 (Range.containsRange_iff.2 ⟨le_refl _, le_refl _⟩)⟩

end Range.Spans

namespace Source

variable {d : Document} {p : Phrase}

/-- A phrase with tokens in order has a range, which spans them. -/
theorem range?_spans (h : p.toNode.leaves.Pairwise Token.Before) (hne : p.toNode.leaves ≠ []) :
    ∃ r, (ofDocument d).range? p = some r ∧ r.Spans (ofDocument d) p.toNode.leaves := by
  have hfirst : p.firstToken? = p.toNode.leaves.head? := Node.firstTokenOf_eq p.children
  have hlast : p.lastToken? = p.toNode.leaves.getLast? := Node.lastTokenOf_eq p.children
  generalize p.toNode.leaves = ts at h hne hfirst hlast ⊢
  have hspan : p.span? = some ((ts.head hne).offset, (ts.getLast hne).stop - (ts.head hne).offset) := by
    unfold Phrase.span?
    rw [hfirst, hlast, List.head?_eq_some_head hne, List.getLast?_eq_some_getLast hne]
  have hhead : ∀ t ∈ ts, (ts.head hne).offset ≤ t.offset := by
    cases ts with
    | nil => exact nofun
    | cons a ts =>
      intro t ht
      rcases List.mem_cons.1 ht with rfl | ht
      · exact Nat.le_refl _
      · exact (Nat.le_add_right _ _).trans ((List.pairwise_cons.1 h).1 t ht)
  have htail : ∀ t ∈ ts, t.stop ≤ (ts.getLast hne).stop := by
    intro t ht
    rw [← List.dropLast_append_getLast hne] at h ht
    rcases List.mem_append.1 ht with ht | ht
    · have hb := (List.pairwise_append.1 h).2.2 t ht _ (List.mem_singleton_self _)
      exact Nat.le_trans hb (Nat.le_add_right _ _)
    · rw [List.mem_singleton.1 ht]
  have hstop : (ts.head hne).offset + ((ts.getLast hne).stop - (ts.head hne).offset) = (ts.getLast hne).stop := by
    have := htail _ (List.head_mem hne)
    unfold Token.stop at this ⊢
    omega
  refine ⟨⟨d.lines.positionAt (ts.head hne).offset, d.lines.positionAt (ts.getLast hne).stop⟩, ?_, ?_⟩
  · unfold range?
    rw [hspan, Option.map_some]
    dsimp only
    unfold LineMap.range
    rw [hstop]
    rfl
  · refine ⟨⟨_, List.head_mem hne, rfl⟩, ⟨_, List.getLast_mem hne, rfl⟩, fun t ht => ?_⟩
    exact Range.containsRange_iff.2
      ⟨LineMap.positionAt_mono d.text (hhead t ht), LineMap.positionAt_mono d.text (htail t ht)⟩

theorem range_spans (h : p.toNode.leaves.Pairwise Token.Before) (hne : p.toNode.leaves ≠ []) :
    ((ofDocument d).range p).Spans (ofDocument d) p.toNode.leaves := by
  obtain ⟨r, hr, hspans⟩ := range?_spans h hne
  unfold Source.range
  rwa [hr]

theorem range?_eq_none (h : p.toNode.leaves = []) : (ofDocument d).range? p = none := by
  have hfirst : p.firstToken? = p.toNode.leaves.head? := Node.firstTokenOf_eq p.children
  unfold range? Phrase.span?
  rw [hfirst, h]
  rfl

end Source

/-! ### Chosen phrases -/

/-- The tokens of the phrase; those of the file are left out. -/
def PhraseTree.leaves {α : Type} (τ : PhraseTree α) : List Token :=
  match τ.phrase with
  | none => []
  | some p => p.toNode.leaves

namespace Harvest

variable {α : Type} {g : Harvest α}

mutual

/-- A tree that is not the whole one is that of a phrase, whose tokens are among those of the node around it. -/
theorem leaves_trees : ∀ n : Node, ∀ τ ∈ g.trees n, (∃ p, τ.phrase = some p) ∧ τ.leaves.Sublist n.leaves
  | .token _, τ, h => nomatch h
  | .phrase kind children, τ, h => by
    rw [trees] at h
    rw [Node.leaves]
    split at h
    · split at h
      · rw [List.mem_singleton.1 h]
        exact ⟨⟨_, rfl⟩, List.Sublist.refl _⟩
      · exact leaves_treesIn children τ h
    · cases h

theorem leaves_treesIn : ∀ ns : List Node, ∀ τ ∈ g.treesIn ns,
    (∃ p, τ.phrase = some p) ∧ τ.leaves.Sublist (Node.leavesOf ns)
  | [], τ, h => nomatch h
  | n :: ns, τ, h => by
    rw [Node.leavesOf]
    rcases List.mem_append.1 h with h | h
    · exact (leaves_trees n τ h).imp_right (·.trans (List.sublist_append_left _ _))
    · exact (leaves_treesIn ns τ h).imp_right (·.trans (List.sublist_append_right _ _))

end

mutual

/-- Chosen phrases beside each other come one after the other. -/
theorem trees_pairwise : ∀ n : Node, n.leaves.Pairwise Token.Before →
    (g.trees n).Pairwise fun a b => Token.AllBefore a.leaves b.leaves
  | .token _, _ => .nil
  | .phrase kind children, h => by
    rw [trees]
    rw [Node.leaves] at h
    split
    · split
      · exact List.pairwise_singleton _ _
      · exact treesIn_pairwise children h
    · exact .nil

theorem treesIn_pairwise : ∀ ns : List Node, (Node.leavesOf ns).Pairwise Token.Before →
    (g.treesIn ns).Pairwise fun a b => Token.AllBefore a.leaves b.leaves
  | [], _ => .nil
  | n :: ns, h => by
    rw [Node.leavesOf, List.pairwise_append] at h
    obtain ⟨hn, hns, hacross⟩ := h
    rw [treesIn, List.pairwise_append]
    refine ⟨trees_pairwise n hn, treesIn_pairwise ns hns, fun τ hτ τ' hτ' a ha b hb => ?_⟩
    exact hacross a ((leaves_trees n τ hτ).2.subset ha) b ((leaves_treesIn ns τ' hτ').2.subset hb)

end

/-- Tokens and chosen phrases of two parts of a text, of which one comes before the other. -/
private theorem apart_of_parts {n : Node} {ns : List Node} (h : (Node.leavesOf (n :: ns)).Pairwise Token.Before) :
    Token.Apart n.leaves (Node.leavesOf ns) :=
  Or.inl (List.pairwise_append.1 h).2.2

/-- A token directly in a phrase is in none of the chosen phrases there. -/
private theorem direct_apart {t : Token} : ∀ {ns : List Node}, Node.token t ∈ ns →
    (Node.leavesOf ns).Pairwise Token.Before → ∀ τ ∈ g.treesIn ns, Token.Apart [t] τ.leaves
  | n :: ns, ht, h, τ, hτ => by
    have hapart := apart_of_parts h
    rcases List.mem_cons.1 ht with rfl | ht
    · exact hapart.token (List.mem_singleton_self t) (leaves_treesIn ns τ hτ).2.subset
    · have hmem : t ∈ Node.leavesOf ns := Node.leaves_subset ht (List.mem_singleton_self t)
      rcases List.mem_append.1 hτ with hτ | hτ
      · exact hapart.symm.token hmem (leaves_trees n τ hτ).2.subset
      · exact direct_apart ht (List.pairwise_append.1 h).2.1 τ hτ

/-- Every item that a phrase contributes is written as one of its tokens. -/
def Placed (g : Harvest α) (src : Source) (place : α → Range) : Prop :=
  ∀ p, ∀ x ∈ g.items p, ∃ t ∈ p.tokens, place x = src.tokenRange t

mutual

/-- What is held is written outside of the chosen phrases. -/
theorem held_apart {src : Source} {place : α → Range} (hg : g.Placed src place) : ∀ n : Node,
    n.leaves.Pairwise Token.Before → ∀ x ∈ g.held n, ∃ t ∈ n.leaves, place x = src.tokenRange t ∧
      ∀ τ ∈ g.trees n, Token.Apart [t] τ.leaves
  | .token _, _, x, hx => nomatch hx
  | .phrase kind children, h, x, hx => by
    rw [held] at hx
    rw [Node.leaves] at h ⊢
    split at hx
    · rename_i hplain
      rw [Bool.and_eq_true, Bool.not_eq_true'] at hplain
      rw [trees, if_pos hplain.1, hplain.2, if_neg Bool.false_ne_true]
      rcases List.mem_append.1 hx with hx | hx
      · obtain ⟨t, ht, hq⟩ := hg _ x hx
        obtain ⟨n, hn, hnt⟩ := List.mem_filterMap.1 ht
        obtain rfl : n = .token t := by
          cases n with
          | token _ => exact congrArg Node.token (Option.some.inj hnt)
          | phrase _ _ => cases hnt
        exact ⟨t, Node.leaves_subset hn (List.mem_singleton_self t), hq, direct_apart hn h⟩
      · exact heldIn_apart hg children h x hx
    · cases hx

theorem heldIn_apart {src : Source} {place : α → Range} (hg : g.Placed src place) : ∀ ns : List Node,
    (Node.leavesOf ns).Pairwise Token.Before → ∀ x ∈ g.heldIn ns, ∃ t ∈ Node.leavesOf ns,
      place x = src.tokenRange t ∧ ∀ τ ∈ g.treesIn ns, Token.Apart [t] τ.leaves
  | [], _, x, hx => nomatch hx
  | n :: ns, h, x, hx => by
    have hapart := apart_of_parts h
    rw [Node.leavesOf] at h ⊢
    obtain ⟨hn, hns, -⟩ := List.pairwise_append.1 h
    rw [heldIn] at hx
    rw [treesIn]
    rcases List.mem_append.1 hx with hx | hx
    · obtain ⟨t, ht, hq, hτ⟩ := held_apart hg n hn x hx
      refine ⟨t, List.mem_append_left _ ht, hq, fun τ hmem => ?_⟩
      rcases List.mem_append.1 hmem with hmem | hmem
      · exact hτ τ hmem
      · exact hapart.token ht (leaves_treesIn ns τ hmem).2.subset
    · obtain ⟨t, ht, hq, hτ⟩ := heldIn_apart hg ns hns x hx
      refine ⟨t, List.mem_append_right _ ht, hq, fun τ hmem => ?_⟩
      rcases List.mem_append.1 hmem with hmem | hmem
      · exact hapart.symm.token ht (leaves_trees n τ hmem).2.subset
      · exact hτ τ hmem

end

end Harvest

/-! ### Where chosen phrases are -/

/-- The chosen phrases beside each other have ranges apart, what a phrase holds is in its range and apart from the
phrases in it, and the ranges of these are in its own. -/
inductive PhraseTree.LaidOut {α : Type} (src : Source) (place : α → Range) : PhraseTree α → Prop
  | mk {τ : PhraseTree α} (chosen : ∀ a ∈ τ.inner, ∃ p, a.phrase = some p)
    (beside : τ.inner.Pairwise fun a b => (src.rangeOf a.phrase).Apart (src.rangeOf b.phrase))
    (apart : ∀ x ∈ τ.held, ∀ a ∈ τ.inner, (place x).Apart (src.rangeOf a.phrase))
    (holds : ∀ p ∈ τ.phrase, ∀ x ∈ τ.held, ∃ r ∈ src.range? p, r.containsRange (place x) = true)
    (encloses : ∀ p ∈ τ.phrase, ∀ a ∈ τ.inner, ∀ r ∈ a.phrase.bind src.range?,
      ∃ r' ∈ src.range? p, r'.containsRange r = true)
    (inner : ∀ a ∈ τ.inner, a.LaidOut src place) : PhraseTree.LaidOut src place τ

namespace Source

variable {d : Document}

/-- A phrase whose tokens come before or after those that a range spans. -/
private theorem apart_range {r : Range} {ts : List Token} {p : Phrase} (hr : r.Spans (ofDocument d) ts)
    (hp : p.toNode.leaves.Pairwise Token.Before) (h : Token.Apart ts p.toNode.leaves) :
    r.Apart ((ofDocument d).range p) := by
  by_cases hne : p.toNode.leaves = []
  · unfold Source.range
    rw [range?_eq_none hne]
    exact Or.inr (Position.origin_le _)
  · exact hr.apart (range_spans hp hne) h

private theorem range_apart {p q : Phrase} (hp : p.toNode.leaves.Pairwise Token.Before)
    (hq : q.toNode.leaves.Pairwise Token.Before) (h : Token.Apart p.toNode.leaves q.toNode.leaves) :
    ((ofDocument d).range p).Apart ((ofDocument d).range q) := by
  by_cases hne : p.toNode.leaves = []
  · unfold Source.range
    rw [range?_eq_none hne]
    exact Or.inl (Position.origin_le _)
  · exact apart_range (range_spans hp hne) hq h

end Source

namespace Harvest

variable {α : Type} {g : Harvest α} {d : Document} {place : α → Range}

/-- What some nodes hold and the phrases chosen in them, all apart. -/
private theorem laidOut_beside (hg : g.Placed (Source.ofDocument d) place) {ns : List Node}
    (h : (Node.leavesOf ns).Pairwise Token.Before) :
    (∀ a ∈ g.treesIn ns, ∃ p, a.phrase = some p) ∧ ((g.treesIn ns).Pairwise fun a b =>
      ((Source.ofDocument d).rangeOf a.phrase).Apart ((Source.ofDocument d).rangeOf b.phrase)) ∧
    ∀ x ∈ g.heldIn ns, ∀ a ∈ g.treesIn ns, (place x).Apart ((Source.ofDocument d).rangeOf a.phrase) := by
  have hchosen : ∀ a ∈ g.treesIn ns, ∃ p, a.phrase = some p ∧ a.leaves = p.toNode.leaves ∧
      p.toNode.leaves.Pairwise Token.Before := by
    intro a ha
    obtain ⟨⟨p, hp⟩, hsub⟩ := leaves_treesIn ns a ha
    have hleaves : a.leaves = p.toNode.leaves := by
      unfold PhraseTree.leaves
      rw [hp]
    exact ⟨p, hp, hleaves, hleaves ▸ h.sublist hsub⟩
  refine ⟨fun a ha => (leaves_treesIn ns a ha).1, ?_, ?_⟩
  · refine (treesIn_pairwise ns h).imp_of_mem fun {a b} ha hb hbefore => ?_
    obtain ⟨p, hp, hleaves, hsorted⟩ := hchosen a ha
    obtain ⟨q, hq, hleaves', hsorted'⟩ := hchosen b hb
    rw [hleaves, hleaves'] at hbefore
    rw [hp, hq]
    exact Source.range_apart hsorted hsorted' (Or.inl hbefore)
  · intro x hx a ha
    obtain ⟨t, -, hplace, hapart⟩ := heldIn_apart hg ns h x hx
    obtain ⟨p, hp, hleaves, hsorted⟩ := hchosen a ha
    have hbefore := hapart a ha
    rw [hleaves] at hbefore
    rw [hp, hplace]
    exact Source.apart_range (Range.Spans.token d t) hsorted hbefore

/-- A chosen phrase around some that are laid out. -/
private theorem chosen_laidOut (hg : g.Placed (Source.ofDocument d) place) {p : Phrase}
    (h : p.toNode.leaves.Pairwise Token.Before)
    (hinner : ∀ a ∈ g.treesIn p.children, a.LaidOut (Source.ofDocument d) place) :
    PhraseTree.LaidOut (Source.ofDocument d) place ⟨some p, g.heldIn p.children, g.treesIn p.children⟩ := by
  have hchildren : (Node.leavesOf p.children).Pairwise Token.Before := h
  obtain ⟨hchosen, hbeside, hapart⟩ := laidOut_beside hg hchildren
  refine .mk hchosen hbeside hapart ?_ ?_ hinner
  · rintro _ ⟨⟩ x hx
    obtain ⟨t, ht, hplace, -⟩ := heldIn_apart hg p.children hchildren x hx
    obtain ⟨r, hr, hspans⟩ := Source.range?_spans (d := d) h (List.ne_nil_of_mem ht)
    exact ⟨r, hr, hplace ▸ hspans.containsAll t ht⟩
  · rintro _ ⟨⟩ a ha r hr
    obtain ⟨⟨q, hq⟩, hsub⟩ := leaves_treesIn p.children a ha
    unfold PhraseTree.leaves at hsub
    rw [hq] at hr hsub
    have hne : q.toNode.leaves ≠ [] := by
      intro hnil
      rw [Option.bind_some, Source.range?_eq_none hnil] at hr
      cases hr
    obtain ⟨r₁, hr₁, hspans₁⟩ := Source.range?_spans (d := d) (h.sublist hsub) hne
    obtain ⟨r', hr', hspans⟩ := Source.range?_spans (d := d) h fun hnil => hne (List.sublist_nil.1 (hnil ▸ hsub))
    obtain rfl : r₁ = r := Option.some.inj (hr₁.symm.trans hr)
    exact ⟨r', hr', hspans.containsRange hspans₁ hsub.subset⟩

mutual

theorem trees_laidOut (hg : g.Placed (Source.ofDocument d) place) : ∀ n : Node, n.leaves.Pairwise Token.Before →
    ∀ a ∈ g.trees n, a.LaidOut (Source.ofDocument d) place
  | .token _, _, a, ha => nomatch ha
  | .phrase kind children, h, a, ha => by
    rw [trees] at ha
    split at ha
    · split at ha
      · rw [List.mem_singleton.1 ha]
        exact chosen_laidOut (p := ⟨kind, children⟩) hg h (treesIn_laidOut hg children h)
      · exact treesIn_laidOut hg children h a ha
    · cases ha

theorem treesIn_laidOut (hg : g.Placed (Source.ofDocument d) place) : ∀ ns : List Node,
    (Node.leavesOf ns).Pairwise Token.Before → ∀ a ∈ g.treesIn ns, a.LaidOut (Source.ofDocument d) place
  | [], _, a, ha => nomatch ha
  | n :: ns, h, a, ha => by
    obtain ⟨hn, hns, -⟩ := List.pairwise_append.1 h
    rcases List.mem_append.1 ha with ha | ha
    · exact trees_laidOut hg n hn a ha
    · exact treesIn_laidOut hg ns hns a ha

end

/-- In a document with its tokens in order, the chosen phrases are laid out as they are nested. -/
theorem laidOut (hg : g.Placed (Source.ofDocument d) place) (h : d.InOrder) :
    (g.ofRoot d.tree).LaidOut (Source.ofDocument d) place := by
  have hroot : g.ofRoot d.tree = ⟨none, g.heldIn [d.tree.toNode], g.treesIn [d.tree.toNode]⟩ := by
    unfold ofRoot
    rw [heldIn, heldIn, treesIn, treesIn, List.append_nil, List.append_nil]
  have hleaves : (Node.leavesOf [d.tree.toNode]).Pairwise Token.Before := by
    rw [Node.leavesOf, Node.leavesOf, List.append_nil]
    exact h
  obtain ⟨hchosen, hbeside, hapart⟩ := laidOut_beside hg hleaves
  rw [hroot]
  exact .mk hchosen hbeside hapart nofun nofun (treesIn_laidOut hg _ hleaves)

end Harvest

end CodeAtlas
