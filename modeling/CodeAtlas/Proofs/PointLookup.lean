import CodeAtlas.Proofs.SortedSearch
import CodeAtlas.Reference.Scope
import Mathlib.Order.Defs.LinearOrder

/-!
# Looking up a position

The references of a document are sorted by start and end, and references with the same range stay in the order in which
they were collected (`sorted_spec`).  A look-up by position goes backwards from the last reference that starts in time,
and ends where no reference reaches the position any more.  Since the furthest ends only grow, nothing that contains the
position is cut off (`reaching_eq`); so the answer is that of a scan of all references (`referenceAt_spec`).
-/

namespace CodeAtlas

/-! ### Positions in order -/

instance : LinearOrder Position where
  le_refl a := Or.inr ⟨rfl, Nat.le_refl _⟩
  le_trans a b c := by
    rintro (hab | ⟨hab, hab'⟩) (hbc | ⟨hbc, hbc'⟩)
    · exact Or.inl (by omega)
    · exact Or.inl (by omega)
    · exact Or.inl (by omega)
    · exact Or.inr (by omega)
  le_antisymm a b := by
    rintro (hab | ⟨hab, hab'⟩) (hba | ⟨hba, hba'⟩)
    · omega
    · omega
    · omega
    · cases a
      cases b
      congr
      exact Nat.le_antisymm hab' hba'
  le_total a b := by
    rcases Nat.lt_trichotomy a.line b.line with h | h | h
    · exact Or.inl (Or.inl h)
    · exact (Nat.le_total a.character b.character).imp (fun hc => Or.inr ⟨h, hc⟩) fun hc => Or.inr ⟨h.symm, hc⟩
    · exact Or.inr (Or.inl h)
  toDecidableLE := inferInstance

theorem Position.later_eq_max (a b : Position) : a.later b = max a b := by
  unfold later
  rw [max_def]

theorem Range.contains_iff {r : Range} {p : Position} : r.contains p = true ↔ r.start ≤ p ∧ p ≤ r.stop := by
  unfold contains
  rw [Bool.and_eq_true, decide_eq_true_iff, decide_eq_true_iff]

theorem Range.containsRange_iff {r r' : Range} :
    r.containsRange r' = true ↔ r.start ≤ r'.start ∧ r'.stop ≤ r.stop := by
  unfold containsRange
  rw [Bool.and_eq_true, decide_eq_true_iff, decide_eq_true_iff]

/-! ### The references of a tree -/

namespace ScopeTree

/-- The own references of a scope come first, then those of the scopes in it, one scope after the other. -/
theorem collect_eq (s : ScopeTree) : s.collect = s.references ++ s.children.flatMap collect := by
  have hall : ∀ cs : List ScopeTree, collectAll cs = cs.flatMap collect := by
    intro cs
    induction cs with
    | nil => rfl
    | cons c cs ih => rw [collectAll, ih, List.flatMap_cons]
  cases s
  rw [collect, hall]

theorem mem_collect {r : Reference} {s : ScopeTree} :
    r ∈ s.collect ↔ r ∈ s.references ∨ ∃ c ∈ s.children, r ∈ c.collect := by
  rw [collect_eq, List.mem_append, List.mem_flatMap]

end ScopeTree

/-! ### The order of references -/

theorem Reference.inOrder_iff {a b : Reference} : a.inOrder b = true ↔
    a.range.start < b.range.start ∨ a.range.start = b.range.start ∧ a.range.stop ≤ b.range.stop := by
  unfold inOrder
  split
  · rename_i h
    simp [h]
  · rename_i h
    rw [decide_eq_true_iff, lt_iff_le_and_ne]
    simp [h]

private theorem Reference.inOrder_trans (a b c : Reference) (hab : a.inOrder b = true) (hbc : b.inOrder c = true) :
    a.inOrder c = true := by
  rw [inOrder_iff] at hab hbc ⊢
  rcases hab with hab | ⟨hab, hab'⟩ <;> rcases hbc with hbc | ⟨hbc, hbc'⟩
  · exact Or.inl (hab.trans hbc)
  · exact Or.inl (hbc ▸ hab)
  · exact Or.inl (hab ▸ hbc)
  · exact Or.inr ⟨hab.trans hbc, hab'.trans hbc'⟩

private theorem Reference.inOrder_total (a b : Reference) : (a.inOrder b || b.inOrder a) = true := by
  rw [Bool.or_eq_true, inOrder_iff, inOrder_iff]
  rcases lt_trichotomy a.range.start b.range.start with h | h | h
  · exact Or.inl (Or.inl h)
  · exact (le_total a.range.stop b.range.stop).imp (fun hs => Or.inr ⟨h, hs⟩) fun hs => Or.inr ⟨h.symm, hs⟩
  · exact Or.inr (Or.inl h)

namespace Occurrences

theorem sorted_perm (uri : String) (root : ScopeTree) : (ofScope uri root).sorted.Perm root.collect :=
  List.mergeSort_perm _ _

theorem sorted_pairwise (uri : String) (root : ScopeTree) :
    (ofScope uri root).sorted.Pairwise fun a b => a.inOrder b = true :=
  List.pairwise_mergeSort Reference.inOrder_trans Reference.inOrder_total _

/-- References with the same range stay in the order in which they were collected. -/
theorem sorted_filter_range (uri : String) (root : ScopeTree) (range : Range) :
    (ofScope uri root).sorted.filter (fun r => decide (r.range = range)) =
      root.collect.filter fun r => decide (r.range = range) := by
  have hpair : (root.collect.filter fun r => decide (r.range = range)).Pairwise fun a b => a.inOrder b = true := by
    rw [List.pairwise_filter]
    refine List.pairwise_of_forall fun a b ha hb => ?_
    rw [Reference.inOrder_iff, of_decide_eq_true ha, of_decide_eq_true hb]
    exact Or.inr ⟨rfl, le_refl _⟩
  have hsub := (List.sublist_mergeSort Reference.inOrder_trans Reference.inOrder_total hpair List.filter_sublist).filter
    fun r => decide (r.range = range)
  rw [List.filter_filter] at hsub
  simp only [Bool.and_self] at hsub
  exact (hsub.eq_of_length ((sorted_perm uri root).filter _).length_eq.symm).symm

/-! ### The furthest ends -/

/-- The furthest ends grow along the list, and each reaches the end of its reference. -/
private theorem zip_reachFrom (furthest : Position) (l : List Reference) :
    (∀ x ∈ l.zip (reachFrom furthest l), furthest ≤ x.2 ∧ x.1.range.stop ≤ x.2) ∧
    (l.zip (reachFrom furthest l)).Pairwise (fun x y => x.2 ≤ y.2) ∧
    (l.zip (reachFrom furthest l)).map (·.1) = l := by
  induction l generalizing furthest with
  | nil => exact ⟨nofun, .nil, rfl⟩
  | cons r rest ih =>
    obtain ⟨hall, hpair, hmap⟩ := ih (furthest.later r.range.stop)
    rw [reachFrom, List.zip_cons_cons]
    refine ⟨?_, List.pairwise_cons.2 ⟨fun x hx => (hall x hx).1, hpair⟩, by rw [List.map_cons, hmap]⟩
    intro x hx
    rcases List.mem_cons.1 hx with rfl | hx
    · rw [Position.later_eq_max]
      exact ⟨le_max_left _ _, le_max_right _ _⟩
    · rw [Position.later_eq_max] at hall
      exact ⟨(le_max_left _ _).trans (hall x hx).1, (hall x hx).2⟩

/-- The search backwards, and its early end, pass over no reference that contains the position. -/
private theorem reaching_eq (uri : String) (root : ScopeTree) (p : Position) :
    ((((((ofScope uri root).sorted.zip (ofScope uri root).reach).takeWhile fun (r, _) => r.range.start ≤ p).reverse.takeWhile
      fun (_, furthest) => p ≤ furthest).map (·.1)).filter (·.range.contains p)) =
        ((ofScope uri root).sorted.filter (·.range.contains p)).reverse := by
  obtain ⟨hreach, hgrow, hmap⟩ := zip_reachFrom ⟨0, 0⟩ (ofScope uri root).sorted
  have hsorted := sorted_pairwise uri root
  change ∀ x ∈ (ofScope uri root).sorted.zip (ofScope uri root).reach, _ at hreach
  change ((ofScope uri root).sorted.zip (ofScope uri root).reach).Pairwise _ at hgrow
  change ((ofScope uri root).sorted.zip (ofScope uri root).reach).map _ = _ at hmap
  generalize (ofScope uri root).sorted.zip (ofScope uri root).reach = pairs at *
  have hstart : pairs.Pairwise fun x y => decide (y.1.range.start ≤ p) = true → decide (x.1.range.start ≤ p) = true := by
    rw [← hmap, List.pairwise_map] at hsorted
    refine hsorted.imp fun hxy hy => decide_eq_true (le_trans ?_ (of_decide_eq_true hy))
    exact (Reference.inOrder_iff.1 hxy).elim le_of_lt fun h => le_of_eq h.1
  have hend : (pairs.filter fun x => decide (x.1.range.start ≤ p)).reverse.Pairwise fun x y =>
      decide (p ≤ y.2) = true → decide (p ≤ x.2) = true := by
    rw [List.pairwise_reverse]
    exact (hgrow.filter _).imp fun hxy hx => decide_eq_true ((of_decide_eq_true hx).trans hxy)
  rw [Search.takeWhile_eq_filter hstart, Search.takeWhile_eq_filter hend, List.filter_reverse, List.filter_filter,
    List.map_reverse, List.filter_reverse, List.filter_map, List.filter_filter, ← hmap, List.filter_map]
  congr 2
  apply List.filter_congr
  intro x hx
  show (x.1.range.contains p && (decide (p ≤ x.2) && decide (x.1.range.start ≤ p))) = x.1.range.contains p
  rw [Bool.and_eq_left_iff_imp]
  intro hx'
  obtain ⟨hbefore, hafter⟩ := Range.contains_iff.1 hx'
  rw [decide_eq_true (hafter.trans (hreach x hx).2), decide_eq_true hbefore]
  rfl

/-! ### The closest reference -/

theorem closer_iff {a b : Reference} : closer a b = true ↔
    a.range.stop < b.range.stop ∨ a.range.stop = b.range.stop ∧ b.range.start < a.range.start := by
  unfold closer
  split
  · rename_i h
    rw [Bool.and_eq_true, decide_eq_true_iff, decide_eq_true_iff, and_comm, ne_comm, ← lt_iff_le_and_ne]
    simp [h]
  · rename_i h
    rw [decide_eq_true_iff, lt_iff_le_and_ne]
    simp [h]

private theorem closer_trans {a b c : Reference} (hab : closer a b = true) (hbc : closer b c = true) :
    closer a c = true := by
  rw [closer_iff] at hab hbc ⊢
  rcases hab with hab | ⟨hab, hab'⟩ <;> rcases hbc with hbc | ⟨hbc, hbc'⟩
  · exact Or.inl (hab.trans hbc)
  · exact Or.inl (hbc ▸ hab)
  · exact Or.inl (hab ▸ hbc)
  · exact Or.inr ⟨hab.trans hbc, hbc'.trans hab'⟩

theorem not_closer_iff {a b : Reference} : ¬ closer a b = true ↔
    b.range.stop < a.range.stop ∨ b.range.stop = a.range.stop ∧ a.range.start ≤ b.range.start := by
  rw [closer_iff, not_or, not_lt, not_and, not_lt]
  constructor
  · rintro ⟨hstop, hstart⟩
    exact hstop.lt_or_eq.imp_right fun he => ⟨he, hstart he.symm⟩
  · rintro (hstop | ⟨hstop, hstart⟩)
    · exact ⟨le_of_lt hstop, fun he => absurd he (ne_of_gt hstop)⟩
    · exact ⟨le_of_eq hstop, fun _ => hstart⟩

/-- What is closer than a reference is closer than whatever is not. -/
private theorem closer_of_not_closer {a b c : Reference} (hab : closer a b = true) (hcb : ¬ closer c b = true) :
    closer a c = true := by
  rw [not_closer_iff] at hcb
  rw [closer_iff] at hab ⊢
  rcases hab with hab | ⟨hab, hab'⟩ <;> rcases hcb with hcb | ⟨hcb, hcb'⟩
  · exact Or.inl (hab.trans hcb)
  · exact Or.inl (hcb ▸ hab)
  · exact Or.inl (hab ▸ hcb)
  · exact Or.inr ⟨hab.trans hcb, lt_of_le_of_lt hcb' hab'⟩

/-- The first of the closest references: it is closer than all before it, and none after it is closer. -/
private def FirstClosest (l : List Reference) (r : Reference) : Prop :=
  ∃ front back, l = front ++ r :: back ∧ (∀ o ∈ front, closer r o = true) ∧ ∀ o ∈ back, ¬ closer o r = true

private theorem firstClosest_foldl {best r : Reference} {rest : List Reference}
    (h : rest.foldl (fun best r => if closer r best then r else best) best = r) : FirstClosest (best :: rest) r := by
  induction rest generalizing best with
  | nil => exact ⟨[], [], by rw [← h]; rfl, nofun, nofun⟩
  | cons next rest ih =>
    rw [List.foldl_cons] at h
    by_cases hnext : closer next best = true
    · rw [if_pos hnext] at h
      obtain ⟨front, back, hsplit, hfront, hback⟩ := ih h
      refine ⟨best :: front, back, by rw [hsplit]; rfl, fun o ho => ?_, hback⟩
      rcases List.mem_cons.1 ho with rfl | ho
      · -- the next one is the answer, or the answer is closer still
        cases front with
        | nil => rwa [← (List.cons.inj hsplit).1]
        | cons x front =>
          obtain rfl := (List.cons.inj hsplit).1
          exact closer_trans (hfront next List.mem_cons_self) hnext
      · exact hfront o ho
    · rw [if_neg hnext] at h
      obtain ⟨front, back, hsplit, hfront, hback⟩ := ih h
      cases front with
      | nil =>
        obtain ⟨rfl, rfl⟩ := List.cons.inj hsplit
        refine ⟨[], next :: rest, rfl, nofun, fun o ho => ?_⟩
        rcases List.mem_cons.1 ho with rfl | ho
        · exact hnext
        · exact hback o ho
      | cons x front =>
        obtain ⟨rfl, hrest⟩ := List.cons.inj hsplit
        refine ⟨best :: next :: front, back, by rw [hrest]; rfl, fun o ho => ?_, hback⟩
        have hbest := hfront best List.mem_cons_self
        rcases List.mem_cons.1 ho with rfl | ho
        · exact hbest
        · rcases List.mem_cons.1 ho with rfl | ho
          · exact closer_of_not_closer hbest hnext
          · exact hfront o (List.mem_cons_of_mem _ ho)

theorem closest?_eq_none {l : List Reference} : closest? l = none ↔ l = [] := by
  cases l with
  | nil => exact ⟨fun _ => rfl, fun _ => rfl⟩
  | cons r rest => exact ⟨nofun, nofun⟩

private theorem firstClosest_of_closest? {l : List Reference} {r : Reference} (h : closest? l = some r) :
    FirstClosest l r := by
  cases l with
  | nil => exact nomatch h
  | cons best rest => exact firstClosest_foldl (Option.some.inj h)

/-! ### The look-up -/

theorem referenceAt_eq_none (uri : String) (root : ScopeTree) (p : Position) :
    (ofScope uri root).referenceAt? p = none ↔ ∀ r ∈ root.collect, ¬ r.range.contains p = true := by
  unfold referenceAt?
  simp only
  rw [reaching_eq, closest?_eq_none, List.reverse_eq_nil_iff, List.filter_eq_nil_iff]
  exact forall_congr' fun r => by rw [(sorted_perm uri root).mem_iff]

/-- The answer parts the sorted references: it contains the position, no reference before it that contains the position
is closer, and it is closer than all such references after it. -/
theorem referenceAt_split {uri : String} {root : ScopeTree} {p : Position} {r : Reference}
    (h : (ofScope uri root).referenceAt? p = some r) :
    ∃ front back, (ofScope uri root).sorted = front ++ r :: back ∧ r.range.contains p = true ∧
      (∀ o ∈ front, o.range.contains p = true → ¬ closer o r = true) ∧
      ∀ o ∈ back, o.range.contains p = true → closer r o = true := by
  unfold referenceAt? at h
  simp only at h
  rw [reaching_eq] at h
  obtain ⟨front, back, hsplit, hfront, hback⟩ := firstClosest_of_closest? h
  have hfilter : (ofScope uri root).sorted.filter (·.range.contains p) = back.reverse ++ r :: front.reverse := by
    rw [← List.reverse_reverse ((ofScope uri root).sorted.filter _), hsplit]
    simp
  obtain ⟨l, tail, hsorted, hl, htail⟩ := List.filter_eq_append_iff.1 hfilter
  obtain ⟨l', back', rfl, hl', hr, hback'⟩ := List.filter_eq_cons_iff.1 htail
  refine ⟨l ++ l', back', by rw [hsorted, List.append_assoc], hr, ?_, ?_⟩
  · intro o ho hp
    rcases List.mem_append.1 ho with ho | ho
    · exact hback o (List.mem_reverse.1 (hl ▸ List.mem_filter.2 ⟨ho, hp⟩))
    · exact absurd hp (hl' o ho)
  · intro o ho hp
    exact hfront o (List.mem_reverse.1 (hback' ▸ List.mem_filter.2 ⟨ho, hp⟩))

/-- The references of all scopes, each scope before those in it, are sorted by start and end, and otherwise stay as
collected.  Looking up a position finds nothing just when no reference contains it; otherwise it finds, of those that
contain it, the one with the earliest end, then with the latest start, then the last in the sorted list.  So the range
found has no other one strictly inside. -/
theorem referenceAt_spec (uri : String) (root : ScopeTree) (p : Position) :
    let d := ofScope uri root
    (∀ s : ScopeTree, s.collect = s.references ++ s.children.flatMap ScopeTree.collect) ∧
    d.sorted.Perm root.collect ∧
    d.sorted.Pairwise (fun a b => a.range.start < b.range.start ∨
      a.range.start = b.range.start ∧ a.range.stop ≤ b.range.stop) ∧
    (∀ range, d.sorted.filter (fun r => decide (r.range = range)) =
      root.collect.filter fun r => decide (r.range = range)) ∧
    (d.referenceAt? p = none ↔ ∀ r ∈ root.collect, ¬ r.range.contains p = true) ∧
    ∀ r, d.referenceAt? p = some r →
      (∃ front back, d.sorted = front ++ r :: back ∧ r.range.contains p = true ∧
        (∀ o ∈ front, o.range.contains p = true → r.range.stop < o.range.stop ∨
          r.range.stop = o.range.stop ∧ o.range.start ≤ r.range.start) ∧
        ∀ o ∈ back, o.range.contains p = true → r.range.stop < o.range.stop ∨
          r.range.stop = o.range.stop ∧ o.range.start < r.range.start) ∧
      ∀ o ∈ root.collect, o.range.contains p = true → r.range.containsRange o.range = true → o.range = r.range := by
  refine ⟨ScopeTree.collect_eq, sorted_perm uri root, (sorted_pairwise uri root).imp Reference.inOrder_iff.1, sorted_filter_range uri root,
    referenceAt_eq_none uri root p, fun r hr => ?_⟩
  obtain ⟨front, back, hsplit, hcontains, hfront, hback⟩ := referenceAt_split hr
  have hfront' := fun o ho hp => not_closer_iff.1 (hfront o ho hp)
  have hback' := fun o ho hp => closer_iff.1 (hback o ho hp)
  refine ⟨⟨front, back, hsplit, hcontains, hfront', hback'⟩, fun o ho hp hinside => ?_⟩
  -- nothing that contains the position ends earlier, or ends there too and starts later
  have hbest : r.range.stop < o.range.stop ∨ r.range.stop = o.range.stop ∧ o.range.start ≤ r.range.start := by
    have hmem := (sorted_perm uri root).mem_iff.2 ho
    rw [hsplit, List.mem_append, List.mem_cons] at hmem
    rcases hmem with hmem | rfl | hmem
    · exact hfront' o hmem hp
    · exact Or.inr ⟨rfl, le_refl _⟩
    · exact (hback' o hmem hp).imp_right fun h => ⟨h.1, le_of_lt h.2⟩
  obtain ⟨hstart, hstop⟩ := Range.containsRange_iff.1 hinside
  rcases hbest with hlater | ⟨hsame, hstart'⟩
  · exact absurd hlater (not_lt.2 hstop)
  · show (⟨o.range.start, o.range.stop⟩ : Range) = ⟨r.range.start, r.range.stop⟩
    rw [le_antisymm hstart' hstart, hsame]

end Occurrences

end CodeAtlas
