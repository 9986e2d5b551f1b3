import CodeAtlas.Proofs.LocalUses
import CodeAtlas.Proofs.WorkspaceHistory

/-!
# Uses around a position

What is found for a position as its reference and what is found as the uses of it are looked for in different ways.  For
names and members the uses are found through the index of mentions, and the reference is always among them.  The uses of
a variable are those in the scope around the position, which is chosen once more by position alone: the reference is
among them just when it belongs to this scope (`Workspace.uses_contain_iff`).

In a document with its tokens in order it does, unless a scope begins or ends at the position where the reference ends
or begins (`ScopeTree.Records.mem_innermost`): the ends of ranges belong to them, so the first of two scopes that meet at
a position is followed, and a function is followed that ends where the variable begins
(`Workspace.variable_after_function_missed`).
-/

namespace CodeAtlas

/-- One range ends and the other begins at the position. -/
def Range.MeetAt (a b : Range) (p : Position) : Prop :=
  a.stop = p ∧ b.start = p ∨ b.stop = p ∧ a.start = p

theorem Range.Apart.of_containsRange {a b c : Range} (h : a.Apart b) (hc : b.containsRange c = true) : a.Apart c := by
  rw [containsRange_iff] at hc
  exact h.imp (·.trans hc.1) fun h => hc.2.trans h

/-! ### Scopes inside scopes -/

namespace ScopeTree

mutual

/-- The scopes inside a scope, at any depth. -/
def nested : ScopeTree → List ScopeTree
  | .mk _ _ children => nestedOf children

def nestedOf : List ScopeTree → List ScopeTree
  | [] => []
  | s :: rest => s :: nested s ++ nestedOf rest

end

/-- What holds of a scope whenever it holds of the scopes inside holds of every scope. -/
@[elab_as_elim] private theorem childInduction {P : ScopeTree → Prop} (step : ∀ s, (∀ c ∈ s.children, P c) → P s)
    (s : ScopeTree) : P s := by
  refine step s fun c hc => ?_
  have hlt : sizeOf c < sizeOf s := by
    have := List.sizeOf_lt_of_mem hc
    cases s
    simp only [mk.sizeOf_spec] at this ⊢
    omega
  exact childInduction step c
termination_by s

theorem mem_nested {x s : ScopeTree} : x ∈ s.nested ↔ ∃ c ∈ s.children, x = c ∨ x ∈ c.nested := by
  have hall : ∀ cs : List ScopeTree, x ∈ nestedOf cs ↔ ∃ c ∈ cs, x = c ∨ x ∈ c.nested := by
    intro cs
    induction cs with
    | nil => simp [nestedOf]
    | cons c cs ih => simp [nestedOf, ih, or_assoc]
  cases s
  rw [nested, hall]

theorem innermost_eq (p : Position) (s : ScopeTree) : s.innermost p =
    match s.children.find? (·.range.contains p) with
    | none => s
    | some c => c.innermost p := by
  have hof : ∀ (found : ScopeTree) (l : List ScopeTree), innermostOf p found l =
      match l.find? (·.range.contains p) with
      | none => found
      | some c => c.innermost p := by
    intro found l
    induction l with
    | nil => rfl
    | cons a l ih =>
      rw [innermostOf, List.find?_cons]
      cases a.range.contains p with
      | true => rfl
      | false => exact ih
  cases s
  rw [innermost]
  exact hof _ _

/-! ### The scope of a use -/

variable {src : Source} {s c : ScopeTree} {τ : PhraseTree LocalUse} {r : Reference} {u : LocalUse} {p : Position}

private theorem localUse_range (h : r.localUse? = some u) : u.range = r.range := by
  unfold Reference.localUse? at h
  split at h
  · rw [← Option.some.inj h]
  · cases h

private theorem ranges_eq {cs : List ScopeTree} {τs : List (PhraseTree LocalUse)}
    (h : List.Forall₂ (Records src) cs τs) : cs.map (·.range) = τs.map fun τ => src.rangeOf τ.phrase := by
  induction h with
  | nil => rfl
  | cons hr _ ih =>
    obtain ⟨hrange, -, -⟩ := hr
    rw [List.map_cons, List.map_cons, hrange, ih]

/-- A use inside a phrase is in its range. -/
private theorem Records.range_contains (hs : s.Records src τ) (hl : τ.LaidOut src LocalUse.range) {q : Phrase}
    (hq : τ.phrase = some q) (hu : r.localUse? = some u) (hr : r ∈ s.collect) :
    ∃ range ∈ src.range? q, range.containsRange r.range = true := by
  induction s using childInduction generalizing τ q with
  | step s ih =>
    obtain ⟨-, huses, hchildren⟩ := hs
    obtain ⟨hchosen, -, -, hholds, hencloses, hlaid⟩ := hl
    rcases mem_collect.1 hr with hr | ⟨c, hc, hr⟩
    · have hmem := huses.mem_iff.1 (List.mem_filterMap.2 ⟨r, hr, hu⟩)
      obtain ⟨range, hrange, hcontains⟩ := hholds q hq u hmem
      exact ⟨range, hrange, localUse_range hu ▸ hcontains⟩
    · obtain ⟨a, ha, hca⟩ := PhraseTree.exists_of_mem hchildren hc
      obtain ⟨q', hq'⟩ := hchosen a ha
      obtain ⟨range', hrange', hcontains'⟩ := ih c hc hca (hlaid a ha) hq' hr
      obtain ⟨range, hrange, hcontains⟩ := hencloses q hq a ha range' (by rw [hq']; exact hrange')
      exact ⟨range, hrange, Range.containsRange_trans hcontains hcontains'⟩

/-- Where no scope meets the use at the position, the scope around the position is that of the use. -/
theorem Records.mem_innermost (hs : s.Records src τ) (hl : τ.LaidOut src LocalUse.range) (hu : r.localUse? = some u)
    (hr : r ∈ s.collect) (hp : r.range.contains p = true) (hb : ∀ c ∈ s.nested, ¬ c.range.MeetAt r.range p) :
    r ∈ (s.innermost p).references := by
  induction s using childInduction generalizing τ with
  | step s ih =>
    obtain ⟨-, huses, hchildren⟩ := hs
    obtain ⟨hchosen, hbeside, hapart, -, -, hlaid⟩ := hl
    -- a scope apart from the use does not contain the position
    have hoff : ∀ c ∈ s.children, c.range.Apart r.range → ¬ c.range.contains p = true := fun c hc h hcp =>
      hb c (mem_nested.2 ⟨c, hc, Or.inl rfl⟩) (h.meet hcp hp)
    rw [innermost_eq]
    rcases mem_collect.1 hr with hr | ⟨c, hc, hr⟩
    · have hnone : s.children.find? (·.range.contains p) = none := by
        refine List.find?_eq_none.2 fun c hc => hoff c hc ?_
        obtain ⟨a, ha, hca⟩ := PhraseTree.exists_of_mem hchildren hc
        obtain ⟨hrange, -, -⟩ := hca
        have hmem := huses.mem_iff.1 (List.mem_filterMap.2 ⟨r, hr, hu⟩)
        rw [hrange, ← localUse_range hu]
        exact (hapart u hmem a ha).symm
      rw [hnone]
      exact hr
    · obtain ⟨a, ha, hca⟩ := PhraseTree.exists_of_mem hchildren hc
      obtain ⟨q, hq⟩ := hchosen a ha
      have hcontains : c.range.containsRange r.range = true := by
        obtain ⟨range, hrange, hcontains⟩ := hca.range_contains (hlaid a ha) hq hu hr
        obtain ⟨hcrange, -, -⟩ := hca
        have heq : src.rangeOf (some q) = range := congrArg (Option.getD · _) hrange
        rwa [hcrange, hq, heq]
      -- the scopes in front of it are apart from it, so it is the first that contains the position
      have hpair : s.children.Pairwise fun x y => x.range.Apart y.range := by
        have hmap : (s.children.map (·.range)).Pairwise Range.Apart := by
          rw [ranges_eq hchildren]
          exact List.pairwise_map.2 hbeside
        exact List.pairwise_map.1 hmap
      obtain ⟨front, back, hsplit⟩ := List.append_of_mem hc
      have hfront : ∀ x ∈ front, ¬ x.range.contains p = true := by
        intro x hx
        refine hoff x (hsplit ▸ List.mem_append_left _ hx) ?_
        rw [hsplit] at hpair
        exact ((List.pairwise_append.1 hpair).2.2 x hx c List.mem_cons_self).of_containsRange hcontains
      have hfound : s.children.find? (·.range.contains p) = some c := by
        have hcp : c.range.contains p = true := Range.contains_of_containsRange hcontains hp
        rw [hsplit, List.find?_append, List.find?_eq_none.2 hfront, Option.none_or, List.find?_cons, hcp]
      rw [hfound]
      exact ih c hc hca (hlaid a ha) hr fun x hx => hb x (mem_nested.2 ⟨c, hc, Or.inr hx⟩)

end ScopeTree

/-- Every use of a variable is written as a token of its phrase. -/
theorem Source.used_placed (src : Source) : src.used.Placed src LocalUse.range := by
  have hoption : ∀ (p : Phrase) (kind : SymbolKind), ∀ u ∈ ((p.token? .variableName).map (src.use kind)).toList,
      ∃ t ∈ p.tokens, u.range = src.tokenRange t := by
    intro p kind u hu
    obtain ⟨t, ht, rfl⟩ := Option.map_eq_some_iff.1 (Option.mem_toList.1 hu)
    exact ⟨t, List.mem_of_find?_eq_some ht, rfl⟩
  have hall : ∀ p : Phrase, ∀ u ∈ (p.tokens.filter (·.kind == .variableName)).map (src.use .var),
      ∃ t ∈ p.tokens, u.range = src.tokenRange t := by
    intro p u hu
    obtain ⟨t, ht, rfl⟩ := List.mem_map.1 hu
    exact ⟨t, List.mem_of_mem_filter ht, rfl⟩
  intro p u hu
  obtain ⟨kind, children⟩ := p
  cases kind
  case simpleVariable => exact hoption _ _ u hu
  case parameterDeclaration => exact hoption _ _ u hu
  case catchClause => exact hall _ u hu
  case anonymousFunctionUseClause => exact hall _ u hu
  all_goals exact absurd hu List.not_mem_nil

namespace Reference

theorem sameName_self (r : Reference) : r.sameName r = true := by
  have hname : r.kind.family.sameNames r.name r.name = true := by
    unfold SymbolKind.sameNames Text.sameFolded
    split <;> exact beq_self_eq_true _
  unfold sameName
  rw [Bool.and_eq_true]
  refine ⟨beq_self_eq_true _, List.any_eq_true.2 ⟨r.name, List.mem_cons_self, ?_⟩⟩
  exact List.any_eq_true.2 ⟨r.name, List.mem_cons_self, hname⟩

end Reference

namespace Workspace

variable {w : Workspace} {uri : String} {p : Position} {r : Reference} {o : Occurrences}

/-- A reference to something other than a variable is among its own uses. -/
private theorem mem_usesAt_of_not_local (h : w.references.Indexed) (ho : w.references.get? uri = some o)
    (hr : o.referenceAt? p = some r) (hmem : r ∈ o.sorted) (hlocal : r.kind.isLocal = false) :
    (uri, r) ∈ w.usesAt uri p := by
  have huri : o.uri = uri := by simpa using List.find?_some ho
  have hfound : (uri, r) ∈ w.references.mentionsOf r := by
    rw [h.mentionsOf_eq_select hlocal]
    refine List.mem_flatMap.2 ⟨o, List.mem_mergeSort.2 (List.mem_of_find?_eq_some ho), ?_⟩
    exact List.mem_map.2 ⟨r, List.mem_filter.2 ⟨hmem, r.sameName_self⟩, by rw [huri]⟩
  unfold usesAt
  rw [ho]
  dsimp only
  rw [hr]
  dsimp only
  rw [hlocal, if_neg Bool.false_ne_true]
  split
  · split
    · exact hfound
    · rename_i hdeclarations
      -- its own declarations are found again
      refine List.mem_filter.2 ⟨hfound, ?_⟩
      obtain ⟨s, hs⟩ := List.exists_mem_of_ne_nil _ hdeclarations
      exact List.any_eq_true.2 ⟨s, hs, List.any_eq_true.2 ⟨s, hs, beq_self_eq_true _⟩⟩
  · exact hfound

/-- A variable is among its own uses just when it belongs to the scope around the position. -/
private theorem mem_usesAt_of_local (ho : w.references.get? uri = some o) (hr : o.referenceAt? p = some r)
    (hlocal : r.kind.isLocal = true) : (uri, r) ∈ w.usesAt uri p ↔ r ∈ o.scopeUsesAt p := by
  have huri : o.uri = uri := by simpa using List.find?_some ho
  unfold usesAt
  rw [ho]
  dsimp only
  rw [hr]
  dsimp only
  rw [if_pos hlocal, List.mem_map]
  constructor
  · rintro ⟨r', hr', heq⟩
    rw [← (Prod.mk.inj heq).2]
    exact List.mem_of_mem_filter hr'
  · intro hmem
    exact ⟨r, List.mem_filter.2 ⟨hmem, r.sameName_self⟩, by rw [huri]⟩

/-- Some reference is found at a position that one of the references of the document contains. -/
private theorem exists_reference {root : ScopeTree} (ho : w.references.get? uri = some (Occurrences.ofScope uri root))
    (h : root.collect.any (·.range.contains p) = true) :
    ∃ r, w.referenceAt? uri p = some r ∧ r ∈ root.collect ∧ r.range.contains p = true := by
  have hfind : w.referenceAt? uri p = (Occurrences.ofScope uri root).referenceAt? p := by
    unfold referenceAt?
    rw [ho]
    rfl
  cases hr : (Occurrences.ofScope uri root).referenceAt? p with
  | none =>
    obtain ⟨r, hr', hp⟩ := List.any_eq_true.1 h
    exact absurd hp ((Occurrences.referenceAt_eq_none _ _ _).1 hr r hr')
  | some r =>
    obtain ⟨front, back, hsplit, hp, -⟩ := Occurrences.referenceAt_split hr
    have hcollect : r ∈ root.collect :=
      (Occurrences.sorted_perm _ root).mem_iff.1 (hsplit ▸ List.mem_append_right front List.mem_cons_self)
    exact ⟨r, hfind.trans hr, hcollect, hp⟩

/-- After any sequence of changes, the reference found at a position is among the uses found there, unless it is one to a
variable and does not belong to the scope around the position.  With the tokens of its document in order, and at
offsets of 32 bits, it does belong to it, unless a scope ends where the variable begins, or begins where it ends, and
this is at the position. -/
theorem uses_contain_iff (settings : Settings) (steps : List WorkspaceStep) (uri : String) (p : Position) :
    ∃ w, run settings steps = .ok w ∧ ∀ r, w.referenceAt? uri p = some r → ∃ d o, current steps uri = some d ∧
      w.references.get? uri = some o ∧
      ((uri, r) ∈ w.usesAt uri p ↔ (r.kind.isLocal = true → r ∈ o.scopeUsesAt p)) ∧
      (d.InOrder → d.InBounds → (∀ s ∈ o.root.nested, ¬ s.range.MeetAt r.range p) →
        (uri, r) ∈ w.usesAt uri p) := by
  obtain ⟨w, hw, h⟩ := run_holds settings steps
  refine ⟨w, hw, fun r hr => ?_⟩
  obtain ⟨o, ho, hr⟩ := Option.bind_eq_some_iff.1 hr
  obtain ⟨d, pool, hd, hread⟩ := h.references.reads uri o ho
  have hr' := hr
  rw [hread] at hr'
  obtain ⟨front, back, hsplit, hp, -⟩ := Occurrences.referenceAt_split hr'
  have hsorted : r ∈ o.sorted := by
    rw [hread]
    exact hsplit ▸ List.mem_append_right _ List.mem_cons_self
  have hcollect : r ∈ o.root.collect := by
    rw [hread] at hsorted ⊢
    exact (Occurrences.sorted_perm _ _).mem_iff.1 hsorted
  refine ⟨d, o, hd, ho, ?_, fun horder _ hb => ?_⟩
  · cases hlocal : r.kind.isLocal with
    | false =>
      exact ⟨fun _ h => absurd h Bool.false_ne_true,
        fun _ => mem_usesAt_of_not_local h.references.indexed ho hr hsorted hlocal⟩
    | true => exact (mem_usesAt_of_local ho hr hlocal).trans ⟨fun h _ => h, fun h => h rfl⟩
  · cases hlocal : r.kind.isLocal with
    | false => exact mem_usesAt_of_not_local h.references.indexed ho hr hsorted hlocal
    | true =>
      refine (mem_usesAt_of_local ho hr hlocal).2 ?_
      have hu : r.localUse? = some ⟨r.kind, r.name, r.range⟩ := if_pos hlocal
      have hrecords : o.root.Records (Source.ofDocument d) ((Source.ofDocument d).used.ofRoot d.tree) := by
        rw [hread]
        exact ReferenceState.ofDocument_records d pool
      exact hrecords.mem_innermost (Harvest.laidOut (Source.used_placed _) horder) hu hcollect hp hb

/-- A variable right after a function: `function f(){}$x=1;`. -/
private def variableAfterFunction : Document :=
  ⟨"file:///a.php", "<?php\nfunction f()\x7b\x7d$x=1;\n",
    ⟨.statementList, [
      .phrase .functionDeclaration [
        .phrase .functionDeclarationHeader [.token ⟨.functionKeyword, 6, 8⟩, .token ⟨.name, 15, 1⟩,
          .token ⟨.openParen, 16, 1⟩, .token ⟨.closeParen, 17, 1⟩],
        .phrase .functionDeclarationBody [.phrase .compoundStatement [
          .token ⟨.openBrace, 18, 1⟩, .token ⟨.closeBrace, 19, 1⟩]]],
      .phrase .expressionStatement [
        .phrase .simpleAssignmentExpression [.phrase .simpleVariable [.token ⟨.variableName, 20, 2⟩],
          .token ⟨.equals, 22, 1⟩, .token ⟨.integerLiteral, 23, 1⟩],
        .token ⟨.semicolon, 24, 1⟩]]⟩⟩

/-- One place further, the variable is among its uses. -/
theorem uses_contain_iff_variableAfterFunction : variableAfterFunction.InOrder ∧ variableAfterFunction.InBounds ∧
    ∃ w r, run {} [.analyze variableAfterFunction] = .ok w ∧ w.referenceAt? "file:///a.php" ⟨1, 15⟩ = some r ∧
      ("file:///a.php", r) ∈ w.usesAt "file:///a.php" ⟨1, 15⟩ := by
  have horder : variableAfterFunction.InOrder := by
    unfold Document.InOrder Token.Before
    decide
  have hbounds : variableAfterFunction.InBounds := by
    unfold Document.InBounds
    decide
  have hfacts : ∃ w root, run {} [.analyze variableAfterFunction] = .ok w ∧
      w.references.get? "file:///a.php" = some (Occurrences.ofScope "file:///a.php" root) ∧
      root.collect.any (·.range.contains ⟨1, 15⟩) = true ∧
      root.nested.map (·.range) = [⟨⟨1, 0⟩, ⟨1, 14⟩⟩] :=
    ⟨_, _, rfl, rfl, by decide +kernel⟩
  obtain ⟨w, root, hw, ho, hfound, hnested⟩ := hfacts
  obtain ⟨r, hr, -, -⟩ := exists_reference ho hfound
  obtain ⟨w', hw', h⟩ := uses_contain_iff {} [.analyze variableAfterFunction] "file:///a.php" ⟨1, 15⟩
  obtain rfl : w' = w := Except.ok.inj (hw'.symm.trans hw)
  obtain ⟨d, o, hd, ho', -, hmem⟩ := h r hr
  obtain rfl : variableAfterFunction = d := Option.some.inj hd
  obtain rfl : Occurrences.ofScope "file:///a.php" root = o := Option.some.inj (ho.symm.trans ho')
  refine ⟨horder, hbounds, w', r, hw, hr, hmem horder hbounds fun s hs => ?_⟩
  have hrange : s.range ∈ root.nested.map (·.range) := List.mem_map_of_mem hs
  rw [hnested, List.mem_singleton] at hrange
  rw [hrange]
  rintro (⟨hstop, -⟩ | ⟨-, hstart⟩)
  · cases hstop
  · cases hstart

/-- Where the function ends, the variable is found, but among the uses in the function. -/
theorem variable_after_function_missed : ∃ w r, run {} [.analyze variableAfterFunction] = .ok w ∧
    w.referenceAt? "file:///a.php" ⟨1, 14⟩ = some r ∧
    ("file:///a.php", r) ∉ w.usesAt "file:///a.php" ⟨1, 14⟩ := by
  have hfacts : ∃ w root, run {} [.analyze variableAfterFunction] = .ok w ∧
      w.references.get? "file:///a.php" = some (Occurrences.ofScope "file:///a.php" root) ∧
      root.collect.any (·.range.contains ⟨1, 14⟩) = true ∧
      (root.collect.filter fun r => r.range.contains ⟨1, 14⟩).map (·.kind) = [.var] ∧
      (root.innermost ⟨1, 14⟩).references = [] :=
    ⟨_, _, rfl, rfl, by decide +kernel⟩
  obtain ⟨w, root, hw, ho, hfound, hkinds, hnone⟩ := hfacts
  obtain ⟨r, hr, hcollect, hp⟩ := exists_reference ho hfound
  have hkind : r.kind ∈ (root.collect.filter fun r => r.range.contains ⟨1, 14⟩).map (·.kind) :=
    List.mem_map_of_mem (List.mem_filter.2 ⟨hcollect, hp⟩)
  rw [hkinds, List.mem_singleton] at hkind
  refine ⟨w, r, hw, hr, fun hmem => ?_⟩
  have hr' : (Occurrences.ofScope "file:///a.php" root).referenceAt? ⟨1, 14⟩ = some r := by
    unfold referenceAt? at hr
    rwa [ho] at hr
  have huse : r ∈ (root.innermost ⟨1, 14⟩).references :=
    (mem_usesAt_of_local ho hr' (by rw [hkind]; rfl)).1 hmem
  rw [hnone] at huse
  cases huse

end Workspace

end CodeAtlas
