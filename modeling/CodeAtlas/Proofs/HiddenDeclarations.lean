import CodeAtlas.Proofs.DeclarationInduction
import CodeAtlas.Proofs.Pairing

/-!
# Hidden declarations

The reference walk looks into declarations of properties, constants and used traits, and the declaration walk does not.
So a closure in the initial value of a constant is entered by one walk only, and has no symbol (`hidden_closure`).
Everywhere else the two agree: a declaration that the reference walk comes to has a symbol of its own in the table
exactly when no phrase around it hides it (`declared_iff_exposed`).
-/

namespace CodeAtlas

/-! ### Where a walk comes to -/

/-- If entering goes by the kind of a phrase, a walk comes to the place of another walk's visit exactly when it enters
all phrases on the way. -/
theorem Visitor.visitBelow_iff_entered {σ τ : Type} {v : Visitor σ} {w : Visitor τ} {looks : PhraseKind → Bool}
    (hw : ∀ t p path, (w.enter t p path).2 = looks p.kind) (place : List Nat) {p : Phrase} {path : List Phrase}
    {s : σ} {r : Visit σ} (h : v.visitBelow? place p path s = some r) :
    ∃ inner, r.path = inner ++ path ∧ ∀ t, (∃ e, w.visitBelow? place p path t = some e ∧ e.phrase = r.phrase) ↔
      ∀ q ∈ inner, looks q.kind = true := by
  induction place generalizing p path s with
  | nil =>
    obtain rfl := Option.some.inj h
    exact ⟨[], rfl, fun t => ⟨fun _ => nofun, fun _ => ⟨⟨p, path, t⟩, rfl, rfl⟩⟩⟩
  | cons i place ih =>
    obtain ⟨s', kind, children, -, hc, hr⟩ := visitBelow_cons h
    obtain ⟨inner, hpath, hinner⟩ := ih hr
    refine ⟨inner ++ [p], by rw [hpath, List.append_assoc]; rfl, fun t => ?_⟩
    have hlook := hw t p path
    rcases ht : w.enter t p path with ⟨t', entered⟩
    rw [ht] at hlook
    have hall : (∀ q ∈ inner ++ [p], looks q.kind = true) ↔ (∀ q ∈ inner, looks q.kind = true) ∧ entered = true := by
      rw [List.forall_mem_append, List.forall_mem_singleton, ← hlook]
    rw [hall]
    cases entered with
    | false =>
      rw [visitBelow_refused ht]
      exact ⟨nofun, fun h => nomatch h.2⟩
    | true =>
      rw [visitBelow_entered ht hc, hinner]
      exact ⟨fun h => ⟨h, rfl⟩, fun h => h.1⟩

/-! ### Symbols that stay in the tree -/

namespace Symbol

/-- What is below a symbol stays below it when the symbol grows. -/
theorem Grows.below {a b s : Symbol} (h : a.Grows b) (hs : s ∈ descendantsOf a.children) :
    s ∈ descendantsOf b.children := by
  obtain ⟨c, hc, hs⟩ := mem_descendantsOf.1 hs
  exact mem_descendantsOf.2 ⟨c, h.children.subset hc, hs⟩

/-- What is below a child is below the symbol. -/
theorem below_addChild {a child s : Symbol} (hs : s ∈ child.descendants) :
    s ∈ descendantsOf (a.addChild child).children :=
  mem_descendantsOf.2 ⟨child, List.mem_append_right _ List.mem_cons_self, hs⟩

end Symbol

namespace DeclarationState

/-- The symbol is somewhere below the innermost open one. -/
def Keeps (t : DeclarationState) (s : Symbol) : Prop :=
  ∃ top, t.opened.head? = some top ∧ s ∈ Symbol.descendantsOf top.children

variable {s : Symbol} {t t₂ t' : DeclarationState}

theorem Keeps.progress (hs : t.Keeps s) (h : t.Progress t') : t'.Keeps s := by
  obtain ⟨top₀, below, top', below', ht, ht', hg, -⟩ := h.opened
  obtain ⟨top, htop, hs⟩ := hs
  rw [ht] at htop
  obtain rfl : top₀ = top := Option.some.inj htop
  exact ⟨top', by rw [ht']; rfl, hg.below hs⟩

/-- The innermost of some open symbols keeps what is below it when all of them grow. -/
private theorem keeps_of_growth {top : Symbol} {below : List Symbol}
    (h : List.Forall₂ Symbol.GrowsQuietly (top :: below) t'.opened) (hs : s ∈ Symbol.descendantsOf top.children) :
    t'.Keeps s := by
  obtain ⟨top', below', hg, -, ho⟩ := List.forall₂_cons_left_iff.1 h
  exact ⟨top', by rw [ho]; rfl, hg.grows.below hs⟩

/-- Leaving a phrase keeps what is below the innermost open symbol: either the symbol stays open, or it becomes a child
of the one around it. -/
private theorem keeps_leave (src : Source) {p : Phrase} (hne : t.opened ≠ []) (he : (t.enter src p).2 = true)
    (hp : (t.enter src p).1.Progress t₂) (hs : t₂.Keeps s) : (t₂.leave p).Keeps s := by
  obtain ⟨top, htop, hs⟩ := hs
  cases hk : p.kind.family? with
  | none =>
    obtain ⟨-, frame, hf, hframe⟩ := enter_unopened src t p hk he
    have hg := (leave_growth (hp.frames.trans hf) hframe p).1
    cases ho : t₂.opened with
    | nil =>
      rw [ho] at htop
      cases htop
    | cons top₀ below =>
      rw [ho] at htop hg
      obtain rfl : top₀ = top := Option.some.inj htop
      exact keeps_of_growth hg hs
  | some family =>
    obtain ⟨-, symbol, built, outer, below, h⟩ := declares_of_progress src hk hne hp
    rw [h.finished] at htop
    obtain rfl : built = top := Option.some.inj htop
    refine keeps_of_growth h.left (Symbol.below_addChild ?_)
    rw [Symbol.descendants_eq]
    exact List.mem_cons_of_mem _ hs

/-- Whatever is kept by the children of a phrase is kept by the phrase. -/
private theorem keeps_walkNode (src : Source) {p : Phrase} {path : List Phrase} (hne : t.opened ≠ [])
    (he : (t.enter src p).2 = true)
    (hs : ((visitor src).walkNodes (p :: path) p.children (t.enter src p).1).Keeps s) :
    ((visitor src).walkNode path p.toNode t).Keeps s := by
  have hr : (visitor src).enter t ⟨p.kind, p.children⟩ path = ((t.enter src p).1, true) := Prod.ext rfl he
  unfold Phrase.toNode
  rw [Visitor.walkNode_entered _ hr]
  exact keeps_leave src hne he (walkNodes_progress src (p :: path) p.children _ (enter_ne_nil src hne he)) hs

/-- The symbol of a declaration that the walk comes to stays below the symbol that is open around the walk. -/
theorem visitBelow_keeps (src : Source) (place : List Nat) {p : Phrase} {path : List Phrase} (hne : t.opened ≠ [])
    {e : Visit DeclarationState} (h : (visitor src).visitBelow? place p path t = some e) {family : DeclarationFamily}
    (hf : e.phrase.kind.family? = some family) :
    ∃ symbol, (e.last (visitor src)).opened.head? = some symbol ∧ symbol.PairedAs (some family) ∧
      ((visitor src).walkNode path p.toNode t).Keeps symbol := by
  induction place generalizing p path t with
  | nil =>
    obtain rfl := Option.some.inj h
    have he := (enter_declaration src t p hf).opens.1
    have hr : (visitor src).enter t ⟨p.kind, p.children⟩ path = ((t.enter src p).1, true) := Prod.ext rfl he
    have hp := walkNodes_progress src (p :: path) p.children _ (enter_ne_nil src hne he)
    obtain ⟨-, symbol, built, top, below, hd⟩ := declares_of_progress src hf hne hp
    refine ⟨built, congrArg List.head? hd.finished, hd.paired, ?_⟩
    unfold Phrase.toNode
    rw [Visitor.walkNode_entered _ hr]
    refine keeps_of_growth hd.left (Symbol.below_addChild ?_)
    rw [Symbol.descendants_eq]
    exact List.mem_cons_self
  | cons i place ih =>
    obtain ⟨t', kind, children, ht, hc, hr⟩ := Visitor.visitBelow_cons h
    have he : (t.enter src p).2 = true := congrArg Prod.snd ht
    have ht' : (t.enter src p).1 = t' := congrArg Prod.fst ht
    have hne' : t'.opened ≠ [] := ht' ▸ enter_ne_nil src hne he
    have hp₁ := walkNodes_progress src (p :: path) (p.children.take i) t' hne'
    obtain ⟨symbol, hlast, hpair, hkeeps⟩ := ih hp₁.ne_nil hr
    have hp₂ := walkNode_progress src (p :: path) (.phrase kind children) _ hp₁.ne_nil
    have hp₃ := walkNodes_progress src (p :: path) (p.children.drop (i + 1)) _ hp₂.ne_nil
    refine ⟨symbol, hlast, hpair, keeps_walkNode src hne he ?_⟩
    -- the declaration is in the child at `i`, and the children after it only add to the open symbols
    rw [ht', split_at hc, Visitor.walkNodes_append, Visitor.walkNodes]
    exact hkeeps.progress hp₃

end DeclarationState

/-! ### Documents -/

namespace Document

/-- The phrases around a phrase that the reference walk comes to are neither errors nor imports. -/
private theorem referenceVisit_path {d : Document} {pool : SymbolPool} {place : List Nat} {r : Visit ReferenceState}
    (hr : d.referenceVisit? pool place = some r) :
    ∀ q ∈ r.path, (q.kind != .error && q.kind != .namespaceUseDeclaration) = true := by
  let env : ReferenceInput := ⟨Source.ofDocument d, (SymbolTable.ofDocument d).uri, pool⟩
  let looks : PhraseKind → Bool := fun k => k != .error && k != .namespaceUseDeclaration
  have hlooks : ∀ s p path, ((ReferenceState.visitor env).enter s p path).2 = looks p.kind :=
    ReferenceState.enter_snd env
  obtain ⟨inner, hpath, hinner⟩ := Visitor.visitBelow_iff_entered hlooks place hr
  rw [hpath, List.append_nil]
  exact (hinner _).1 ⟨r, hr, rfl⟩

/-- The declaration walk comes to a phrase of the reference walk exactly when no phrase around it hides it. -/
private theorem declarationVisit_iff {d : Document} {pool : SymbolPool} {place : List Nat} {r : Visit ReferenceState}
    (hr : d.referenceVisit? pool place = some r) :
    (∃ e, d.declarationVisit? place = some e ∧ e.phrase = r.phrase) ↔ ∀ q ∈ r.path, q.kind.hides = false := by
  let looks : PhraseKind → Bool := fun k => k != .error && k != .namespaceUseDeclaration && !k.hides
  have hlooks : ∀ t p path, ((DeclarationState.visitor (Source.ofDocument d)).enter t p path).2 = looks p.kind :=
    fun t p _ => DeclarationState.enter_snd (Source.ofDocument d) t p
  obtain ⟨inner, hpath, hinner⟩ := Visitor.visitBelow_iff_entered hlooks place hr
  have houter := referenceVisit_path hr
  rw [hpath, List.append_nil] at houter ⊢
  unfold declarationVisit? Visitor.visit?
  rw [hinner]
  constructor
  · intro h q hq
    have hq := h q hq
    simp only [looks, Bool.and_eq_true, Bool.not_eq_true'] at hq
    exact hq.2
  · intro h q hq
    simp only [looks, houter q hq, h q hq, Bool.not_false, Bool.and_true]

/-- A declaration that the reference walk comes to has a symbol of its own in the table of the document exactly when no
phrase around it is a declaration of properties, constants or used traits. -/
theorem declared_iff_exposed (d : Document) (pool : SymbolPool) (place : List Nat) (r : Visit ReferenceState)
    (family : DeclarationFamily) (hr : d.referenceVisit? pool place = some r)
    (hf : r.phrase.kind.family? = some family) :
    (∃ e symbol, d.declarationVisit? place = some e ∧ e.phrase = r.phrase ∧
      (e.last (DeclarationState.visitor (Source.ofDocument d))).opened.head? = some symbol ∧
      symbol.PairedAs (some family) ∧ symbol ∈ (SymbolTable.ofDocument d).symbols) ↔
    ∀ q ∈ r.path, q.kind.hides = false := by
  rw [← declarationVisit_iff hr]
  constructor
  · rintro ⟨e, symbol, he, hp, -⟩
    exact ⟨e, he, hp⟩
  · rintro ⟨e, he, hp⟩
    obtain ⟨symbol, hlast, hpair, top, htop, hs⟩ := DeclarationState.visitBelow_keeps (Source.ofDocument d) place
      (List.cons_ne_nil _ _) he (hp ▸ hf)
    obtain ⟨top', below, ho, hg⟩ := d.leads_root
    rw [ho] at htop
    obtain rfl : top' = top := Option.some.inj htop
    refine ⟨e, symbol, he, hp, hlast, hpair, ?_⟩
    unfold SymbolTable.symbols
    rw [Symbol.descendants_eq]
    exact List.mem_cons_of_mem _ (hg.below hs)

/-- Two closures, the first of them in the value of a constant. -/
private def closureInConstant : Document :=
  ⟨"file:///a.php", "<?php const F = fn($a) => 1; $g = fn($b) => 2;",
    ⟨.statementList, [
      .phrase .constDeclaration [.phrase .constElement [.token ⟨.name, 12, 1⟩, .token ⟨.equals, 14, 1⟩,
        .phrase .arrowFunctionCreationExpression [.phrase .parameterDeclarationList [
          .phrase .parameterDeclaration [.token ⟨.variableName, 19, 2⟩]]]]],
      .phrase .expressionStatement [.phrase .simpleAssignmentExpression [
        .phrase .simpleVariable [.token ⟨.variableName, 29, 2⟩], .token ⟨.equals, 32, 1⟩,
        .phrase .arrowFunctionCreationExpression [.phrase .parameterDeclarationList [
          .phrase .parameterDeclaration [.token ⟨.variableName, 37, 2⟩]]]]]]⟩⟩

theorem declared_iff_exposed_second : ∃ r,
    closureInConstant.referenceVisit? (SymbolPool.empty {}) [1, 0, 2] = some r ∧
    r.phrase.kind.family? = some .closure ∧ ∃ e symbol, closureInConstant.declarationVisit? [1, 0, 2] = some e ∧
      e.phrase = r.phrase ∧
      (e.last (DeclarationState.visitor (Source.ofDocument closureInConstant))).opened.head? = some symbol ∧
      symbol.PairedAs (some .closure) ∧ symbol ∈ (SymbolTable.ofDocument closureInConstant).symbols := by
  refine ⟨_, rfl, rfl, ?_⟩
  refine (declared_iff_exposed closureInConstant (SymbolPool.empty {}) [1, 0, 2] _ .closure rfl rfl).2 ?_
  exact List.forall_mem_cons.2 ⟨rfl, List.forall_mem_cons.2 ⟨rfl, List.forall_mem_cons.2 ⟨rfl, nofun⟩⟩⟩

/-- The reference walk enters the closure in the value of the constant, to which the declaration walk does not come.
The symbol that it takes for this closure is that of the other one. -/
theorem hidden_closure : (∃ r, closureInConstant.referenceVisit? (SymbolPool.empty {}) [0, 0, 2] = some r ∧
      r.phrase.kind.family? = some .closure) ∧
    closureInConstant.declarationVisit? [0, 0, 2] = none ∧
    ((closureInConstant.referenceVisit? (SymbolPool.empty {}) [0, 0, 2]).bind fun r =>
      (r.before.nextSymbol? .closure).map fun symbol => symbol.children.map (·.name)) = some ["$b"] := by
  refine ⟨⟨_, rfl, rfl⟩, rfl, ?_⟩
  unfold referenceVisit? SymbolTable.ofDocument
  rw [fileSymbol_eq_walk]
  decide +kernel

end Document

end CodeAtlas
