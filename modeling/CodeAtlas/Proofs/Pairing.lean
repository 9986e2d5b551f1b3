import CodeAtlas.Proofs.Crossing

/-!
# Pairing of declarations

Wherever the reference walk comes to a declaration, the innermost cursor gives it the symbol that the declaration walk
builds for that same phrase, and the naming contexts of both walks agree after each phrase that both enter.  Visits of
the two walks are compared by the place of the phrase in the tree.
-/

namespace CodeAtlas

/-- A phrase that the reference walk comes to, compared with the visit of the declaration walk at the same place, if
there is one. -/
structure VisitsAgree (env : ReferenceInput) (r : Visit ReferenceState) (e? : Option (Visit DeclarationState)) :
    Prop where
  /-- For a declaration with a body, the cursor gives the symbol that is open when the declaration walk leaves the
  phrase, and the next cursor is on that symbol. -/
  declaration : ∀ family, r.phrase.kind.family? = some family → ∃ e symbol, e? = some e ∧ e.phrase = r.phrase ∧
    (e.last (DeclarationState.visitor env.source)).opened.head? = some symbol ∧
    r.before.nextSymbol? family = some symbol ∧
    (r.after (ReferenceState.visitor env)).cursors.head?.map (·.symbol) = some symbol
  /-- For a clause of a use declaration, the cursor gives the symbol that the declaration walk adds for the clause. -/
  clause : r.phrase.kind = .namespaceUseDeclaration → ∃ e, e? = some e ∧ e.phrase = r.phrase ∧
    ∀ earlier clause later,
      r.phrase.phrases.filter (·.kind == .namespaceUseClause) = earlier ++ clause :: later →
      (clause.phrase? .namespaceName).isSome = true → ∃ i top,
        env.source.importOfClause? (Source.importedKind r.phrase .cls) (env.source.spaceName r.phrase) clause =
          some i ∧
        (e.after (DeclarationState.visitor env.source)).opened.head? = some top ∧
        env.source.importSymbol i ∈ top.children ∧
        (earlier.foldl (ReferenceState.useClause env.source) r.before).nextSymbol? .imported =
          some (env.source.importSymbol i)
  /-- The naming contexts right after entering. -/
  contexts : ∀ e, e? = some e → e.phrase = r.phrase ∧
    (r.after (ReferenceState.visitor env)).resolver = (e.after (DeclarationState.visitor env.source)).resolver

section

variable {env : ReferenceInput} {path : List Phrase} {p : Phrase} {t : DeclarationState} {s : ReferenceState}
  {final : Symbol} {rest : List Cursor}

/-- A phrase that the declaration walk looks into is walked over as a crossing says. -/
private theorem walkNode_eq_leave (hd : (t.enter env.source p).2 = true) :
    (DeclarationState.visitor env.source).walkNode path p.toNode t =
      (t.beforeLeaving env.source path p).leave p := by
  have hr : (DeclarationState.visitor env.source).enter t ⟨p.kind, p.children⟩ path =
      ((t.enter env.source p).1, true) := Prod.ext rfl hd
  exact Visitor.walkNode_entered _ hr

private theorem walkNode_eq_enter (hd : (t.enter env.source p).2 = false) :
    (DeclarationState.visitor env.source).walkNode path p.toNode t = (t.enter env.source p).1 := by
  have hr : (DeclarationState.visitor env.source).enter t ⟨p.kind, p.children⟩ path =
      ((t.enter env.source p).1, false) := Prod.ext rfl hd
  exact Visitor.walkNode_refused _ hr

private theorem contexts_agree (h : InStep final rest t s)
    (hl : ((DeclarationState.visitor env.source).walkNode path p.toNode t).Leads final) :
    (s.enter env p path).1.resolver = (t.enter env.source p).1.resolver := by
  cases hd : (t.enter env.source p).2 with
  | true =>
    rw [walkNode_eq_leave hd] at hl
    obtain ⟨_, _, _, hc⟩ := exists_crossing h hd hl
    exact hc.inStep.resolver
  | false =>
    cases hk : p.kind.declares with
    | false =>
      have hs : (s.enter env p path).1.resolver = s.resolver := by
        rcases (ReferenceState.enter_plain env s p path hk).inside with ⟨-, hs⟩ | ⟨-, hs⟩
        · exact hs.resolver
        · exact hs.resolver
      rw [hs, h.resolver]
      exact (InStep.refused h hk hd ⟨rfl, rfl, rfl⟩).resolver.symm.trans h.resolver |>.symm
    | true =>
      have hi := imports_of_refused hk hd
      rw [walkNode_eq_enter hd] at hl
      rw [DeclarationState.enter_imports env.source t p hi] at hl ⊢
      rw [ReferenceState.enter_imports env s p path hi]
      exact (InStep.useClauses (Source.importedKind_ne_method SymbolKind.noConfusion) _ h hl).1.resolver

/-- The symbol of an import stays among the children of the innermost open symbol. -/
private theorem DeclarationState.Progress.child {t t' : DeclarationState} (h : t.Progress t') {top : Symbol}
    (ht : t.opened.head? = some top) {c : Symbol} (hc : c ∈ top.children) :
    ∃ top', t'.opened.head? = some top' ∧ c ∈ top'.children := by
  obtain ⟨top₀, _, top', _, ho, ho', hg, -⟩ := h.opened
  rw [ho] at ht
  obtain rfl : top₀ = top := Option.some.inj ht
  exact ⟨top', by rw [ho']; rfl, hg.children.subset hc⟩

private theorem clause_agrees {src : Source} {kind : SymbolKind} (hk : kind ≠ .method) {outer : String}
    (h : InStep final rest t s) {earlier : List Phrase} {clause : Phrase} {later : List Phrase} {i : Source.Import}
    (hi : src.importOfClause? kind outer clause = some i)
    (hl : (((earlier ++ clause :: later).filterMap (src.importOfClause? kind outer)).foldl
      (DeclarationState.addImport src) t).Leads final) :
    ∃ top, (((earlier ++ clause :: later).filterMap (src.importOfClause? kind outer)).foldl
        (DeclarationState.addImport src) t).opened.head? = some top ∧
      src.importSymbol i ∈ top.children ∧
      (earlier.foldl (ReferenceState.useClause src) s).nextSymbol? .imported = some (src.importSymbol i) := by
  rw [List.filterMap_append, List.filterMap_cons_some hi, List.foldl_append, List.foldl_cons] at hl ⊢
  have hp₁ := DeclarationState.addImports_progress src (earlier.filterMap (src.importOfClause? kind outer)) h.ne_nil
  have hp₂ := DeclarationState.addImport_progress src i hp₁.ne_nil
  have hp₃ := DeclarationState.addImports_progress src (later.filterMap (src.importOfClause? kind outer)) hp₂.ne_nil
  have hl₂ := hp₃.leads hl
  obtain ⟨h₁, -⟩ := InStep.useClauses hk earlier h (hp₂.leads hl₂)
  obtain ⟨hn, -, -⟩ := InStep.useClause hk hi h₁ hl₂
  obtain ⟨top, below, ht, -⟩ := h₁.cursors
  have ho := congrArg (·.opened.head?) (DeclarationState.addImport_of_opened src i ht)
  obtain ⟨top', ho', hc⟩ := hp₃.child ho (List.mem_append_right top.children List.mem_cons_self)
  exact ⟨top', ho', hc, hn⟩

/-- At the phrase that both walks come to. -/
private theorem visits_agree_here (h : InStep final rest t s)
    (hl : ((DeclarationState.visitor env.source).walkNode path p.toNode t).Leads final) :
    VisitsAgree env ⟨p, path, s⟩ (some ⟨p, path, t⟩) := by
  refine ⟨?_, ?_, ?_⟩
  · intro family hf
    have hd := (DeclarationState.enter_declaration env.source t p hf).opens.1
    rw [walkNode_eq_leave hd] at hl
    obtain ⟨inner, _, _, hc⟩ := exists_crossing h hd hl
    obtain ⟨hn, hlast⟩ := hc.taken family hf
    obtain ⟨_, _, -, hcur⟩ := hc.inStep.cursors
    have hcur' : (s.enter env p path).1.cursors.head?.map (·.symbol) = some inner := by
      rw [hcur]
      rfl
    exact ⟨_, inner, rfl, rfl, hlast, hn, hcur'⟩
  · intro hi
    have ht := DeclarationState.enter_imports env.source t p hi
    rw [walkNode_eq_enter (by rw [ht])] at hl
    refine ⟨_, rfl, rfl, ?_⟩
    intro earlier clause later hsplit hname
    obtain ⟨name, hname⟩ := Option.isSome_iff_exists.1 hname
    have hi' : ∃ i, env.source.importOfClause? (Source.importedKind p .cls) (env.source.spaceName p) clause =
        some i := by
      unfold Source.importOfClause?
      rw [hname]
      exact ⟨_, rfl⟩
    obtain ⟨i, hi'⟩ := hi'
    have himports : t.importNames env.source p = ((earlier ++ clause :: later).filterMap
        (env.source.importOfClause? (Source.importedKind p .cls) (env.source.spaceName p))).foldl
          (DeclarationState.addImport env.source) t := by
      rw [← hsplit]
      rfl
    rw [ht, himports] at hl
    obtain ⟨top, ho, hc, hn⟩ := clause_agrees (Source.importedKind_ne_method SymbolKind.noConfusion) h hi' hl
    refine ⟨i, top, hi', ?_, hc, hn⟩
    show (t.enter env.source p).1.opened.head? = some top
    rw [ht, himports]
    exact ho
  · rintro e he
    obtain rfl := Option.some.inj he
    exact ⟨rfl, contexts_agree h hl⟩

end

/-! ### Visits at the same place -/

/-- Where nothing is declared, a walk comes to no declaration. -/
private theorem visitBelow_undeclared {σ : Type} (v : Visitor σ) (place : List Nat) {p : Phrase} {path : List Phrase}
    {s : σ} (h : p.toNode.hasDeclaration = false) {r : Visit σ} (hr : v.visitBelow? place p path s = some r) :
    r.phrase.kind.declares = false := by
  induction place generalizing p path s with
  | nil =>
    obtain rfl := Option.some.inj hr
    unfold Phrase.toNode at h
    rw [Node.hasDeclaration, Bool.or_eq_false_iff] at h
    exact h.1
  | cons i place ih =>
    unfold Phrase.toNode at h
    rw [Node.hasDeclaration, Bool.or_eq_false_iff] at h
    obtain ⟨s', kind, children, -, hc, hr⟩ := Visitor.visitBelow_cons hr
    exact ih (Node.anyDeclaration_of_mem h.2 (List.mem_of_getElem? hc)) hr

/-- A phrase that declares nothing and that the declaration walk does not come to. -/
private theorem VisitsAgree.hidden {env : ReferenceInput} {r : Visit ReferenceState}
    (h : r.phrase.kind.declares = false) : VisitsAgree env r none := by
  refine ⟨?_, ?_, nofun⟩
  · intro family hf
    unfold PhraseKind.declares at h
    rw [hf] at h
    cases h
  · intro hi
    rw [hi] at h
    cases h

theorem split_at {α : Type} {l : List α} {i : Nat} {a : α} (h : l[i]? = some a) :
    l = l.take i ++ a :: l.drop (i + 1) := by
  obtain ⟨hi, ha⟩ := List.getElem?_eq_some_iff.1 h
  rw [← ha, ← List.drop_eq_getElem_cons hi, List.take_append_drop]

/-- Visits of both walks agree at every place below a phrase to which they come in step. -/
theorem visitBelow_agree {env : ReferenceInput} (place : List Nat) {p : Phrase} {path : List Phrase}
    {t : DeclarationState} {s : ReferenceState} {final : Symbol} {rest : List Cursor} (hx : p.toNode.exposes = true)
    (h : InStep final rest t s)
    (hl : ((DeclarationState.visitor env.source).walkNode path p.toNode t).Leads final) {r : Visit ReferenceState}
    (hr : (ReferenceState.visitor env).visitBelow? place p path s = some r) :
    VisitsAgree env r ((DeclarationState.visitor env.source).visitBelow? place p path t) := by
  induction place generalizing p path t s final rest with
  | nil =>
    obtain rfl := Option.some.inj hr
    exact visits_agree_here h hl
  | cons i place ih =>
    obtain ⟨s', kind, children, hs, hc, hr⟩ := Visitor.visitBelow_cons hr
    unfold Phrase.toNode at hx
    rw [Node.exposes, Bool.and_eq_true] at hx
    rcases ht : t.enter env.source p with ⟨t', entered⟩
    cases entered with
    | false =>
      have hh : p.kind.hides = true := hides_of_entered (congrArg Prod.snd ht) (congrArg Prod.snd hs)
      rw [hh, Bool.true_and, Bool.not_eq_true'] at hx
      rw [Visitor.visitBelow_refused ht]
      exact .hidden (visitBelow_undeclared _ place (Node.anyDeclaration_of_mem hx.1 (List.mem_of_getElem? hc)) hr)
    | true =>
      rw [walkNode_eq_leave (congrArg Prod.snd ht)] at hl
      obtain ⟨inner, rest', exit, hcross⟩ := exists_crossing h (congrArg Prod.snd ht) hl
      rw [Visitor.visitBelow_entered ht hc]
      have hin := hcross.inStep
      have hlead := hcross.leads
      have hexpose := hx.2
      unfold DeclarationState.beforeLeaving at hlead
      rw [ht] at hin hlead
      rw [show s.enter env p path = (s', true) from hs] at hin
      -- the children before the one that is visited, the visited one, and those after it
      rw [split_at hc, Node.allExpose_append, Node.allExpose, Bool.and_eq_true, Bool.and_eq_true] at hexpose
      rw [split_at hc, Visitor.walkNodes_append, Visitor.walkNodes] at hlead
      have hp₁ := DeclarationState.walkNodes_progress env.source (p :: path) (p.children.take i) t' hin.ne_nil
      have hp₂ := DeclarationState.walkNode_progress env.source (p :: path) (.phrase kind children) _ hp₁.ne_nil
      have hp₃ := DeclarationState.walkNodes_progress env.source (p :: path) (p.children.drop (i + 1)) _ hp₂.ne_nil
      have hlead₂ := hp₃.leads hlead
      have hstep := InStep.walkNodes (p :: path) (p.children.take i) t' s' hexpose.1 hin (hp₂.leads hlead₂)
      exact ih hexpose.2.1 hstep.1 hlead₂ hr

/-! ### Documents -/

/-- The visit of the declaration walk at a place of a document. -/
def Document.declarationVisit? (d : Document) (place : List Nat) : Option (Visit DeclarationState) :=
  (DeclarationState.visitor (Source.ofDocument d)).visit? d.tree (DeclarationState.initial (Source.ofDocument d)) place

/-- The visit of the reference walk at a place of a document whose declarations are in its own table. -/
def Document.referenceVisit? (d : Document) (pool : SymbolPool) (place : List Nat) : Option (Visit ReferenceState) :=
  (ReferenceState.visitor ⟨Source.ofDocument d, (SymbolTable.ofDocument d).uri, pool⟩).visit? d.tree
    (ReferenceState.initial (Source.ofDocument d) (SymbolTable.ofDocument d).root) place

/-- Both walks begin in step on the file. -/
private theorem initial_inStep (src : Source) (root : Symbol) :
    InStep root [] (DeclarationState.initial src) (ReferenceState.initial src root) :=
  ⟨rfl, _, _, rfl, rfl⟩

/-- The symbol that the file grows into is the root of the table. -/
theorem Document.leads_root (d : Document) :
    ((DeclarationState.visitor (Source.ofDocument d)).walkNode [] d.tree.toNode
      (DeclarationState.initial (Source.ofDocument d))).Leads (SymbolTable.ofDocument d).root := by
  have hp := DeclarationState.walkNode_progress (Source.ofDocument d) [] d.tree.toNode
    (DeclarationState.initial (Source.ofDocument d)) (List.cons_ne_nil _ _)
  obtain ⟨top, below, top', below', ht, ht', -, hb⟩ := hp.opened
  obtain ⟨-, rfl⟩ := List.cons.inj ht
  cases hb
  refine ⟨top', [], ht', ?_⟩
  have hroot : (SymbolTable.ofDocument d).root = top' := by
    show d.fileSymbol = top'
    rw [d.fileSymbol_eq_walk]
    unfold Visitor.walk DeclarationState.finish
    rw [ht']
    rfl
  rw [hroot]
  exact Symbol.Grows.refl top'

private theorem visit_agree {env : ReferenceInput} (tree : Phrase) (root : Symbol) (h : tree.toNode.exposes = true)
    (place : List Nat) (r : Visit ReferenceState)
    (hl : ((DeclarationState.visitor env.source).walkNode [] tree.toNode
      (DeclarationState.initial env.source)).Leads root)
    (hr : (ReferenceState.visitor env).visit? tree (ReferenceState.initial env.source root) place = some r) :
    VisitsAgree env r ((DeclarationState.visitor env.source).visit? tree (DeclarationState.initial env.source) place) :=
  visitBelow_agree place h (initial_inStep _ _) hl hr

/-- In a document that hides no declaration, whatever the pool, each declaration is paired with its own symbol, and the
naming contexts of both walks agree. -/
theorem Document.visits_agree (d : Document) (pool : SymbolPool) (h : d.tree.toNode.exposes = true) :
    ∀ (place : List Nat) (r : Visit ReferenceState), d.referenceVisit? pool place = some r →
      VisitsAgree ⟨Source.ofDocument d, (SymbolTable.ofDocument d).uri, pool⟩ r (d.declarationVisit? place) := by
  intro place r hr
  exact visit_agree d.tree _ h place r d.leads_root hr

/-- A class with a property and a method. -/
private def sampleDocument : Document :=
  ⟨"file:///a.php", "<?php class A { public $p = 1; function f() {} }",
    ⟨.statementList, [.phrase .classDeclaration [
      .phrase .classDeclarationBody [
        .phrase .propertyDeclaration [.phrase .propertyElement [.token ⟨.variableName, 23, 2⟩]],
        .phrase .methodDeclaration [.phrase .methodDeclarationHeader [.token ⟨.name, 40, 1⟩]]]]]⟩⟩

theorem Document.visits_agree_method : sampleDocument.tree.toNode.exposes = true ∧
    ∃ r, sampleDocument.referenceVisit? (SymbolPool.empty {}) [0, 0, 1] = some r ∧
      r.phrase.kind = .methodDeclaration ∧
      VisitsAgree ⟨Source.ofDocument sampleDocument, "file:///a.php", SymbolPool.empty {}⟩ r
        (sampleDocument.declarationVisit? [0, 0, 1]) := by
  refine ⟨rfl, _, rfl, rfl, ?_⟩
  exact Document.visits_agree sampleDocument _ rfl [0, 0, 1] _ rfl

end CodeAtlas
