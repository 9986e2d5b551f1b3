import CodeAtlas.Proofs.DeclarationInduction
import CodeAtlas.Proofs.TokenOrder

/-!
# The innermost scope

The look-up of the scope around a position goes down from the file, each time to the first child that touches the
position, whatever kind of child this is, and answers the last scope on its way (`Symbol.innermost_spec`).  So it misses
an inner scope in two ways only: where it stops, a child that is no scope comes before one that is, or the inner scope
reaches out of a scope around it.

The second does not happen in a document with its tokens in order.  The scopes in the symbol tree are those of the
phrases that the declaration walk comes to, each with the range of its phrase (`Document.mirrors`), and the ranges of
phrases inside each other are inside each other.  What is left is the first (`SymbolTable.scopeAt_innermost_iff`), and
that does happen: the symbol of a namespace with braces has no children, spans the whole block, and stands before the
declarations in it (`SymbolTable.braced_space_hides`).
-/

namespace CodeAtlas

namespace Symbol

variable {s c x : Symbol} {p : Position}

/-! ### The way down -/

/-- The symbol is a function, method or class-like symbol around the position, written in the document. -/
def encloses (s : Symbol) (p : Position) : Bool :=
  s.isScope && s.touches p

/-- A child that touches the position and is no scope comes before all scopes around the position among the children,
and there are some. -/
def Shadows (s : Symbol) (p : Position) : Prop :=
  ∃ c, s.children.find? (·.touches p) = some c ∧ c.isScope = false ∧ ∃ x ∈ s.children, x.encloses p = true

/-- A scope around the position is inside a child that is no scope around it. -/
def Strays (s : Symbol) (p : Position) : Prop :=
  ∃ c ∈ s.children, c.encloses p = false ∧ ∃ x ∈ descendantsOf c.children, x.encloses p = true

theorem isDeclared_of_encloses (h : s.encloses p = true) : s.isDeclared = true := by
  unfold encloses touches at h
  rw [Bool.and_eq_true, Bool.and_eq_true] at h
  unfold isDeclared
  rw [Bool.and_assoc, h.1, h.2.1]
  rfl

theorem encloses_of_isDeclared {l : Location} (h : s.isDeclared = true) (hl : s.location = some l)
    (hp : l.range.contains p = true) : s.encloses p = true := by
  unfold isDeclared at h
  rw [Bool.and_assoc, Bool.and_eq_true] at h
  unfold encloses touches
  rw [h.1, h.2, hl]
  exact hp

theorem range_of_encloses (h : s.encloses p = true) : ∃ l, s.location = some l ∧ l.range.contains p = true := by
  unfold encloses touches at h
  rw [Bool.and_eq_true, Bool.and_eq_true] at h
  cases hl : s.location with
  | none =>
    rw [hl] at h
    exact absurd h.2.2 Bool.false_ne_true
  | some l =>
    rw [hl] at h
    exact ⟨l, rfl, h.2.2⟩

/-- The first child that touches the position is no scope, if there is one. -/
def Stops (p : Position) (s : Symbol) : Prop :=
  ∀ c, s.children.find? (·.touches p) = some c → c.isScope = false

private theorem innermost_eq (p : Position) (found s : Symbol) : innermost p found s =
    match s.children.find? (·.touches p) with
    | none => found
    | some c => innermost p (if c.isScope then c else found) c := by
  have hof : ∀ l : List Symbol, innermostOf p found l =
      match l.find? (·.touches p) with
      | none => found
      | some c => innermost p (if c.isScope then c else found) c := by
    intro l
    induction l with
    | nil => rfl
    | cons a l ih =>
      rw [innermostOf, List.find?_cons]
      cases a.touches p with
      | true => rfl
      | false => exact ih
  cases s
  rw [innermost]
  exact hof _

/-- The way down from a symbol passes no scope, or it ends at a scope around the position. -/
theorem innermost_spec (p : Position) (s : Symbol) : ∀ found, innermost p found s = found ∧ s.Stops p ∨
    innermost p found s ∈ descendantsOf s.children ∧ (innermost p found s).encloses p = true ∧
      (innermost p found s).Stops p := by
  induction s using childInduction with
  | step s ih =>
    intro found
    rw [innermost_eq]
    cases h : s.children.find? (·.touches p) with
    | none => exact Or.inl ⟨rfl, fun c hc => nomatch h.symm.trans hc⟩
    | some c =>
      have hc : c ∈ s.children := List.mem_of_find?_eq_some h
      have htouches : c.touches p = true := List.find?_some (p := fun c : Symbol => c.touches p) h
      dsimp only
      have hbelow : ∀ x ∈ descendantsOf c.children, x ∈ descendantsOf s.children := fun x hx =>
        mem_descendantsOf.2 ⟨c, hc, mem_descendants_of_below hx⟩
      cases hk : c.isScope with
      | true =>
        rw [if_pos rfl]
        rcases ih c hc c with ⟨heq, hstop⟩ | ⟨hmem, henc, hstop⟩
        · rw [heq]
          refine Or.inr ⟨mem_descendantsOf.2 ⟨c, hc, self_mem_descendants c⟩, ?_, hstop⟩
          unfold encloses
          rw [hk, htouches]
          rfl
        · exact Or.inr ⟨hbelow _ hmem, henc, hstop⟩
      | false =>
        rw [if_neg Bool.false_ne_true]
        rcases ih c hc found with ⟨heq, hstop⟩ | ⟨hmem, henc, hstop⟩
        · refine Or.inl ⟨heq, fun c' hc' => ?_⟩
          rw [h] at hc'
          rwa [← Option.some.inj hc']
        · exact Or.inr ⟨hbelow _ hmem, henc, hstop⟩

/-- Where the way down stops, a scope further inside is behind another child or reaches out of its own. -/
private theorem Stops.missed_iff (h : s.Stops p) :
    (∃ x ∈ descendantsOf s.children, x.encloses p = true) ↔ s.Shadows p ∨ s.Strays p := by
  constructor
  · rintro ⟨x, hx, henc⟩
    obtain ⟨c, hc, hx⟩ := mem_descendantsOf.1 hx
    -- the child with the scope inside is a scope around the position itself, or the scope strays out of it
    cases hce : c.encloses p with
    | true =>
      have htouches : c.touches p = true := ((Bool.and_eq_true _ _).mp hce).2
      obtain ⟨f, hf⟩ := Option.isSome_iff_exists.1 (List.find?_isSome.2 ⟨c, hc, htouches⟩ :
        (s.children.find? fun c => c.touches p).isSome = true)
      exact Or.inl ⟨f, hf, h f hf, c, hc, hce⟩
    | false =>
      rw [descendants_eq] at hx
      rcases List.mem_cons.1 hx with rfl | hx
      · exact absurd (hce.symm.trans henc) Bool.false_ne_true
      · exact Or.inr ⟨c, hc, hce, x, hx, henc⟩
  · rintro (⟨-, -, -, x, hx, henc⟩ | ⟨c, hc, -, x, hx, henc⟩)
    · exact ⟨x, mem_descendantsOf.2 ⟨x, hx, self_mem_descendants x⟩, henc⟩
    · exact ⟨x, mem_descendantsOf.2 ⟨c, hc, mem_descendants_of_below hx⟩, henc⟩

end Symbol

/-! ### Scopes and their phrases -/

/-- The declarations with a body of their own that the declaration walk comes to. -/
def Source.declarations : Harvest Empty :=
  { enters := PhraseKind.holdsDeclarations, chooses := fun k => k.family?.isSome, items := fun _ => [] }

/-- The symbol is that of the phrase, or of the file: it has the same place, and the declared symbols in it are those of
the declarations in the phrase, in order. -/
inductive Symbol.Mirrors (src : Source) : Symbol → PhraseTree Empty → Prop
  | mk {s : Symbol} {τ : PhraseTree Empty} (location : s.location = src.locationOf τ.phrase)
    (declared : List.Forall₂ (Symbol.Mirrors src) s.declared τ.inner) : Symbol.Mirrors src s τ

/-- The declarations of a document can be followed along the declaration walk. -/
private theorem declarations_followed (src : Source) : DeclarationState.Followed src
    (fun n => Gets Symbol.declared (Symbol.Mirrors src) (Source.declarations.trees n))
    (fun ns => Gets Symbol.declared (Symbol.Mirrors src) (Source.declarations.treesIn ns)) where
  token hs := .of_settles Symbol.Settles.declared hs
  refused hlook hs := by
    rw [Harvest.trees_refused hlook]
    exact .of_settles Symbol.Settles.declared hs
  plain := by
    intro p o o₁ o₂ o₃ hlook hf ho _ hc _ hs
    have hchoose : Source.declarations.chooses p.kind = false := congrArg Option.isSome hf
    rw [Harvest.trees_plain hlook hchoose]
    have h₁ : Gets Symbol.declared (Symbol.Mirrors src) [] o o₁ := .of_settles Symbol.Settles.declared ho
    have h₃ : Gets Symbol.declared (Symbol.Mirrors src) [] o₂ o₃ := .of_settles Symbol.Settles.declared hs
    have h := (h₁.trans hc).trans h₃
    rwa [List.append_nil] at h
  declared := by
    intro p family o o₁ symbol built top below o₃ hlook hf hopen ho hc hg _ hs
    have hchoose : Source.declarations.chooses p.kind = true := congrArg Option.isSome hf
    obtain ⟨hbuilt, -⟩ := List.forall₂_cons.1 hg
    have hd : built.isDeclared = true := hbuilt.isDeclared.trans hopen.declared
    rw [Harvest.trees_chosen hlook hchoose]
    have hadds : (top.addChild built).declared = top.declared ++ [built] := by
      rw [Symbol.declared_addChild, hd]
      rfl
    refine .of_addChild Symbol.Settles.declared ho hadds (.cons (.mk ?_ ?_) .nil) hs
    · exact hbuilt.location.trans hopen.location
    · exact hc.top hopen.declared_eq_nil
  nil o := .of_settles Symbol.Settles.declared (List.forall₂_same.2 fun a _ => Symbol.Settles.refl a)
  cons hn hns _ := hn.trans hns

/-- The declared symbols of a document are those of its declarations. -/
theorem Document.mirrors (d : Document) : d.fileSymbol.kind = .file ∧
    d.fileSymbol.Mirrors (Source.ofDocument d) (Source.declarations.ofRoot d.tree) := by
  obtain ⟨file, hfile, hgrows, hgets⟩ := (declarations_followed (Source.ofDocument d)).fileSymbol
  obtain ⟨rfl, -⟩ := List.cons.inj hfile
  exact ⟨hgrows.kind, .mk hgrows.location (hgets.top rfl)⟩

namespace Symbol

variable {s c x : Symbol} {p : Position} {src : Source} {τ : PhraseTree Empty}

/-- Below a symbol that no declaration can become a child of there are no scopes. -/
private theorem leaf_below (hw : s.AllWellFormed) (hg : s.mayGrow = false) :
    ∀ x ∈ descendantsOf s.children, x.kind = .parameter := by
  induction s using childInduction with
  | step s ih =>
    intro x hx
    obtain ⟨hs, hall⟩ := allWellFormed_iff.1 hw
    obtain ⟨c, hc, hx⟩ := mem_descendantsOf.1 hx
    have hk : c.kind = .parameter := hs.leaf hg c hc
    rw [descendants_eq] at hx
    rcases List.mem_cons.1 hx with rfl | hx
    · exact hk
    · refine ih c hc (hall c hc) ?_ x hx
      unfold mayGrow isDeclared isScope
      rw [hk]
      rfl

/-- A child that is a scope or has one inside is declared. -/
private theorem declared_of_encloses (hw : s.AllWellFormed) (hc : c ∈ s.children) (hx : x ∈ c.descendants)
    (henc : x.encloses p = true) : c ∈ s.declared := by
  obtain ⟨hs, hall⟩ := allWellFormed_iff.1 hw
  refine List.mem_filter.2 ⟨hc, ?_⟩
  rw [descendants_eq] at hx
  rcases List.mem_cons.1 hx with rfl | hx
  · exact isDeclared_of_encloses henc
  · cases hg : c.mayGrow with
    | false =>
      have hd := isDeclared_of_encloses henc
      unfold isDeclared isScope at hd
      rw [leaf_below (hall c hc) hg x hx] at hd
      cases hd
    | true =>
      unfold mayGrow at hg
      rwa [beq_eq_false_iff_ne.2 (hs.inner c hc), Bool.false_or] at hg

private theorem encloses_of_mirrors {q : Phrase} {r : Range} (hm : s.Mirrors src τ) (hq : τ.phrase = some q)
    (hd : s.isDeclared = true) (hr : src.range? q = some r) (hp : r.contains p = true) : s.encloses p = true := by
  obtain ⟨hlocation, -⟩ := hm
  have hl : s.location = some ⟨src.document.uri, r⟩ := by
    rw [hlocation, hq]
    exact congrArg (Option.map _) hr
  exact encloses_of_isDeclared hd hl hp

/-- In a tree that is laid out, a phrase contains the position if a scope in it does. -/
private theorem range_of_scope_below (hm : s.Mirrors src τ) {place : Empty → Range} (hl : τ.LaidOut src place)
    (hw : s.AllWellFormed) {q : Phrase} (hq : τ.phrase = some q) (hx : x ∈ descendantsOf s.children)
    (henc : x.encloses p = true) : ∃ r, src.range? q = some r ∧ r.contains p = true := by
  induction s using childInduction generalizing τ q with
  | step s ih =>
    obtain ⟨c, hc, hx⟩ := mem_descendantsOf.1 hx
    have hdeclared := declared_of_encloses hw hc hx henc
    obtain ⟨-, hinner⟩ := hm
    obtain ⟨a, ha, hca⟩ := PhraseTree.exists_of_mem hinner hdeclared
    obtain ⟨hchosen, -, -, -, hencloses, hlaid⟩ := hl
    obtain ⟨q', hq'⟩ := hchosen a ha
    have hrange : ∃ r', src.range? q' = some r' ∧ r'.contains p = true := by
      rw [descendants_eq] at hx
      rcases List.mem_cons.1 hx with rfl | hx
      · obtain ⟨l, hl, hp⟩ := range_of_encloses henc
        obtain ⟨hlocation, -⟩ := hca
        rw [hq', hl] at hlocation
        obtain ⟨r', hr', rfl⟩ := Option.map_eq_some_iff.1 hlocation.symm
        exact ⟨r', hr', hp⟩
      · exact ih c hc hca (hlaid a ha) ((allWellFormed_iff.1 hw).2 c hc) hq' hx
    obtain ⟨r', hr', hp⟩ := hrange
    obtain ⟨r, hr, hcontains⟩ := hencloses q hq a ha r' (by rw [hq']; exact hr')
    exact ⟨r, hr, Range.contains_of_containsRange hcontains hp⟩

/-- In a tree that is laid out, no scope reaches out of a scope around it. -/
private theorem not_strays (hm : s.Mirrors src τ) {place : Empty → Range} (hl : τ.LaidOut src place)
    (hw : s.AllWellFormed) : ∀ y ∈ s.descendants, ¬ y.Strays p := by
  induction s using childInduction generalizing τ with
  | step s ih =>
    -- every child with a scope in it stands for a phrase that is laid out
    have hchild : ∀ c ∈ s.children, ∀ x ∈ c.descendants, x.encloses p = true → ∃ a q, a.phrase = some q ∧
        c.Mirrors src a ∧ a.LaidOut src place ∧ c.isDeclared = true := by
      intro c hc x hx henc
      have hdeclared := declared_of_encloses hw hc hx henc
      obtain ⟨-, hinner⟩ := hm
      obtain ⟨a, ha, hca⟩ := PhraseTree.exists_of_mem hinner hdeclared
      obtain ⟨hchosen, -, -, -, -, hlaid⟩ := hl
      obtain ⟨q, hq⟩ := hchosen a ha
      exact ⟨a, q, hq, hca, hlaid a ha, (List.mem_filter.1 hdeclared).2⟩
    rintro y hy ⟨c, hc, hce, x, hx, henc⟩
    rw [descendants_eq] at hy
    rcases List.mem_cons.1 hy with rfl | hy
    · obtain ⟨a, q, hq, hca, hla, hd⟩ := hchild c hc x (mem_descendants_of_below hx) henc
      obtain ⟨r, hr, hp⟩ := range_of_scope_below hca hla ((allWellFormed_iff.1 hw).2 c hc) hq hx henc
      exact absurd (hce.symm.trans (encloses_of_mirrors hca hq hd hr hp)) Bool.false_ne_true
    · obtain ⟨c', hc', hy⟩ := mem_descendantsOf.1 hy
      have hx' : x ∈ y.descendants :=
        mem_descendants_of_child hc (mem_descendants_of_below hx)
      obtain ⟨a, q, hq, hca, hla, -⟩ := hchild c' hc' x (mem_descendants_trans hy hx') henc
      exact ih c' hc' hca hla ((allWellFormed_iff.1 hw).2 c' hc') y hy ⟨c, hc, hce, x, hx, henc⟩

end Symbol

/-! ### The look-up -/

namespace SymbolTable

/-- The innermost function, method or class-like symbol around the position, or the file if there is none. -/
structure IsScopeAt (t : SymbolTable) (p : Position) (s : Symbol) : Prop where
  innermost : (∃ x ∈ t.symbols, x.encloses p = true) →
    s.encloses p = true ∧ ∀ x ∈ Symbol.descendantsOf s.children, x.encloses p = false
  file : (∀ x ∈ t.symbols, x.encloses p = false) → s = t.root

/-- In every document, the look-up answers the file or a scope around the position.  This is the innermost one unless a
child of it that is no scope hides one, or one reaches out of a child; and with the tokens in order, none of them too
far on to have an offset of 32 bits, none does. -/
theorem scopeAt_innermost_iff (d : Document) (p : Position) :
    let t := SymbolTable.ofDocument d
    (t.scopeAt p = t.root ∨ t.scopeAt p ∈ t.symbols ∧ (t.scopeAt p).encloses p = true) ∧
      (t.IsScopeAt p (t.scopeAt p) ↔ ¬ (t.scopeAt p).Shadows p ∧ ¬ (t.scopeAt p).Strays p) ∧
      (d.InOrder → d.InBounds → ¬ (t.scopeAt p).Strays p) := by
  intro t
  obtain ⟨hkind, hmirrors⟩ := d.mirrors
  have hroot : t.root.encloses p = false := by
    unfold Symbol.encloses Symbol.isScope
    rw [show t.root.kind = .file from hkind]
    rfl
  have hfound : (t.scopeAt p = t.root ∨ t.scopeAt p ∈ t.symbols ∧ (t.scopeAt p).encloses p = true) ∧
      (t.scopeAt p).Stops p := by
    rcases Symbol.innermost_spec p t.root t.root with ⟨heq, hstop⟩ | ⟨hmem, henc, hstop⟩
    · exact ⟨Or.inl heq, (congrArg (Symbol.Stops p) heq).mpr hstop⟩
    · exact ⟨Or.inr ⟨Symbol.mem_descendants_of_below hmem, henc⟩, hstop⟩
  obtain ⟨hfound, hstop⟩ := hfound
  refine ⟨hfound, ?_, fun horder _ => ?_⟩
  · rw [← not_or, ← hstop.missed_iff]
    constructor
    · rintro h ⟨x, hx, henc⟩
      have hmem : x ∈ t.symbols := by
        rcases hfound with heq | ⟨hmem, -⟩
        · exact Symbol.mem_descendants_of_below (heq ▸ hx)
        · exact Symbol.mem_descendants_trans hmem (Symbol.mem_descendants_of_below hx)
      exact absurd (((h.innermost ⟨x, hmem, henc⟩).2 x hx).symm.trans henc) Bool.false_ne_true
    · intro hnone
      have hbelow : ∀ x ∈ Symbol.descendantsOf (t.scopeAt p).children, x.encloses p = false := fun x hx =>
        Bool.eq_false_iff.2 fun henc => hnone ⟨x, hx, henc⟩
      constructor
      · rintro ⟨x, hx, henc⟩
        rcases hfound with heq | ⟨-, hscope⟩
        · -- the file is no scope, and there is none in it
          rw [heq] at hbelow
          unfold symbols at hx
          rw [Symbol.descendants_eq] at hx
          rcases List.mem_cons.1 hx with rfl | hx
          · exact absurd (hroot.symm.trans henc) Bool.false_ne_true
          · exact absurd ((hbelow x hx).symm.trans henc) Bool.false_ne_true
        · exact ⟨hscope, hbelow⟩
      · intro hnone'
        rcases hfound with heq | ⟨hmem, hscope⟩
        · exact heq
        · exact absurd ((hnone' _ hmem).symm.trans hscope) Bool.false_ne_true
  · have hlaid : (Source.declarations.ofRoot d.tree).LaidOut (Source.ofDocument d) nofun :=
      Harvest.laidOut (fun _ _ => nofun) horder
    refine Symbol.not_strays hmirrors hlaid d.wellFormed_fileSymbol _ ?_
    rcases hfound with heq | ⟨hmem, -⟩
    · rw [heq]
      exact Symbol.self_mem_descendants _
    · exact hmem

/-- A function in a namespace with braces: `namespace N { function f() {} }`. -/
private def bracedSpace : Document :=
  ⟨"file:///a.php", "<?php namespace N \x7b function f() \x7b\x7d \x7d",
    ⟨.statementList, [
      .phrase .namespaceDefinition [.token ⟨.namespaceKeyword, 6, 9⟩,
        .phrase .namespaceName [.token ⟨.name, 16, 1⟩],
        .phrase .compoundStatement [.token ⟨.openBrace, 18, 1⟩,
          .phrase .functionDeclaration [
            .phrase .functionDeclarationHeader [.token ⟨.functionKeyword, 20, 8⟩, .token ⟨.name, 29, 1⟩,
              .token ⟨.openParen, 30, 1⟩, .token ⟨.closeParen, 31, 1⟩],
            .phrase .functionDeclarationBody [.phrase .compoundStatement [
              .token ⟨.openBrace, 33, 1⟩, .token ⟨.closeBrace, 34, 1⟩]]],
          .token ⟨.closeBrace, 36, 1⟩]]]⟩⟩

theorem scopeAt_innermost_iff_bracedSpace : bracedSpace.InOrder ∧ bracedSpace.InBounds ∧
    ¬ ((SymbolTable.ofDocument bracedSpace).scopeAt ⟨0, 25⟩).Strays ⟨0, 25⟩ := by
  have horder : bracedSpace.InOrder := by
    unfold Document.InOrder Token.Before
    decide
  have hbounds : bracedSpace.InBounds := by
    unfold Document.InBounds
    decide
  exact ⟨horder, hbounds, (scopeAt_innermost_iff bracedSpace ⟨0, 25⟩).2.2 horder hbounds⟩

/-- Inside the function the answer is the file: the symbol of the namespace comes before that of the function, touches
the position, and is no scope. -/
theorem braced_space_hides : ¬ (SymbolTable.ofDocument bracedSpace).IsScopeAt ⟨0, 25⟩
    ((SymbolTable.ofDocument bracedSpace).scopeAt ⟨0, 25⟩) := by
  have hmissed : (SymbolTable.ofDocument bracedSpace).symbols.any (·.encloses ⟨0, 25⟩) = true ∧
      ((SymbolTable.ofDocument bracedSpace).scopeAt ⟨0, 25⟩).encloses ⟨0, 25⟩ = false := by
    unfold SymbolTable.ofDocument
    rw [Document.fileSymbol_eq_walk]
    decide +kernel
  intro h
  have henc := (h.innermost (List.any_eq_true.1 hmissed.1)).1
  exact absurd (hmissed.2.symm.trans henc) Bool.false_ne_true

end SymbolTable

end CodeAtlas
