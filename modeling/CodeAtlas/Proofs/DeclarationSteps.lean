import CodeAtlas.Proofs.DeclaredSymbols

/-!
# Steps of the declaration walk

What one step of the declaration walk can do to the open symbols.  Most steps are quiet: the children that they add
belong to no family (`Quiet`).  Only imports and finished declarations add to a family, and each adds to one.
`enter_plain`, `enter_declaration` and `leave_cons` list the possibilities.
-/

namespace CodeAtlas

/-! ### Quiet changes -/

theorem forall₂_updateFirst {α : Type} {R : α → α → Prop} (hrefl : ∀ a, R a a) {f : α → α} (hf : ∀ a, R a (f a))
    (p : α → Bool) (l : List α) : List.Forall₂ R l (updateFirst p f l) := by
  have hl : ∀ l : List α, List.Forall₂ R l l := fun l => List.forall₂_same.2 fun a _ => hrefl a
  induction l with
  | nil => exact .nil
  | cons a l ih =>
    unfold updateFirst
    split
    · exact .cons (hf a) (hl l)
    · exact .cons (hrefl a) ih

/-- Declarations whose inside the declaration walk does not look at. -/
def PhraseKind.hides : PhraseKind → Bool
  | .traitUseClause | .classConstDeclaration | .propertyDeclaration | .constDeclaration => true
  | _ => false

namespace DeclarationState

/-- `s'` differs from `s` in the waiting documentation, and its open symbols have grown quietly. -/
structure Quiet (s s' : DeclarationState) : Prop where
  resolver : s'.resolver = s.resolver
  frames : s'.frames = s.frames
  opened : List.Forall₂ Symbol.GrowsQuietly s.opened s'.opened

namespace Quiet

variable {s s' s'' : DeclarationState}

theorem withDoc (s : DeclarationState) (doc : Option DocBlock) : s.Quiet { s with doc := doc } :=
  ⟨rfl, rfl, List.forall₂_same.2 fun a _ => Symbol.GrowsQuietly.refl a⟩

theorem refl (s : DeclarationState) : s.Quiet s :=
  withDoc s s.doc

theorem trans (h : s.Quiet s') (h' : s'.Quiet s'') : s.Quiet s'' :=
  ⟨h'.resolver.trans h.resolver, h'.frames.trans h.frames, Symbol.allGrowQuietly_trans h.opened h'.opened⟩

theorem addChild (s : DeclarationState) {child : Symbol} (h : child.PairedAs none) : s.Quiet (s.addChild child) := by
  unfold DeclarationState.addChild
  split
  · exact refl s
  · rename_i top rest ho
    refine ⟨rfl, rfl, ?_⟩
    rw [ho]
    exact .cons (Symbol.GrowsQuietly.addChild top h) (List.forall₂_same.2 fun a _ => Symbol.GrowsQuietly.refl a)

theorem addChildren (s : DeclarationState) {children : List Symbol} (h : ∀ c ∈ children, c.PairedAs none) :
    s.Quiet (s.addChildren children) := by
  unfold DeclarationState.addChildren
  induction children generalizing s with
  | nil => exact refl s
  | cons c children ih =>
    have hc := addChild s (h c List.mem_cons_self)
    exact hc.trans (ih (s.addChild c) fun c' hc' => h c' (List.mem_cons_of_mem c hc'))

theorem declareAll (src : Source) (s : DeclarationState) (vs : List Source.Assigned) : s.Quiet (s.declareAll src vs) := by
  have hdeclare : ∀ (s : DeclarationState) (v : Source.Assigned), s.Quiet (s.declare src v) := by
    intro s v
    unfold declare
    simp only
    split
    · exact refl s
    · refine ⟨rfl, rfl, forall₂_updateFirst Symbol.GrowsQuietly.refl (fun holder => ?_) _ _⟩
      split
      · exact Symbol.GrowsQuietly.refl holder
      · exact Symbol.GrowsQuietly.addChild holder (Symbol.pairedAs_none rfl Source.empty_ordinary.2.2)
  unfold DeclarationState.declareAll
  induction vs generalizing s with
  | nil => exact refl s
  | cons v vs ih => exact (hdeclare s v).trans (ih _)

theorem useTraits (src : Source) (s : DeclarationState) (p : Phrase) : s.Quiet (s.useTraits src p) := by
  refine ⟨rfl, rfl, forall₂_updateFirst Symbol.GrowsQuietly.refl (fun c => ?_) _ _⟩
  refine Symbol.GrowsQuietly.useTraits c fun l hl => ?_
  obtain ⟨name, -, rfl⟩ := List.mem_map.1 hl
  rfl

end Quiet

/-! ### Entering -/

/-- What entering a phrase that declares nothing does. -/
inductive PlainEntry (s : DeclarationState) : DeclarationState × Bool → Prop
  | refused {s'} (hq : s.Quiet s') : PlainEntry s (s', false)
  | entered {s'} (hq : s.Quiet s') : PlainEntry s (within .plain s')

theorem enter_plain (src : Source) (s : DeclarationState) (p : Phrase) (h : p.kind.declares = false) :
    PlainEntry s (s.enter src p) := by
  unfold enter
  simp only
  have hq : s.Quiet (if p.kind.discardsDoc then { s with doc := none } else s) := by
    split
    · exact Quiet.withDoc s none
    · exact Quiet.refl s
  generalize (if p.kind.discardsDoc then { s with doc := none } else s) = s' at hq
  have hnone := Quiet.withDoc s' none
  split
  all_goals first
    | exact .refused hq
    | exact .entered hq
    | (rename_i hk; rw [hk] at h; exact absurd h (by decide))
    | exact .refused (hq.trans (Quiet.useTraits src s' p))
    | exact .refused (hq.trans (hnone.trans (Quiet.addChildren _ fun c hc => (src.classConstants_plain _ _ p c hc).unpaired rfl)))
    | exact .refused (hq.trans (hnone.trans (Quiet.addChildren _ fun c hc => (src.properties_plain _ _ p c hc).unpaired rfl)))
    | exact .refused (hq.trans (hnone.trans (Quiet.addChildren _ fun c hc => (src.constants_plain _ _ p c hc).unpaired rfl)))
    | exact .entered (hq.trans (Quiet.declareAll src s' _))

/-- The phrases that the declaration walk looks into. -/
theorem enter_snd (src : Source) (s : DeclarationState) (p : Phrase) :
    (s.enter src p).2 = (p.kind != .error && p.kind != .namespaceUseDeclaration && !p.kind.hides) := by
  obtain ⟨kind, children⟩ := p
  cases kind <;> rfl

/-- What entering a phrase that declares a symbol of the family does: after some quiet changes the symbol is open. -/
inductive DeclarationEntry (s : DeclarationState) (family : DeclarationFamily) : DeclarationState × Bool → Prop
  | cls {s₁ : DeclarationState} {symbol : Symbol} (hf : family.isClass = true) (hq : s.Quiet s₁)
    (hp : symbol.PairedAs (some family)) (hn : symbol.Fresh) :
    DeclarationEntry s family
      (within .cls ({ s₁ with resolver := s₁.resolver.intoClass symbol.name symbol.baseName }.openSymbol symbol))
  | function {s₁ : DeclarationState} {symbol : Symbol} (hf : family.isClass = false) (hq : s.Quiet s₁)
    (hp : symbol.PairedAs (some family)) (hn : symbol.Fresh) :
    DeclarationEntry s family (within .symbol (s₁.openSymbol symbol))

private theorem openClassBody_entry {s : DeclarationState} {family : DeclarationFamily} (hf : family.isClass = true)
    {symbol : Symbol} (hp : symbol.PairedAs (some family)) (hn : symbol.Fresh) :
    DeclarationEntry s family (within .cls (s.openClassBody symbol)) := by
  let r := s.resolver.intoClass symbol.name symbol.baseName
  have h : (Source.withClassDoc r s.doc symbol).name = symbol.name ∧
      (Source.withClassDoc r s.doc symbol).baseName = symbol.baseName := by
    cases s.doc <;> exact ⟨rfl, rfl⟩
  have he := DeclarationEntry.cls hf (Quiet.withDoc s none) (Source.withClassDoc_paired hp r s.doc)
    (Source.withClassDoc_fresh hn r s.doc)
  rw [h.1, h.2] at he
  exact he

private theorem methodDeclaration_entry (src : Source) (s : DeclarationState) (p : Phrase) :
    DeclarationEntry s .method (within .symbol (s.methodDeclaration src p)) := by
  have hdoc := Quiet.withDoc s none
  unfold methodDeclaration
  simp only
  split
  · refine .function rfl hdoc ?_ (Symbol.fresh_of_nil (by simp [Symbol.bare]))
    refine Symbol.pairedAs_method (by simp [Symbol.bare]) ?_ ?_ <;>
      simp only [Symbol.isMagic, Symbol.isImport, Symbol.has, Source.placed_modifiers, Symbol.bare] <;> rfl
  · split
    · exact .function rfl (hdoc.trans (Quiet.addChildren _ fun c hc => (src.constructorProperties_plain _ _ c hc).unpaired rfl))
        (src.methodSymbol_paired _ _ _ _ _) (src.methodSymbol_fresh _ _ _ _ _)
    · exact .function rfl hdoc (src.methodSymbol_paired _ _ _ _ _) (src.methodSymbol_fresh _ _ _ _ _)

private theorem functionDeclaration_entry (src : Source) (s : DeclarationState) (p : Phrase) :
    DeclarationEntry s .function (within .symbol (s.functionDeclaration src p)) := by
  have hdoc := Quiet.withDoc s none
  unfold functionDeclaration
  simp only
  split
  · refine .function rfl hdoc ?_ (Symbol.fresh_of_nil (by simp [Symbol.bare]))
    refine Symbol.pairedAs_function (by simp [Symbol.bare]) ?_ ?_ <;>
      simp only [Symbol.isAnonymous, Symbol.isImport, Symbol.has, Source.placed_modifiers, Symbol.bare] <;> rfl
  · exact .function rfl hdoc (src.functionSymbol_paired _ _ _ _) (src.functionSymbol_fresh _ _ _ _)

/-- Entering a phrase with a family opens a symbol of the family. -/
theorem enter_declaration (src : Source) (s : DeclarationState) (p : Phrase) {family : DeclarationFamily}
    (h : p.kind.family? = some family) : DeclarationEntry s family (s.enter src p) := by
  obtain ⟨kind, children⟩ := p
  have hdoc := Quiet.withDoc s none
  cases kind
  case classDeclaration =>
    cases h
    exact openClassBody_entry rfl (src.classSymbol_paired _ _) (src.classSymbol_fresh _ _)
  case interfaceDeclaration =>
    cases h
    exact openClassBody_entry rfl (src.classSymbol_paired _ _) (src.classSymbol_fresh _ _)
  case traitDeclaration =>
    cases h
    exact openClassBody_entry rfl (src.classSymbol_paired _ _) (src.classSymbol_fresh _ _)
  case anonymousClassDeclaration =>
    cases h
    exact openClassBody_entry rfl (src.anonymousClassSymbol_paired _ _) (src.anonymousClassSymbol_fresh _ _)
  case methodDeclaration => cases h; exact methodDeclaration_entry src s _
  case functionDeclaration => cases h; exact functionDeclaration_entry src s _
  case anonymousFunctionCreationExpression =>
    cases h
    exact .function rfl hdoc (src.closureSymbol_paired _ _ _) (src.closureSymbol_fresh _ _ _)
  case arrowFunctionCreationExpression =>
    cases h
    exact .function rfl hdoc (src.anonymousFunction_paired _ _ _ _) (src.anonymousFunction_fresh _ _ _ _)
  all_goals cases h

theorem enter_imports (src : Source) (s : DeclarationState) (p : Phrase) (h : p.kind = .namespaceUseDeclaration) :
    s.enter src p = (s.importNames src p, false) := by
  obtain ⟨kind, children⟩ := p
  cases h
  rfl

theorem enter_space (src : Source) (s : DeclarationState) (p : Phrase) (h : p.kind = .namespaceDefinition) :
    s.enter src p = within (if Source.isBraced p then .bracedSpace else .plain) (s.spaceDefinition src p) := by
  obtain ⟨kind, children⟩ := p
  cases h
  rfl

/-- A namespace definition is quiet apart from the namespace that it sets. -/
theorem spaceDefinition_quiet (src : Source) (s : DeclarationState) (p : Phrase) :
    Quiet { s with resolver := s.resolver.setSpace (src.spaceName p) } (s.spaceDefinition src p) := by
  unfold spaceDefinition
  simp only
  split
  · exact Quiet.refl _
  · refine Quiet.addChild _ (Symbol.pairedAs_none (by simp [Symbol.bare, SymbolKind.isUnpaired]) ?_)
    simp only [Symbol.isImport, Symbol.has, Source.placed_modifiers, Symbol.bare]
    rfl

/-! ### Leaving -/

/-- What leaving a phrase with the given frame does, apart from the documentation. -/
def unwind (s : DeclarationState) : DeclarationFrame → DeclarationState
  | .plain => s
  | .symbol => s.closeTop
  | .cls => { s.closeTop with resolver := s.closeTop.resolver.outOfClass }
  | .bracedSpace => { s with resolver := s.resolver.setSpace "" }

theorem leave_eq_unwind {s : DeclarationState} {frame : DeclarationFrame} {rest : List DeclarationFrame}
    (h : s.frames = frame :: rest) (p : Phrase) : s.leave p = if p.kind == .expressionStatement then
      { { s with frames := rest }.unwind frame with doc := none } else { s with frames := rest }.unwind frame := by
  unfold leave
  rw [h]
  cases frame <;> rfl

/-- Leaving a phrase pops its frame and undoes what entering it did. -/
theorem leave_cons {s : DeclarationState} {frame : DeclarationFrame} {rest : List DeclarationFrame}
    (h : s.frames = frame :: rest) (p : Phrase) : ({ s with frames := rest }.unwind frame).Quiet (s.leave p) := by
  rw [leave_eq_unwind h]
  split
  · exact Quiet.withDoc _ none
  · exact Quiet.refl _

theorem Quiet.token (src : Source) (s : DeclarationState) (t : Token) : s.Quiet (s.token src t) := by
  unfold DeclarationState.token
  split
  · exact withDoc s _
  · exact refl s

end DeclarationState

end CodeAtlas
