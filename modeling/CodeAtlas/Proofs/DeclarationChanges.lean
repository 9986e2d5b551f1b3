import CodeAtlas.Proofs.DeclarationGrowth
import Mathlib.Logic.Relation

/-!
# Changes of the declaration state

What entering a phrase can do (`enter_entry`): a few changes, each of one part of the state (`Change`), after which at
most one symbol is opened (`Entry`).  What is added to an open symbol (`Source.Adds`) and what is opened
(`Source.Opens`) is read from the phrase, and fits in the innermost class of the naming context.
-/

namespace CodeAtlas

namespace Source

/-- The variables that a phrase gives a value to. -/
def assignments (src : Source) (r : Resolver) (doc : Option DocBlock) (p : Phrase) : List Assigned :=
  match p.kind with
  | .simpleAssignmentExpression | .byRefAssignmentExpression => (src.assignedVariable? r doc p).toList
  | .foreachStatement => loopVariables p
  | .catchClause => (src.caughtVariable? r p).toList
  | .globalDeclaration => globalVariables p
  | _ => []

/-- The symbol of a variable that is given a value. -/
def variableSymbol (src : Source) (v : Assigned) : Symbol :=
  ((Symbol.bare .var (src.text v.token)).withLocation (src.tokenLocation v.token)).withType v.type

/-- The finished symbols that a phrase adds to the innermost open one. -/
inductive Adds (src : Source) : Symbol → Prop
  | imported {p : Phrase} {i : Import} (h : i ∈ src.imports p) : Adds src (src.importSymbol i)
  | space (name : String) (p : Phrase) : Adds src (src.placed (Symbol.bare .space name) p)
  | classConstant {r : Resolver} {doc : Option DocBlock} {p : Phrase} {c : Symbol}
    (h : c ∈ src.classConstants r doc p) : Adds src c
  | property {r : Resolver} {doc : Option DocBlock} {p : Phrase} {c : Symbol} (h : c ∈ src.properties r doc p) :
    Adds src c
  | constant {r : Resolver} {doc : Option DocBlock} {p : Phrase} {c : Symbol} (h : c ∈ src.constants r doc p) :
    Adds src c
  | promoted {r : Resolver} {header : Phrase} {c : Symbol} (h : c ∈ src.constructorProperties r header) : Adds src c

/-- The symbols that can be opened for a phrase. -/
inductive Opens (src : Source) (p : Phrase) : Symbol → Prop
  | cls (r r' : Resolver) (doc : Option DocBlock) : Opens src p (withClassDoc r doc (src.classSymbol r' p))
  | anonymousClass (r r' : Resolver) (doc : Option DocBlock) :
    Opens src p (withClassDoc r doc (src.anonymousClassSymbol r' p))
  | headless {kind : SymbolKind} (h : kind = .function ∨ kind = .method) :
    Opens src p (src.placed (Symbol.bare kind "") p)
  | method (r : Resolver) (doc : Option DocBlock) (inInterface : Bool) (header : Phrase) :
    Opens src p (src.methodSymbol r doc inInterface p header)
  | function (r : Resolver) (doc : Option DocBlock) (header : Phrase) : Opens src p (src.functionSymbol r doc p header)
  | closure (r : Resolver) (doc : Option DocBlock) : Opens src p (src.closureSymbol r doc p)
  | arrowFunction (r : Resolver) (doc : Option DocBlock) : Opens src p (src.anonymousFunction r doc p p)

/-- No phrase opens a file. -/
theorem Opens.kind_ne_file {src : Source} {p : Phrase} {s : Symbol} (h : src.Opens p s) : s.kind ≠ .file := by
  have hpaired : ∀ {family : DeclarationFamily}, s.PairedAs (some family) → family ≠ .imported → s.kind ≠ .file := by
    intro family hp hf hk
    have hi := (hp family).2 rfl
    cases family <;> simp_all [DeclarationFamily.includes, SymbolKind.isClassLike]
  cases h with
  | cls r r' doc =>
    exact hpaired (withClassDoc_paired (src.classSymbol_paired r' p) r doc) DeclarationFamily.noConfusion
  | anonymousClass r r' doc =>
    exact hpaired (withClassDoc_paired (src.anonymousClassSymbol_paired r' p) r doc) DeclarationFamily.noConfusion
  | headless hk =>
    rw [placed_kind]
    rcases hk with rfl | rfl <;> exact SymbolKind.noConfusion
  | method r doc inInterface header =>
    exact hpaired (src.methodSymbol_paired r doc inInterface p header) DeclarationFamily.noConfusion
  | function r doc header => exact hpaired (src.functionSymbol_paired r doc p header) DeclarationFamily.noConfusion
  | closure r doc => exact hpaired (src.closureSymbol_paired r doc p) DeclarationFamily.noConfusion
  | arrowFunction r doc => exact hpaired (src.anonymousFunction_paired r doc p p) DeclarationFamily.noConfusion

/-- A finished symbol has no children. -/
theorem Adds.children_eq_nil {src : Source} {c : Symbol} (h : src.Adds c) : c.children = [] := by
  cases h with
  | imported => simp [importSymbol, Symbol.withModifiers, Symbol.bare]
  | space name p => rw [placed_children]; rfl
  | classConstant h => exact (src.classConstants_plain _ _ _ c h).children
  | property h => exact (src.properties_plain _ _ _ c h).children
  | constant h => exact (src.constants_plain _ _ _ c h).children
  | promoted h => exact (src.constructorProperties_plain _ _ c h).children

end Source

namespace DeclarationState

open Relation

/-- A change of one part of the state while a phrase is entered. -/
inductive Change (src : Source) (p : Phrase) : DeclarationState → DeclarationState → Prop
  | doc (s : DeclarationState) (doc : Option DocBlock) : Change src p s { s with doc := doc }
  | imports (s : DeclarationState) (rule : ImportedName) :
    Change src p s { s with resolver := s.resolver.addImport rule }
  | space (s : DeclarationState) (name : String) : Change src p s { s with resolver := s.resolver.setSpace name }
  | adds {s : DeclarationState} {c : Symbol} (h : src.Adds c) (hfit : c.FitsIn s.resolver.className) :
    Change src p s (s.addChild c)
  | declares {s : DeclarationState} {r : Resolver} {doc : Option DocBlock} {v : Source.Assigned}
    (h : v ∈ src.assignments r doc p) : Change src p s (s.declare src v)
  | usesTraits (s : DeclarationState) : Change src p s (s.useTraits src p)

/-- What entering a phrase does: some changes, and then at most one symbol is opened. -/
inductive Entry (src : Source) (p : Phrase) (s : DeclarationState) : DeclarationState × Bool → Prop
  | refused {s' : DeclarationState} (h : ReflTransGen (Change src p) s s') : Entry src p s (skipping s')
  | plain {s' : DeclarationState} (h : ReflTransGen (Change src p) s s') : Entry src p s (within .plain s')
  | bracedSpace {s' : DeclarationState} (h : ReflTransGen (Change src p) s s') : Entry src p s (within .bracedSpace s')
  | symbol {s' : DeclarationState} {c : Symbol} (h : ReflTransGen (Change src p) s s') (ho : src.Opens p c)
    (hk : c.kind.isClassLike = false) (hfit : c.FitsIn s'.resolver.className) :
    Entry src p s (within .symbol (s'.openSymbol c))
  | cls {s' : DeclarationState} {c : Symbol} (h : ReflTransGen (Change src p) s s')
    (ho : ∀ r doc, src.Opens p (Source.withClassDoc r doc c)) (hk : c.kind.isClassLike = true)
    (hc : c.children = []) : Entry src p s (within .cls (s'.openClassBody c))

section

variable {src : Source} {p : Phrase} {s₀ s : DeclarationState}

@[simp] theorem addChild_resolver (s : DeclarationState) (c : Symbol) : (s.addChild c).resolver = s.resolver := by
  unfold addChild
  split <;> rfl

private theorem addChildren_changes {cs : List Symbol}
    (hcs : ∀ c ∈ cs, src.Adds c ∧ c.FitsIn s.resolver.className) :
    ReflTransGen (Change src p) s (s.addChildren cs) := by
  unfold addChildren
  induction cs generalizing s with
  | nil => exact .refl
  | cons c cs ih =>
    obtain ⟨⟨hc, hfit⟩, hcs⟩ := List.forall_mem_cons.1 hcs
    refine .head (.adds hc hfit) (ih ?_)
    rwa [addChild_resolver]

private theorem declareAll_changes {r : Resolver} {doc : Option DocBlock} {vs : List Source.Assigned}
    (hvs : ∀ v ∈ vs, v ∈ src.assignments r doc p) : ReflTransGen (Change src p) s (s.declareAll src vs) := by
  unfold declareAll
  induction vs generalizing s with
  | nil => exact .refl
  | cons v vs ih =>
    obtain ⟨hv, hvs⟩ := List.forall_mem_cons.1 hvs
    exact .head (.declares hv) (ih hvs)

private theorem importNames_changes (src : Source) (p : Phrase) (s : DeclarationState) :
    ReflTransGen (Change src p) s (s.importNames src p) := by
  have hfold : ∀ (is : List Source.Import) (s : DeclarationState), (∀ i ∈ is, i ∈ src.imports p) →
      ReflTransGen (Change src p) s (is.foldl (addImport src) s) := by
    intro is
    induction is with
    | nil => exact fun _ _ => .refl
    | cons i is ih =>
      intro s hi
      obtain ⟨hi, his⟩ := List.forall_mem_cons.1 hi
      exact .head (.imports s i.rule) (.head (.adds (.imported hi) (src.importSymbol_fits hi _)) (ih _ his))
  exact hfold _ s fun _ hi => hi

private theorem spaceDefinition_changes (src : Source) (p : Phrase) (s : DeclarationState) :
    ReflTransGen (Change src p) s (s.spaceDefinition src p) := by
  have hspace : ReflTransGen (Change src p) s { s with resolver := s.resolver.setSpace (src.spaceName p) } :=
    .single (.space s _)
  unfold spaceDefinition
  dsimp only
  split
  · exact hspace
  · refine hspace.tail (.adds (.space _ p) (Symbol.fitsIn_of_kind ?_ _))
    rw [Source.placed_kind]
    rfl

private theorem entry_methodDeclaration (h : ReflTransGen (Change src p) s₀ s) :
    Entry src p s₀ (within .symbol (s.methodDeclaration src p)) := by
  have hdoc := h.tail (.doc s none)
  unfold methodDeclaration
  dsimp only
  split
  · -- a method without a header has no name
    refine .symbol hdoc (.headless (Or.inr rfl)) (by rw [Source.placed_kind]; rfl) fun _ hname => ?_
    exact absurd (by rw [Source.placed_name]; rfl) hname
  · rename_i header _
    refine .symbol ?_ (.method _ _ _ _) (by rw [(src.methodSymbol_paired _ _ _ _ _).kind_eq_method]; rfl)
      (src.methodSymbol_member _ _ _ _ _).fitsIn
    split
    · exact hdoc.trans (addChildren_changes fun c hc => ⟨.promoted hc, (src.constructorProperties_members _ hc).fitsIn⟩)
    · exact hdoc

/-- What is opened for a function is no class and no member. -/
private theorem entry_function {c : Symbol} (h : ReflTransGen (Change src p) s₀ s) (ho : src.Opens p c)
    (hk : c.kind = .function) : Entry src p s₀ (within .symbol (s.openSymbol c)) :=
  .symbol h ho (by rw [hk]; rfl) (Symbol.fitsIn_of_kind (by rw [hk]; rfl) _)

private theorem entry_functionDeclaration (h : ReflTransGen (Change src p) s₀ s) :
    Entry src p s₀ (within .symbol (s.functionDeclaration src p)) := by
  have hdoc := h.tail (.doc s none)
  unfold functionDeclaration
  dsimp only
  split
  · exact entry_function hdoc (.headless (Or.inl rfl)) (by rw [Source.placed_kind]; rfl)
  · exact entry_function hdoc (.function _ _ _) ((src.functionSymbol_paired _ _ _ _).kind_eq_function (Or.inl rfl))

end

/-- The possibilities when a phrase is entered. -/
theorem enter_entry (src : Source) (s : DeclarationState) (p : Phrase) : Entry src p s (s.enter src p) := by
  unfold enter
  dsimp only
  have hs : ReflTransGen (Change src p) s (if p.kind.discardsDoc then { s with doc := none } else s) := by
    split
    · exact .single (.doc s none)
    · exact .refl
  generalize (if p.kind.discardsDoc then { s with doc := none } else s) = s' at hs
  have hdoc := hs.tail (.doc s' none)
  have hclass : Entry src p s (within .cls (s'.openClassBody (src.classSymbol s'.resolver p))) :=
    .cls hs (fun r doc => .cls r s'.resolver doc) ((src.classSymbol_paired s'.resolver p).isClassLike rfl)
      (src.classSymbol_children s'.resolver p)
  have hadds : ∀ cs, (∀ c ∈ cs, src.Adds c ∧ c.FitsIn s'.resolver.className) →
      Entry src p s (skipping ({ s' with doc := none }.addChildren cs)) := fun cs hcs =>
    .refused (hdoc.trans (addChildren_changes hcs))
  -- the variables of a phrase that gives values, whatever its kind
  have hgives : ∀ vs, src.assignments s'.resolver s'.doc p = vs →
      Entry src p s (within .plain (s'.declareAll src vs)) := by
    rintro vs rfl
    exact .plain (hs.trans (declareAll_changes fun _ hv => hv))
  split <;> rename_i hk
  · exact .refused hs
  · have hspace := hs.trans (spaceDefinition_changes src p s')
    cases Source.isBraced p
    · exact .plain hspace
    · exact .bracedSpace hspace
  · exact .refused (hs.trans (importNames_changes src p s'))
  · exact hclass
  · exact hclass
  · exact hclass
  · exact .cls hs (fun r doc => .anonymousClass r s'.resolver doc)
      ((src.anonymousClassSymbol_paired s'.resolver p).isClassLike rfl)
      (src.anonymousClassSymbol_children s'.resolver p)
  · exact .refused (hs.tail (.usesTraits s'))
  · exact hadds _ fun c hc => ⟨.classConstant hc, (src.classConstants_members _ hc).fitsIn⟩
  · exact hadds _ fun c hc => ⟨.property hc, (src.properties_members _ hc).fitsIn⟩
  · refine hadds _ fun c hc => ⟨.constant hc, Symbol.fitsIn_of_kind ?_ _⟩
    rw [(src.constants_plain _ _ p c hc).kind]
    rfl
  · exact entry_methodDeclaration hs
  · exact entry_functionDeclaration hs
  · exact entry_function hdoc (.closure _ _) ((src.closureSymbol_paired _ _ p).kind_eq_function (Or.inr rfl))
  · exact entry_function hdoc (.arrowFunction _ _)
      ((src.anonymousFunction_paired _ _ p p).kind_eq_function (Or.inr rfl))
  · exact hgives _ (by unfold Source.assignments; rw [hk])
  · exact hgives _ (by unfold Source.assignments; rw [hk])
  · exact hgives _ (by unfold Source.assignments; rw [hk])
  · exact hgives _ (by unfold Source.assignments; rw [hk])
  · exact hgives _ (by unfold Source.assignments; rw [hk])
  · exact .plain hs

end DeclarationState

end CodeAtlas
