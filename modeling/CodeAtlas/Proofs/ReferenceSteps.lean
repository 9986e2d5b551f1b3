import CodeAtlas.Reference.Pass

/-!
# Steps of the reference walk

What one step of the reference walk can do to its stacks.  Most of what the walk does is quiet: it records references
and sets types, and leaves all stacks as they are (`Quiet`).  Apart from that a step opens or closes arms of a
conditional, or it opens a declaration, whose kind of phrase belongs to a family (`PhraseKind.family?`).
`enter_plain`, `enter_declaration` and `leave_cons` list the possibilities.
-/

namespace CodeAtlas

/-! ### Kinds of declarations -/

/-- The family of the symbol that a phrase of this kind declares and opens. -/
def PhraseKind.family? : PhraseKind → Option DeclarationFamily
  | .classDeclaration | .interfaceDeclaration | .traitDeclaration => some .classLike
  | .anonymousClassDeclaration => some .anonymousClass
  | .methodDeclaration => some .method
  | .functionDeclaration => some .function
  | .anonymousFunctionCreationExpression | .arrowFunctionCreationExpression => some .closure
  | _ => none

/-- Kinds of phrases that declare something for the passes: what has a family, imports and namespaces. -/
def PhraseKind.declares (k : PhraseKind) : Bool :=
  k.family?.isSome || k == .namespaceUseDeclaration || k == .namespaceDefinition

def DeclarationFamily.isClass : DeclarationFamily → Bool
  | .classLike | .anonymousClass => true
  | _ => false

/-- The name of the base class, empty if there is none. -/
def Symbol.baseName (s : Symbol) : String :=
  (s.baseClass?.map (·.name)).getD ""

/-! ### Quiet changes -/

/-- The same frames up to the types in the innermost one. -/
structure FlowTypes.SameStack (t t' : FlowTypes) : Prop where
  below : t'.below = t.below
  kind : t'.top.kind = t.top.kind
  branches : t'.top.branches = t.top.branches

theorem FlowTypes.SameStack.setType (t : FlowTypes) (name : String) (type : TypeText) :
    t.SameStack (t.setType name type) :=
  ⟨rfl, rfl, rfl⟩

theorem FlowTypes.SameStack.trans {t u w : FlowTypes} (h : t.SameStack u) (h' : u.SameStack w) : t.SameStack w :=
  ⟨h'.below.trans h.below, h'.kind.trans h.kind, h'.branches.trans h.branches⟩

/-- The branches that a phrase with this reduction keeps open. -/
def Reduction.arms : Reduction → List FlowKind
  | .conditional _ => [.branch]
  | .switch true _ => [.branch]
  | _ => []

/-- A frame without what it has gathered so far. -/
def ReferenceFrame.skeleton (f : ReferenceFrame) : Reduction × Unwinding :=
  (f.transform, f.exit)

namespace ReferenceState

/-- `s'` differs from `s` in recorded references, in types and in outcomes only. -/
structure Quiet (s s' : ReferenceState) : Prop where
  resolver : s'.resolver = s.resolver
  locals : s.locals.SameStack s'.locals
  frames : s'.frames.map ReferenceFrame.skeleton = s.frames.map ReferenceFrame.skeleton
  cursors : s'.cursors = s.cursors
  scopes : s'.scopes.length = s.scopes.length

namespace Quiet

variable {s s' s'' : ReferenceState}

theorem refl (s : ReferenceState) : s.Quiet s :=
  ⟨rfl, ⟨rfl, rfl, rfl⟩, rfl, rfl, rfl⟩

theorem trans (h : s.Quiet s') (h' : s'.Quiet s'') : s.Quiet s'' :=
  ⟨h'.resolver.trans h.resolver, h.locals.trans h'.locals, h'.frames.trans h.frames, h'.cursors.trans h.cursors,
    h'.scopes.trans h.scopes⟩

theorem withDoc (s : ReferenceState) (doc : Option DocBlock) : s.Quiet { s with doc := doc } :=
  ⟨rfl, ⟨rfl, rfl, rfl⟩, rfl, rfl, rfl⟩

theorem setType (s : ReferenceState) (name : String) (type : TypeText) :
    s.Quiet { s with locals := s.locals.setType name type } :=
  ⟨rfl, FlowTypes.SameStack.setType s.locals name type, rfl, rfl, rfl⟩

theorem record (s : ReferenceState) (r : Reference) : s.Quiet (s.record r) := by
  unfold ReferenceState.record
  split
  · exact refl s
  · rename_i scope rest h
    exact ⟨rfl, ⟨rfl, rfl, rfl⟩, rfl, rfl, by simp [h]⟩

theorem changeType (s : ReferenceState) (place : Option Nat) (type : TypeText) : s.Quiet (s.changeType place type) := by
  unfold ReferenceState.changeType
  split
  · rename_i n scope rest h
    exact ⟨rfl, ⟨rfl, rfl, rfl⟩, rfl, rfl, by simp [h]⟩
  · exact refl s

theorem pushOutcome (s : ReferenceState) (o : Outcome) : s.Quiet (s.pushOutcome o) := by
  unfold ReferenceState.pushOutcome
  split
  · exact refl s
  · rename_i frame rest h
    exact ⟨rfl, ⟨rfl, rfl, rfl⟩, by simp [h, ReferenceFrame.skeleton], rfl, rfl⟩

/-! ### Tokens -/

theorem classWord (src : Source) (s : ReferenceState) (t : Token) : s.Quiet (s.classWord src t) := by
  unfold ReferenceState.classWord
  extract_lets designates name
  split
  · exact refl s
  · exact (record s _).trans (pushOutcome _ _)

theorem boundVariable (src : Source) (s : ReferenceState) (t : Token) : s.Quiet (s.boundVariable src t) := by
  unfold ReferenceState.boundVariable
  split
  · exact refl s
  · simp only
    split
    · exact (setType s _ _).trans (record _ _)
    · exact record s _
    · exact refl s

theorem token (src : Source) (s : ReferenceState) (t : Token) : s.Quiet (s.token src t) := by
  unfold ReferenceState.token
  split
  · exact withDoc s _
  · exact pushOutcome s _
  · exact pushOutcome s _
  · exact pushOutcome s _
  · exact classWord src s t
  · exact classWord src s t
  · exact classWord src s t
  · exact boundVariable src s t
  · exact refl s

/-! ### Expressions -/

theorem recordTyped (s : ReferenceState) (r : Reference) (type : TypeText) (variableName : Option String) :
    s.Quiet (s.recordTyped r type variableName).1 :=
  record s _

theorem qualifiedName (env : ReferenceInput) (s : ReferenceState) (p : Phrase) (kind : SymbolKind) :
    s.Quiet (s.qualifiedName env p kind).1 := by
  unfold ReferenceState.qualifiedName
  split
  · exact refl s
  · split
    · exact refl s
    · exact recordTyped s _ _ _

theorem simpleVariable (src : Source) (s : ReferenceState) (p : Phrase) : s.Quiet (s.simpleVariable src p).1 := by
  unfold ReferenceState.simpleVariable
  split
  · exact refl s
  · exact recordTyped s _ _ _

theorem assignment (s : ReferenceState) (outcomes : List Outcome) : s.Quiet (s.assignment outcomes).1 := by
  unfold ReferenceState.assignment
  split
  · exact refl s
  · simp only
    split
    · exact refl s
    · exact (changeType s _ _).trans (setType _ _ _)

theorem accessMember (env : ReferenceInput) (s : ReferenceState) (p : Phrase) (kind : SymbolKind)
    (outcomes : List Outcome) : s.Quiet (s.accessMember env p kind outcomes).1 := by
  unfold ReferenceState.accessMember
  simp only
  split
  · exact refl s
  · split
    · exact refl s
    · exact recordTyped s _ _ _

theorem bindLoopVariable (s : ReferenceState) (outcomes : List Outcome) : s.Quiet (s.bindLoopVariable outcomes) := by
  unfold ReferenceState.bindLoopVariable
  split
  · exact (changeType s _ _).trans (setType _ _ _)
  · exact refl s

theorem instanceTest (s : ReferenceState) (outcomes : List Outcome) : s.Quiet (s.instanceTest outcomes) := by
  unfold ReferenceState.instanceTest
  split
  · split
    · exact refl s
    · exact setType s _ _
  · exact refl s

theorem parameterDeclaration (src : Source) (s : ReferenceState) (p : Phrase) :
    s.Quiet (s.parameterDeclaration src p) := by
  unfold ReferenceState.parameterDeclaration
  split
  · exact refl s
  · exact record s _

theorem declaredMember (src : Source) (s : ReferenceState) (p : Phrase) : s.Quiet (s.declaredMember src p) := by
  unfold ReferenceState.declaredMember
  simp only
  split
  · exact refl s
  · exact record s _

end Quiet

/-! ### Entering -/

/-- What entering a phrase that declares nothing does. -/
inductive PlainEntry (s : ReferenceState) (p : Phrase) : ReferenceState × Bool → Prop
  | refused {s'} (hq : s.Quiet s') : PlainEntry s p (s', false)
  | quiet {s' transform} (hq : s.Quiet s') (ha : transform.arms = []) :
    PlainEntry s p (within p transform .nothing s')
  | conditional {s'} (hq : s.Quiet s') :
    PlainEntry s p (within p (.conditional false) .nothing { s' with locals := s'.locals.startBranch })
  | conditionalArm {s'} (hq : s.Quiet s') :
    PlainEntry s p (within p .discard .nothing (s'.nextConditionalArm p.kind))
  | switchArm {s'} (hq : s.Quiet s') : PlainEntry s p (within p .discard .nothing (s'.nextSwitchArm p.kind))

theorem enter_plain (env : ReferenceInput) (s : ReferenceState) (p : Phrase) (path : List Phrase)
    (h : p.kind.declares = false) : PlainEntry s p (s.enter env p path) := by
  unfold enter
  simp only
  have hq : s.Quiet (if p.kind.discardsDoc then { s with doc := none } else s) := by
    split
    · exact Quiet.withDoc s none
    · exact Quiet.refl s
  generalize (if p.kind.discardsDoc then { s with doc := none } else s) = s' at hq
  split
  all_goals first
    | exact .refused hq
    | exact .quiet hq rfl
    | exact .conditional hq
    | (rename_i hk; rw [hk] at h; exact absurd h (by decide))
    | exact .quiet (hq.trans (Quiet.parameterDeclaration _ _ _)) rfl
    | exact .quiet (hq.trans (Quiet.declaredMember _ _ _)) rfl
    | exact .conditionalArm hq
    | exact .switchArm hq

/-- `s'` is `s` inside the class `symbol`, up to quiet changes. -/
structure OpensClass (s s' : ReferenceState) (symbol : Symbol) : Prop where
  resolver : s'.resolver = s.resolver.intoClass symbol.name symbol.baseName
  locals : s.locals.SameStack s'.locals
  frames : s'.frames.map ReferenceFrame.skeleton = s.frames.map ReferenceFrame.skeleton
  cursors : s'.cursors = Cursor.ofSymbol symbol :: s.cursors
  scopes : s'.scopes.length = s.scopes.length

/-- `s'` is `s` inside the function `symbol`, up to quiet changes. -/
structure OpensFunction (s s' : ReferenceState) (symbol : Symbol) : Prop where
  resolver : s'.resolver = s.resolver
  locals : ∃ carried, (s.locals.enterScope carried).SameStack s'.locals
  frames : s'.frames.map ReferenceFrame.skeleton = s.frames.map ReferenceFrame.skeleton
  cursors : s'.cursors = Cursor.ofSymbol symbol :: s.cursors
  scopes : s'.scopes.length = s.scopes.length + 1

private theorem openClassBody_opens (src : Source) (s : ReferenceState) (symbol : Symbol) (name : Option Token) :
    s.OpensClass (s.openClassBody src symbol name) symbol := by
  unfold openClassBody
  cases name with
  | none => exact ⟨rfl, ⟨rfl, rfl, rfl⟩, rfl, rfl, rfl⟩
  | some token =>
    have hq := Quiet.record s (Reference.bare symbol.kind symbol.name (src.tokenRange token))
    exact ⟨by rw [← hq.resolver]; rfl, hq.locals, hq.frames, by rw [← hq.cursors]; rfl, hq.scopes⟩

private theorem sameStack_foldl_setType (g : Symbol → TypeText) (l : List Symbol) (t : FlowTypes) :
    t.SameStack (l.foldl (fun t parameter => t.setType parameter.name (g parameter)) t) := by
  induction l generalizing t with
  | nil => exact ⟨rfl, rfl, rfl⟩
  | cons a l ih => exact (FlowTypes.SameStack.setType t a.name (g a)).trans (ih _)

private theorem openFunctionBody_opens (src : Source) (s : ReferenceState) (p : Phrase) (symbol : Symbol)
    (carried : List String) : s.OpensFunction (s.openFunctionBody src p symbol carried) symbol := by
  refine ⟨rfl, ⟨carried, ?_⟩, rfl, rfl, rfl⟩
  unfold openFunctionBody
  simp only [pushCursor]
  split
  · exact (FlowTypes.SameStack.setType _ _ _).trans (sameStack_foldl_setType _ _ _)
  · exact sameStack_foldl_setType _ _ _

/-- What entering a phrase that declares and opens `symbol` does: the symbol is taken from the innermost cursor, and
after some quiet changes it is open. -/
inductive DeclarationEntry (s : ReferenceState) (p : Phrase) (family : DeclarationFamily) (symbol : Symbol) :
    ReferenceState × Bool → Prop
  | cls {s₁ s' transform} (hf : family.isClass = true) (hq : (s.advance family).Quiet s₁)
    (ho : s₁.OpensClass s' symbol) (ha : transform.arms = []) :
    DeclarationEntry s p family symbol (within p transform .leaveClass s')
  | function {s₁ s' transform} (hf : family.isClass = false) (hq : (s.advance family).Quiet s₁)
    (ho : s₁.OpensFunction s' symbol) (ha : transform.arms = []) :
    DeclarationEntry s p family symbol (within p transform .leaveFunction s')

private theorem getD_of_next {s : ReferenceState} {family : DeclarationFamily} {fallback : Symbol} (x : Symbol)
    (h : s.nextSymbol? family = some x) : (s.nextSymbol? family).getD fallback = x := by
  rw [h, Option.getD_some]

private theorem classDeclaration_entry (src : Source) (s : ReferenceState) (p : Phrase) :
    ∃ symbol, (∀ x, s.nextSymbol? .classLike = some x → symbol = x) ∧
      DeclarationEntry s p .classLike symbol (within p .discard .leaveClass (s.classDeclaration src p)) :=
  ⟨_, getD_of_next, .cls rfl (Quiet.refl _) (openClassBody_opens src _ _ _) rfl⟩

private theorem methodDeclaration_entry (src : Source) (s : ReferenceState) (p : Phrase) :
    ∃ symbol, (∀ x, s.nextSymbol? .method = some x → symbol = x) ∧
      DeclarationEntry s p .method symbol (within p .discard .leaveFunction (s.methodDeclaration src p)) := by
  unfold methodDeclaration
  cases (p.phrase? .methodDeclarationHeader).bind (·.token? .name) with
  | none => exact ⟨_, getD_of_next, .function rfl (Quiet.refl _) (openFunctionBody_opens src _ p _ []) rfl⟩
  | some token => exact ⟨_, getD_of_next, .function rfl (Quiet.record _ _) (openFunctionBody_opens src _ p _ []) rfl⟩

private theorem functionDeclaration_entry (src : Source) (s : ReferenceState) (p : Phrase) :
    ∃ symbol, (∀ x, s.nextSymbol? .function = some x → symbol = x) ∧
      DeclarationEntry s p .function symbol (within p .discard .leaveFunction (s.functionDeclaration src p)) := by
  unfold functionDeclaration
  cases (p.phrase? .functionDeclarationHeader).bind (·.token? .name) with
  | none => exact ⟨_, getD_of_next, .function rfl (Quiet.refl _) (openFunctionBody_opens src _ p _ []) rfl⟩
  | some token => exact ⟨_, getD_of_next, .function rfl (Quiet.record _ _) (openFunctionBody_opens src _ p _ []) rfl⟩

private theorem closureExpression_entry (src : Source) (s : ReferenceState) (p : Phrase) (type : TypeText) :
    ∃ symbol, (∀ x, s.nextSymbol? .closure = some x → symbol = x) ∧
      DeclarationEntry s p .closure symbol (within p (.typed type) .leaveFunction (s.closureExpression src p)) :=
  ⟨_, getD_of_next, .function rfl (Quiet.refl _) (openFunctionBody_opens src _ p _ _) rfl⟩

private theorem unnamedClass_entry (env : ReferenceInput) (s : ReferenceState) (p : Phrase) :
    ∃ symbol, (∀ x, s.nextSymbol? .anonymousClass = some x → symbol = x) ∧
      DeclarationEntry s p .anonymousClass symbol
        (within p (.typed (TypeText.ofText (s.unnamedClass env p).name)) .leaveClass
          ((s.advance .anonymousClass).openClassBody env.source (s.unnamedClass env p) none)) :=
  ⟨s.unnamedClass env p, getD_of_next, .cls rfl (Quiet.refl _) (openClassBody_opens env.source _ _ _) rfl⟩

/-- Entering a phrase with a family takes the next symbol of the family, if there is one, and opens it. -/
theorem enter_declaration (env : ReferenceInput) (s : ReferenceState) (p : Phrase) (path : List Phrase)
    {family : DeclarationFamily} (h : p.kind.family? = some family) :
    ∃ symbol, (∀ x, s.nextSymbol? family = some x → symbol = x) ∧
      DeclarationEntry s p family symbol (s.enter env p path) := by
  obtain ⟨kind, children⟩ := p
  cases kind
  case classDeclaration => cases h; exact classDeclaration_entry env.source s _
  case interfaceDeclaration => cases h; exact classDeclaration_entry env.source s _
  case traitDeclaration => cases h; exact classDeclaration_entry env.source s _
  case anonymousClassDeclaration => cases h; exact unnamedClass_entry env s _
  case methodDeclaration => cases h; exact methodDeclaration_entry env.source s _
  case functionDeclaration => cases h; exact functionDeclaration_entry env.source s _
  case anonymousFunctionCreationExpression => cases h; exact closureExpression_entry env.source s _ _
  case arrowFunctionCreationExpression => cases h; exact closureExpression_entry env.source s _ _
  all_goals cases h

theorem enter_imports (env : ReferenceInput) (s : ReferenceState) (p : Phrase) (path : List Phrase)
    (h : p.kind = .namespaceUseDeclaration) : s.enter env p path = (s.importNames env.source p, false) := by
  obtain ⟨kind, children⟩ := p
  cases h
  rfl

theorem enter_space (env : ReferenceInput) (s : ReferenceState) (p : Phrase) (path : List Phrase)
    (h : p.kind = .namespaceDefinition) : s.enter env p path =
      within p .discard (if Source.isBraced p then .leaveSpace else .nothing) (s.spaceDefinition env.source p) := by
  obtain ⟨kind, children⟩ := p
  cases h
  rfl

/-- A phrase that declares is one with a family, an import or a namespace. -/
theorem declares_cases {k : PhraseKind} (h : k.declares = true) :
    (∃ family, k.family? = some family) ∨ k = .namespaceUseDeclaration ∨ k = .namespaceDefinition := by
  unfold PhraseKind.declares at h
  rw [Bool.or_eq_true, Bool.or_eq_true, Option.isSome_iff_exists, beq_iff_eq, beq_iff_eq] at h
  exact or_assoc.1 h

/-! ### Leaving -/

/-- What the state is like when a phrase with the given reduction is finished: its arms are merged. -/
inductive Finished (s : ReferenceState) (transform : Reduction) : ReferenceState → Prop
  | quiet {s'} (ha : transform.arms = []) (hq : s.Quiet s') : Finished s transform s'
  | arms (armOpen exhaustive : Bool) (ha : transform.arms = if armOpen then [.branch] else []) :
    Finished s transform (s.closeArms armOpen exhaustive)

theorem finishPhrase_finished (env : ReferenceInput) (s : ReferenceState) (p : Phrase) (transform : Reduction)
    (outcomes : List Outcome) : s.Finished transform (s.finishPhrase env p transform outcomes).1 := by
  cases transform with
  | conditional hasElse => exact .arms true hasElse rfl
  | switch armOpen hasDefault => exact .arms armOpen hasDefault (by cases armOpen <;> rfl)
  | name kind => exact .quiet rfl (Quiet.qualifiedName env s p kind)
  | variableName => exact .quiet rfl (Quiet.simpleVariable env.source s p)
  | assignment => exact .quiet rfl (Quiet.assignment s outcomes)
  | member kind => exact .quiet rfl (Quiet.accessMember env s p kind outcomes)
  | instanceOf => exact .quiet rfl (Quiet.instanceTest s outcomes)
  | foreachValue => exact .quiet rfl (Quiet.bindLoopVariable s outcomes)
  | call =>
    refine .quiet rfl ?_
    unfold finishPhrase
    cases outcomes <;> exact Quiet.refl s
  | _ => exact .quiet rfl (Quiet.refl s)

theorem frames_unwind (s : ReferenceState) (exit : Unwinding) : (s.unwind exit).frames = s.frames := by
  have hpop : ∀ s : ReferenceState, s.popCursor.frames = s.frames := by
    intro s
    unfold popCursor
    split <;> rfl
  have hclose : ∀ s : ReferenceState, s.closeScope.frames = s.frames := by
    intro s
    unfold closeScope
    split <;> rfl
  cases exit <;> simp only [unwind, hpop, hclose]

/-- Leaving a phrase pops its frame, finishes the phrase and undoes what entering it did. -/
theorem leave_cons (env : ReferenceInput) (s : ReferenceState) (p : Phrase) {frame : ReferenceFrame}
    {rest : List ReferenceFrame} (h : s.frames = frame :: rest) :
    ∃ s₁, { s with frames := rest }.Finished frame.transform s₁ ∧ (s₁.unwind frame.exit).Quiet (s.leave env p) := by
  refine ⟨_, finishPhrase_finished env _ p frame.transform frame.outcomes, ?_⟩
  unfold leave
  rw [h]
  simp only
  generalize { s with frames := rest }.finishPhrase env p frame.transform frame.outcomes = result
  obtain ⟨s₁, outcome⟩ := result
  cases outcome with
  | none =>
    split
    · exact Quiet.withDoc _ none
    · exact Quiet.refl _
  | some o =>
    have hq := Quiet.pushOutcome (s₁.unwind frame.exit) o
    split
    · exact hq.trans (Quiet.withDoc _ none)
    · exact hq

end ReferenceState

end CodeAtlas
