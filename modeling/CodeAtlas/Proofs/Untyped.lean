import CodeAtlas.Proofs.ReferenceSteady

/-!
# What is recorded, types aside

The symbols of a workspace give references their types, and nothing else: whatever pool a document is read with, the
same references are recorded in the same places (`ofDocument_untyped`).  Types go far in a walk, into the table of
variables, into the outcomes that phrases hand on and back into references recorded before.  But a step asks a type no
more than what to put into another type.  So it does the same, types aside, in the state without all types (`untyped`),
and there the pool does not matter.
-/

namespace CodeAtlas

/-! ### Leaving types out -/

/-- A reference without its type and scope. -/
def Reference.untyped (r : Reference) : Reference :=
  { r with type := none, scope := none }

namespace Reference

@[simp] theorem untyped_bare (kind : SymbolKind) (name : String) (range : Range) :
    (bare kind name range).untyped = bare kind name range := rfl

@[simp] theorem untyped_withType (r : Reference) (type : TypeText) : (r.withType type).untyped = r.untyped := rfl

@[simp] theorem untyped_withScope (r : Reference) (scope : String) : (r.withScope scope).untyped = r.untyped := rfl

end Reference

def Outcome.untyped (o : Outcome) : Outcome :=
  { o with type := TypeText.empty }

@[simp] theorem Outcome.untyped_untyped (o : Outcome) : o.untyped.untyped = o.untyped := rfl

@[simp] theorem Outcome.untyped_typed (type : TypeText) : (typed type).untyped = typed TypeText.empty := rfl

def ReferenceFrame.untyped (f : ReferenceFrame) : ReferenceFrame :=
  { f with outcomes := f.outcomes.map Outcome.untyped }

@[simp] theorem ReferenceFrame.kind_untyped (f : ReferenceFrame) : f.untyped.kind = f.kind := rfl

@[simp] theorem ReferenceFrame.untyped_untyped (f : ReferenceFrame) : f.untyped.untyped = f.untyped := by
  unfold untyped
  rw [List.map_map]
  rfl

namespace ScopeTree

mutual

/-- The scope with untyped references, and so all scopes inside it. -/
def untyped : ScopeTree → ScopeTree
  | .mk range references children => .mk range (references.map Reference.untyped) (untypedAll children)

def untypedAll : List ScopeTree → List ScopeTree
  | [] => []
  | s :: rest => untyped s :: untypedAll rest

end

theorem untypedAll_eq_map (l : List ScopeTree) : untypedAll l = l.map untyped := by
  induction l with
  | nil => rfl
  | cons s l ih => rw [untypedAll, ih, List.map_cons]

@[simp] theorem untyped_mk (range : Range) (references : List Reference) (children : List ScopeTree) :
    untyped ⟨range, references, children⟩ = ⟨range, references.map Reference.untyped, children.map untyped⟩ := by
  rw [untyped, untypedAll_eq_map]

mutual

@[simp] theorem untyped_untyped : ∀ s : ScopeTree, s.untyped.untyped = s.untyped
  | .mk range references children => by
    rw [untyped, untyped, untypedAll_untypedAll children, List.map_map]
    rfl

theorem untypedAll_untypedAll : ∀ l : List ScopeTree, untypedAll (untypedAll l) = untypedAll l
  | [] => rfl
  | s :: rest => by rw [untypedAll, untypedAll, untyped_untyped s, untypedAll_untypedAll rest]

end

mutual

theorem collect_untyped : ∀ s : ScopeTree, s.untyped.collect = s.collect.map Reference.untyped
  | .mk range references children => by
    rw [untyped, collect, collect, List.map_append, collectAll_untyped children]

theorem collectAll_untyped : ∀ l : List ScopeTree, collectAll (untypedAll l) = (collectAll l).map Reference.untyped
  | [] => rfl
  | s :: rest => by
    rw [untypedAll, collectAll, collectAll, List.map_append, collect_untyped s, collectAll_untyped rest]

end

end ScopeTree

/-- The references of a document without their types and scopes. -/
def Occurrences.untyped (d : Occurrences) : Occurrences :=
  ⟨d.uri, d.root.untyped, d.sorted.map Reference.untyped, d.reach⟩

private theorem Occurrences.reachFrom_untyped (p : Position) (l : List Reference) :
    reachFrom p (l.map Reference.untyped) = reachFrom p l := by
  induction l generalizing p with
  | nil => rfl
  | cons r l ih =>
    rw [List.map_cons, reachFrom, reachFrom, ih]
    rfl

/-- Sorting looks at ranges only. -/
theorem Occurrences.untyped_ofScope (uri : String) (root : ScopeTree) :
    (ofScope uri root).untyped = ofScope uri root.untyped := by
  have hsorted : (root.collect.mergeSort Reference.inOrder).map Reference.untyped =
      root.untyped.collect.mergeSort Reference.inOrder := by
    rw [ScopeTree.collect_untyped]
    exact List.map_mergeSort fun _ _ _ _ => rfl
  unfold ofScope untyped
  simp only
  rw [hsorted, ← hsorted, reachFrom_untyped]

namespace ReferenceState

/-- The state without types, and without what is known about variables. -/
def untyped (s : ReferenceState) : ReferenceState :=
  { s with
    locals := FlowTypes.empty
    frames := s.frames.map ReferenceFrame.untyped
    scopes := s.scopes.map ScopeTree.untyped }

variable (s : ReferenceState)

@[simp] theorem resolver_untyped : s.untyped.resolver = s.resolver := rfl

@[simp] theorem cursors_untyped : s.untyped.cursors = s.cursors := rfl

@[simp] theorem frames_untyped : s.untyped.frames = s.frames.map ReferenceFrame.untyped := rfl

@[simp] theorem scopes_untyped : s.untyped.scopes = s.scopes.map ScopeTree.untyped := rfl

@[simp] theorem untyped_withLocals (locals : FlowTypes) : untyped { s with locals := locals } = s.untyped := rfl

@[simp] theorem untyped_withDoc (doc : Option DocBlock) :
    untyped { s with doc := doc } = { s.untyped with doc := doc } := rfl

@[simp] theorem untyped_untyped : s.untyped.untyped = s.untyped := by
  unfold untyped
  simp [Function.comp_def]

/-! ### Recording -/

@[simp] theorem nextPlace_untyped : s.untyped.nextPlace? = s.nextPlace? := by
  unfold nextPlace?
  rcases h : s.scopes with _ | ⟨⟨range, references, children⟩, rest⟩
  · simp [h]
  · simp [h]

@[simp] theorem untyped_record (r : Reference) : (s.record r).untyped = s.untyped.record r.untyped := by
  unfold record
  rcases h : s.scopes with _ | ⟨⟨range, references, children⟩, rest⟩
  · simp [h]
  · simp [h, untyped]

/-- A type that is changed afterwards changes nothing else. -/
@[simp] theorem untyped_changeType (place : Option Nat) (type : TypeText) :
    (s.changeType place type).untyped = s.untyped := by
  unfold changeType
  split
  · rename_i n scope rest h
    obtain ⟨range, references, children⟩ := scope
    -- also where `n` is past the end
    have hsame : (references.modify n (·.withType type)).map Reference.untyped = references.map Reference.untyped := by
      apply List.ext_getElem?
      intro i
      simp only [List.getElem?_map, List.getElem?_modify, Option.map_eq_map, Option.map_map]
      split <;> rfl
    simp [untyped, h, hsame]
  · rfl

@[simp] theorem untyped_pushOutcome (o : Outcome) : (s.pushOutcome o).untyped = s.untyped.pushOutcome o.untyped := by
  unfold pushOutcome
  cases h : s.frames with
  | nil => simp [h]
  | cons frame rest => simp [h, untyped, ReferenceFrame.untyped]

@[simp] theorem untyped_closeScope : s.closeScope.untyped = s.untyped.closeScope := by
  unfold closeScope
  rcases h : s.scopes with _ | ⟨scope, _ | ⟨⟨range, references, children⟩, rest⟩⟩
  · simp [h]
  · simp [h]
  · simp [h, untyped]

/-! ### Pairing with symbols -/

@[simp] theorem nextSymbol_untyped (family : DeclarationFamily) :
    s.untyped.nextSymbol? family = s.nextSymbol? family := rfl

@[simp] theorem untyped_advance (family : DeclarationFamily) :
    (s.advance family).untyped = s.untyped.advance family := by
  unfold advance
  simp only [cursors_untyped]
  split
  · rfl
  · split <;> rfl

@[simp] theorem untyped_popCursor : s.popCursor.untyped = s.untyped.popCursor := by
  unfold popCursor
  simp only [cursors_untyped]
  split <;> rfl

/-! ### Declarations -/

@[simp] theorem untyped_spaceDefinition (src : Source) (p : Phrase) :
    (s.spaceDefinition src p).untyped = s.untyped.spaceDefinition src p := by
  unfold spaceDefinition
  simp only [resolver_untyped]
  split
  · rfl
  · split
    · rfl
    · exact untyped_record _ _

@[simp] theorem untyped_useClause (src : Source) (clause : Phrase) :
    (s.useClause src clause).untyped = s.untyped.useClause src clause := by
  unfold useClause
  simp only [nextSymbol_untyped]
  split
  · rfl
  · split
    · rfl
    · split
      · exact untyped_advance s _
      · rw [untyped_record, ← untyped_advance]
        rfl

@[simp] theorem untyped_importNames (src : Source) (p : Phrase) :
    (s.importNames src p).untyped = s.untyped.importNames src p :=
  (List.foldl_hom untyped fun s clause => (untyped_useClause s src clause).symm).symm

@[simp] theorem untyped_openClassBody (src : Source) (symbol : Symbol) (name : Option Token) :
    (s.openClassBody src symbol name).untyped = s.untyped.openClassBody src symbol name := by
  unfold openClassBody
  cases name with
  | none => rfl
  | some token =>
    have hr := untyped_record s (Reference.bare symbol.kind symbol.name (src.tokenRange token))
    rw [Reference.untyped_bare] at hr
    simp only [← hr]
    rfl

@[simp] theorem untyped_classDeclaration (src : Source) (p : Phrase) :
    (s.classDeclaration src p).untyped = s.untyped.classDeclaration src p := by
  unfold classDeclaration
  simp

/-- Neither the variables that a function carries along nor the types of its parameters show. -/
@[simp] theorem untyped_openFunctionBody (src : Source) (p : Phrase) (symbol : Symbol) (carried : List String) :
    (s.openFunctionBody src p symbol carried).untyped =
      { s.untyped.pushCursor symbol with scopes := ⟨src.range p, [], []⟩ :: s.untyped.scopes } := by
  unfold openFunctionBody untyped
  simp [pushCursor]

theorem untyped_methodDeclaration (src : Source) (p : Phrase) :
    (s.methodDeclaration src p).untyped = (s.untyped.methodDeclaration src p).untyped := by
  unfold methodDeclaration
  cases (p.phrase? .methodDeclarationHeader).bind (·.token? .name) with
  | none => simp
  | some token => simp

theorem untyped_functionDeclaration (src : Source) (p : Phrase) :
    (s.functionDeclaration src p).untyped = (s.untyped.functionDeclaration src p).untyped := by
  unfold functionDeclaration
  cases (p.phrase? .functionDeclarationHeader).bind (·.token? .name) with
  | none => simp
  | some token => simp

theorem untyped_closureExpression (src : Source) (p : Phrase) :
    (s.closureExpression src p).untyped = (s.untyped.closureExpression src p).untyped := by
  unfold closureExpression
  simp

theorem untyped_parameterDeclaration (src : Source) (p : Phrase) :
    (s.parameterDeclaration src p).untyped = (s.untyped.parameterDeclaration src p).untyped := by
  unfold parameterDeclaration
  cases p.token? .variableName with
  | none => simp
  | some token => simp

theorem untyped_declaredMember (src : Source) (p : Phrase) :
    (s.declaredMember src p).untyped = (s.untyped.declaredMember src p).untyped := by
  unfold declaredMember
  simp only
  split
  · simp
  · split <;> simp

/-! ### Conditionals -/

@[simp] theorem untyped_nextConditionalArm (kind : PhraseKind) :
    (s.nextConditionalArm kind).untyped = (s.untyped.nextConditionalArm kind).untyped := by
  unfold nextConditionalArm
  rcases h : s.frames with _ | ⟨frame, rest⟩
  · simp [h]
  · obtain ⟨phrase, transform, exit, outcomes⟩ := frame
    cases transform <;> simp [h, untyped, ReferenceFrame.untyped]

@[simp] theorem untyped_nextSwitchArm (kind : PhraseKind) :
    (s.nextSwitchArm kind).untyped = (s.untyped.nextSwitchArm kind).untyped := by
  unfold nextSwitchArm
  rcases h : s.frames with _ | ⟨frame, rest⟩
  · simp [h]
  · obtain ⟨phrase, transform, exit, outcomes⟩ := frame
    cases transform <;> simp [h, untyped, ReferenceFrame.untyped]

@[simp] theorem untyped_closeArms (armOpen exhaustive : Bool) :
    (s.closeArms armOpen exhaustive).untyped = s.untyped := rfl

/-! ### Tokens -/

theorem untyped_classWord (src : Source) (t : Token) :
    (s.classWord src t).untyped = (s.untyped.classWord src t).untyped := by
  unfold classWord
  cases h : s.frames with
  | nil => simp [h]
  | cons frame rest =>
    simp only [frames_untyped, resolver_untyped, h, List.map_cons, ReferenceFrame.kind_untyped, apply_ite untyped]
    simp

theorem untyped_boundVariable (src : Source) (t : Token) :
    (s.boundVariable src t).untyped = (s.untyped.boundVariable src t).untyped := by
  unfold boundVariable
  cases h : s.frames with
  | nil => simp [h]
  | cons frame rest =>
    have hf : s.untyped.frames = frame.untyped :: rest.map ReferenceFrame.untyped := by simp [h]
    have ht : frame.untyped.transform = frame.transform := rfl
    simp only [hf, ht]
    split
    · rw [untyped_record, untyped_record]
      congr 1
      simp [untyped]
    · simp
    · simp

theorem untyped_token (src : Source) (t : Token) :
    (s.token src t).untyped = (s.untyped.token src t).untyped := by
  unfold token
  cases t.kind
  case documentComment => exact (untyped_withDoc s.untyped _).symm ▸ (by simp)
  all_goals simp [untyped_classWord, untyped_boundVariable]

/-! ### Expressions -/

section

variable (src : Source) (uri : String) (pool pool' : SymbolPool) (p : Phrase)

/-- What finishing a phrase gives, without types. -/
def untypedResult (result : ReferenceState × Option Outcome) : ReferenceState × Option Outcome :=
  (result.1.untyped, result.2.map Outcome.untyped)

theorem untypedResult_recordTyped (r : Reference) (type : TypeText) (variableName : Option String) :
    untypedResult (s.recordTyped r type variableName) =
      (s.untyped.record r.untyped, some ⟨TypeText.empty, variableName, s.nextPlace?⟩) := by
  simp [untypedResult, recordTyped, Outcome.untyped]

theorem untypedResult_qualifiedName (kind : SymbolKind) :
    untypedResult (s.qualifiedName ⟨src, uri, pool⟩ p kind) =
      untypedResult (s.untyped.qualifiedName ⟨src, uri, pool'⟩ p kind) := by
  unfold qualifiedName
  simp only
  split
  · simp [untypedResult]
  · split
    · simp [untypedResult]
    · rw [untypedResult_recordTyped, untypedResult_recordTyped, untyped_untyped, nextPlace_untyped]
      rfl

theorem untypedResult_simpleVariable :
    untypedResult (s.simpleVariable src p) = untypedResult (s.untyped.simpleVariable src p) := by
  unfold simpleVariable
  split
  · simp [untypedResult]
  · rw [untypedResult_recordTyped, untypedResult_recordTyped, untyped_untyped, nextPlace_untyped]

theorem untypedResult_assignment (outcomes : List Outcome) :
    untypedResult (s.assignment outcomes) = untypedResult (s.untyped.assignment (outcomes.map Outcome.untyped)) := by
  unfold assignment
  cases outcomes with
  | nil => simp [untypedResult]
  | cons target rest =>
    have hv : target.untyped.variableName = target.variableName := rfl
    cases h : target.variableName with
    | none => simp [untypedResult, hv, h]
    | some name => simp [untypedResult, hv, h]

theorem untypedResult_accessMember (kind : SymbolKind) (outcomes outcomes' : List Outcome) :
    untypedResult (s.accessMember ⟨src, uri, pool⟩ p kind outcomes) =
      untypedResult (s.untyped.accessMember ⟨src, uri, pool'⟩ p kind outcomes') := by
  unfold accessMember
  simp only
  split
  · simp [untypedResult]
  · split
    · simp [untypedResult]
    · rw [untypedResult_recordTyped, untypedResult_recordTyped, untyped_untyped, nextPlace_untyped]
      simp only [apply_ite Reference.untyped, Reference.untyped_withScope, ite_self]

theorem untyped_bindLoopVariable (outcomes : List Outcome) : (s.bindLoopVariable outcomes).untyped = s.untyped := by
  unfold bindLoopVariable
  split
  · simp
  · rfl

theorem untyped_instanceTest (outcomes : List Outcome) : (s.instanceTest outcomes).untyped = s.untyped := by
  unfold instanceTest
  split
  · split <;> rfl
  · rfl

theorem untypedResult_finishPhrase (transform : Reduction) (outcomes : List Outcome) :
    untypedResult (s.finishPhrase ⟨src, uri, pool⟩ p transform outcomes) =
      untypedResult (s.untyped.finishPhrase ⟨src, uri, pool'⟩ p transform (outcomes.map Outcome.untyped)) := by
  unfold finishPhrase
  cases transform
  case name kind => exact untypedResult_qualifiedName s src uri pool pool' p kind
  case variableName => exact untypedResult_simpleVariable s src p
  case assignment => exact untypedResult_assignment s outcomes
  case member kind => exact untypedResult_accessMember s src uri pool pool' p kind _ _
  case call => cases outcomes <;> simp [untypedResult]
  all_goals simp [untypedResult, untyped_bindLoopVariable, untyped_instanceTest, Function.comp_def]

/-! ### The walk -/

theorem untyped_within {s s' : ReferenceState} (h : s.untyped = s'.untyped) (transform : Reduction) (exit : Unwinding) :
    (within p transform exit s).1.untyped = (within p transform exit s').1.untyped := by
  have hw : ∀ t, (within p transform exit t).1.untyped =
      { t.untyped with frames := ⟨p.kind, transform, exit, []⟩ :: t.untyped.frames } := fun _ => rfl
  rw [hw, hw, h]

/-- Entering a phrase does the same in a state without types. -/
theorem untyped_enter (path : List Phrase) :
    (s.enter ⟨src, uri, pool⟩ p path).1.untyped = (s.untyped.enter ⟨src, uri, pool'⟩ p path).1.untyped := by
  unfold enter
  -- the waiting comment is no type, so it is dropped on both sides before anything else happens
  have hd : (if p.kind.discardsDoc then { s.untyped with doc := none } else s.untyped) =
      (if p.kind.discardsDoc then { s with doc := none } else s).untyped := by
    split <;> rfl
  simp only [hd]
  generalize (if p.kind.discardsDoc then { s with doc := none } else s) = s
  have hs : s.untyped = s.untyped.untyped := (untyped_untyped s).symm
  obtain ⟨kind, children⟩ := p
  cases kind
  case error => exact hs
  case namespaceUseDeclaration => simp
  case namespaceDefinition => exact untyped_within _ (by simp) _ _
  case classDeclaration => exact untyped_within _ (by simp) _ _
  case interfaceDeclaration => exact untyped_within _ (by simp) _ _
  case traitDeclaration => exact untyped_within _ (by simp) _ _
  case anonymousClassDeclaration => exact untyped_within _ (by simp [unnamedClass]) _ _
  case methodDeclaration => exact untyped_within _ (untyped_methodDeclaration s src _) _ _
  case functionDeclaration => exact untyped_within _ (untyped_functionDeclaration s src _) _ _
  case anonymousFunctionCreationExpression => exact untyped_within _ (untyped_closureExpression s src _) _ _
  case arrowFunctionCreationExpression => exact untyped_within _ (untyped_closureExpression s src _) _ _
  case parameterDeclaration => exact untyped_within _ (untyped_parameterDeclaration s src _) _ _
  case propertyElement => exact untyped_within _ (untyped_declaredMember s src _) _ _
  case classConstElement => exact untyped_within _ (untyped_declaredMember s src _) _ _
  case constElement => exact untyped_within _ (untyped_declaredMember s src _) _ _
  case elseIfClause => exact untyped_within _ (untyped_nextConditionalArm s _) _ _
  case elseClause => exact untyped_within _ (untyped_nextConditionalArm s _) _ _
  case caseStatement => exact untyped_within _ (untyped_nextSwitchArm s _) _ _
  case defaultStatement => exact untyped_within _ (untyped_nextSwitchArm s _) _ _
  all_goals exact untyped_within _ hs _ _

@[simp] theorem untyped_unwind (exit : Unwinding) : (s.unwind exit).untyped = s.untyped.unwind exit := by
  cases exit with
  | nothing => rfl
  | leaveClass => exact untyped_popCursor _
  | leaveFunction =>
    -- the only scope of an untyped state is the outermost one, which is never left
    have hl : s.untyped.popCursor.locals.leaveScope = s.untyped.popCursor.locals := by
      unfold popCursor
      split <;> rfl
    unfold unwind
    simp only [hl]
    rw [untyped_closeScope, untyped_withLocals, untyped_popCursor]
  | leaveSpace => rfl

/-- How the walk goes on after a phrase, with what finishing it gave. -/
def resume (exit : Unwinding) (result : ReferenceState × Option Outcome) : ReferenceState :=
  let s := result.1.unwind exit
  let s :=
    match result.2 with
    | some o => s.pushOutcome o
    | none => s
  if p.kind == .expressionStatement then { s with doc := none } else s

theorem leave_eq_resume {s : ReferenceState} {frame : ReferenceFrame} {rest : List ReferenceFrame}
    (h : s.frames = frame :: rest) (env : ReferenceInput) : s.leave env p =
      resume p frame.exit ({ s with frames := rest }.finishPhrase env p frame.transform frame.outcomes) := by
  unfold leave
  rw [h]
  rfl

theorem untyped_resume (exit : Unwinding) (result : ReferenceState × Option Outcome) :
    (resume p exit result).untyped = resume p exit (untypedResult result) := by
  obtain ⟨s, outcome⟩ := result
  unfold resume untypedResult
  cases outcome with
  | none =>
    simp only [apply_ite untyped, untyped_withDoc, untyped_unwind]
    rfl
  | some o =>
    simp only [apply_ite untyped, untyped_withDoc, untyped_pushOutcome, untyped_unwind]
    rfl

theorem untyped_leave : (s.leave ⟨src, uri, pool⟩ p).untyped = (s.untyped.leave ⟨src, uri, pool'⟩ p).untyped := by
  cases h : s.frames with
  | nil => simp [leave, h]
  | cons frame rest =>
    have h' : s.untyped.frames = frame.untyped :: rest.map ReferenceFrame.untyped := by simp [h]
    rw [leave_eq_resume p h, leave_eq_resume p h', untyped_resume, untyped_resume,
      untypedResult_finishPhrase _ src uri pool pool']
    rfl

end

/-- Whichever pools two walks use, they stay the same types aside. -/
theorem visitor_related (src : Source) (uri : String) (pool pool' : SymbolPool) :
    (visitor ⟨src, uri, pool⟩).Related (visitor ⟨src, uri, pool'⟩) fun s s' => s.untyped = s'.untyped where
  enter s s' p path h := by
    refine ⟨?_, (enter_snd _ s' p path).trans (enter_snd _ s p path).symm⟩
    calc (s.enter ⟨src, uri, pool⟩ p path).1.untyped
      _ = (s.untyped.enter ⟨src, uri, pool'⟩ p path).1.untyped := untyped_enter s src uri pool pool' p path
      _ = (s'.untyped.enter ⟨src, uri, pool'⟩ p path).1.untyped := by rw [h]
      _ = (s'.enter ⟨src, uri, pool'⟩ p path).1.untyped := (untyped_enter s' src uri pool' pool' p path).symm
  leave s s' p _ h := by
    calc (s.leave ⟨src, uri, pool⟩ p).untyped
      _ = (s.untyped.leave ⟨src, uri, pool'⟩ p).untyped := untyped_leave s src uri pool pool' p
      _ = (s'.untyped.leave ⟨src, uri, pool'⟩ p).untyped := by rw [h]
      _ = (s'.leave ⟨src, uri, pool'⟩ p).untyped := (untyped_leave s' src uri pool' pool' p).symm
  token s s' t _ h := by
    calc (s.token src t).untyped
      _ = (s.untyped.token src t).untyped := untyped_token s src t
      _ = (s'.untyped.token src t).untyped := by rw [h]
      _ = (s'.token src t).untyped := (untyped_token s' src t).symm

theorem closeScopes_untyped (scope : ScopeTree) (scopes : List ScopeTree) :
    (closeScopes scope scopes).untyped = closeScopes scope.untyped (scopes.map ScopeTree.untyped) := by
  induction scopes generalizing scope with
  | nil => rfl
  | cons parent scopes ih =>
    obtain ⟨range, references, children⟩ := parent
    rw [closeScopes, ih, List.map_cons, closeScopes]
    simp

theorem root_untyped : s.untyped.root = s.root.untyped := by
  unfold root
  cases h : s.scopes with
  | nil => simp [h]
  | cons scope rest => simp [h, closeScopes_untyped]

end ReferenceState

/-- Whatever symbols a document is read with, its references are the same apart from their types and scopes: those of
each scope of its scope tree, and those of the sorted list. -/
theorem Occurrences.ofDocument_untyped (d : Document) (table : SymbolTable) (pool pool' : SymbolPool) :
    (ofDocument d table pool).untyped = (ofDocument d table pool').untyped := by
  have hs : (ReferenceState.ofDocument d table pool).untyped = (ReferenceState.ofDocument d table pool').untyped :=
    (ReferenceState.visitor_related _ _ pool pool').traverse d.tree rfl
  unfold ofDocument
  rw [untyped_ofScope, untyped_ofScope, ← ReferenceState.root_untyped, hs, ReferenceState.root_untyped]

end CodeAtlas
