import CodeAtlas.Proofs.PoolAnswers
import CodeAtlas.Proofs.ScopeGrowth

/-!
# What a step records

The steps of the reference walk, as far as recorded references and waiting outcomes are concerned.  Entering a phrase
records references in the innermost scope, and opens a scope if the phrase is a function (`enter_entry`); a token may
also hand an outcome to the phrase around it, but never one of a variable (`token_hands`).
-/

namespace CodeAtlas

/-! ### Frames -/

/-- The reduction without what it remembers of the arms seen so far. -/
def Reduction.armless : Reduction → Reduction
  | .conditional _ => .conditional false
  | .switch _ _ => .switch false false
  | transform => transform

def ReferenceFrame.armless (f : ReferenceFrame) : ReferenceFrame :=
  { f with transform := f.transform.armless }

/-- Whether leaving a phrase gives a type to the variable of its first outcome. -/
def Reduction.assigns : Reduction → Bool
  | .assignment | .foreachValue => true
  | _ => false

/-- The kinds of phrases that give a type to a variable in them. -/
def PhraseKind.assigns : PhraseKind → Bool
  | .simpleAssignmentExpression | .byRefAssignmentExpression | .foreachValue => true
  | _ => false

/-- The kinds of phrases whose outcome is the first one inside them. -/
def PhraseKind.handsOn : PhraseKind → Bool
  | .classTypeDesignator | .instanceofTypeDesignator | .scopeResolutionQualifier | .constantAccessExpression
  | .encapsulatedExpression | .cloneExpression | .foreachCollection => true
  | _ => false

/-- Functions hand on nothing. -/
theorem PhraseKind.not_callable_of_handsOn {kind : PhraseKind} (h : kind.handsOn = true) : kind.isCallable = false := by
  revert h
  cases kind <;> first | exact fun _ => rfl | exact nofun

theorem PhraseKind.not_callable_of_assigns {kind : PhraseKind} (h : kind.assigns = true) : kind.isCallable = false := by
  revert h
  cases kind <;> first | exact fun _ => rfl | exact nofun

/-- The frame is one of a phrase of this kind: only a variable makes the outcome of one, only some kinds hand one on or
assign to one, and it is functions that close a scope. -/
structure ReferenceFrame.Suits (f : ReferenceFrame) (kind : PhraseKind) : Prop where
  makes : f.transform = .variableName → kind = .simpleVariable
  handsOn : f.transform = .first → kind.handsOn = true
  assigns : f.transform.assigns = true → kind.assigns = true
  exit : (f.exit == .leaveFunction) = kind.isCallable

theorem ReferenceFrame.suits_armless {f : ReferenceFrame} {kind : PhraseKind} :
    f.armless.Suits kind ↔ f.Suits kind := by
  obtain ⟨_, transform, _, _⟩ := f
  cases transform
  case conditional | switch =>
    exact ⟨fun h => ⟨nofun, nofun, nofun, h.exit⟩, fun h => ⟨nofun, nofun, nofun, h.exit⟩⟩
  all_goals exact Iff.rfl

/-- The frames once the innermost phrase is handed an outcome, if there is one. -/
def ReferenceFrame.hand (o : Option Outcome) : List ReferenceFrame → List ReferenceFrame
  | [] => []
  | f :: rest => { f with outcomes := f.outcomes ++ o.toList } :: rest

theorem ReferenceFrame.hand_none (frames : List ReferenceFrame) : hand none frames = frames := by
  cases frames with
  | nil => rfl
  | cons f rest => simp [hand]

theorem ReferenceFrame.map_armless_hand (o : Option Outcome) (frames : List ReferenceFrame) :
    (hand o frames).map armless = hand o (frames.map armless) := by
  cases frames <;> rfl

/-! ### Scopes -/

/-- The innermost of some open scopes gets some more references, or nothing happens. -/
inductive Recorded : List ScopeTree → List ScopeTree → Prop
  | none (scopes : List ScopeTree) : Recorded scopes scopes
  | inner (scope : ScopeTree) (below : List ScopeTree) (more : List Reference) :
    Recorded (scope :: below) ({ scope with references := scope.references ++ more } :: below)

namespace Recorded

variable {scopes scopes' scopes'' : List ScopeTree}

theorem trans (h : Recorded scopes scopes') (h' : Recorded scopes' scopes'') : Recorded scopes scopes'' := by
  cases h with
  | none => exact h'
  | inner scope below more =>
    cases h' with
    | none => exact .inner scope below more
    | inner _ _ more' =>
      rw [List.append_assoc]
      exact .inner scope below (more ++ more')

/-- The innermost scope grows, whatever may become of the references in it. -/
theorem grows {R : Reference → Reference → Prop} (hR : ∀ r, R r r) {scope : ScopeTree} {below : List ScopeTree}
    (h : Recorded (scope :: below) scopes) : ∃ scope', scopes = scope' :: below ∧ scope.Grows R scope' := by
  cases h with
  | none => exact ⟨scope, rfl, ScopeTree.Grows.refl hR scope⟩
  | inner _ _ more => exact ⟨_, rfl, .of_references hR scope ((Prolongs.refl hR scope.references).append more)⟩

theorem stackGrows {R : Reference → Reference → Prop} (hR : ∀ r, R r r) {scope : ScopeTree} {below : List ScopeTree}
    (h : Recorded (scope :: below) scopes) : StackGrows R (scope :: below) scopes := by
  obtain ⟨scope', rfl, hg⟩ := h.grows hR
  exact .inner hg

end Recorded

namespace ReferenceState

/-! ### Recording -/

/-- `s'` is `s` with some more references in the innermost scope; neither outcomes nor types of references differ. -/
structure Appends (s s' : ReferenceState) : Prop where
  frames : s'.frames.map ReferenceFrame.armless = s.frames.map ReferenceFrame.armless
  scopes : Recorded s.scopes s'.scopes

variable {s s' s'' : ReferenceState} {src : Source}

namespace Appends

theorem of_eq (hf : s'.frames = s.frames) (hs : s'.scopes = s.scopes) : s.Appends s' :=
  ⟨by rw [hf], hs ▸ .none s.scopes⟩

theorem refl (s : ReferenceState) : s.Appends s :=
  of_eq rfl rfl

theorem trans (h : s.Appends s') (h' : s'.Appends s'') : s.Appends s'' :=
  ⟨h'.frames.trans h.frames, h.scopes.trans h'.scopes⟩

theorem record (s : ReferenceState) (r : Reference) : s.Appends (s.record r) := by
  refine ⟨by rw [frames_record], ?_⟩
  unfold ReferenceState.record
  split
  · exact .none s.scopes
  · rename_i scope below h
    rw [h]
    exact .inner scope below [r]

theorem advance (s : ReferenceState) (family : DeclarationFamily) : s.Appends (s.advance family) := by
  refine of_eq (s.frames_advance family) ?_
  unfold ReferenceState.advance
  split
  · rfl
  · split <;> rfl

theorem spaceDefinition (s : ReferenceState) (p : Phrase) : s.Appends (s.spaceDefinition src p) := by
  have hspace : s.Appends { s with resolver := s.resolver.setSpace (src.spaceName p) } := of_eq rfl rfl
  unfold ReferenceState.spaceDefinition
  dsimp only
  split
  · exact hspace
  · split
    · exact hspace
    · exact hspace.trans (record _ _)

theorem useClause (s : ReferenceState) (clause : Phrase) : s.Appends (s.useClause src clause) := by
  unfold ReferenceState.useClause
  split
  · exact refl s
  · split
    · exact refl s
    · rename_i symbol _
      have ha : s.Appends (s.advance .imported) := advance s .imported
      dsimp only
      split
      · exact ha
      · rename_i target _
        let rule := ImportedName.of symbol.kind symbol.name target.name
        have hrule : (s.advance .imported).Appends
            { s.advance .imported with resolver := (s.advance .imported).resolver.addImport rule } := of_eq rfl rfl
        exact (ha.trans hrule).trans (record _ _)

theorem importNames (s : ReferenceState) (p : Phrase) : s.Appends (s.importNames src p) := by
  unfold ReferenceState.importNames
  induction p.phrases.filter (·.kind == .namespaceUseClause) generalizing s with
  | nil => exact refl s
  | cons clause clauses ih => exact (useClause s clause).trans (ih _)

theorem openClassBody (s : ReferenceState) (symbol : Symbol) (name : Option Token) :
    s.Appends (s.openClassBody src symbol name) := by
  cases name with
  | none => exact of_eq rfl rfl
  | some token =>
    have hr : s.Appends (s.record (Reference.bare symbol.kind symbol.name (src.tokenRange token))) := record s _
    exact hr.trans (of_eq rfl rfl)

theorem classDeclaration (s : ReferenceState) (p : Phrase) : s.Appends (s.classDeclaration src p) :=
  (advance s .classLike).trans (openClassBody _ _ _)

theorem parameterDeclaration (s : ReferenceState) (p : Phrase) : s.Appends (s.parameterDeclaration src p) := by
  unfold ReferenceState.parameterDeclaration
  split
  · exact refl s
  · exact record s _

theorem declaredMember (s : ReferenceState) (p : Phrase) : s.Appends (s.declaredMember src p) := by
  unfold ReferenceState.declaredMember
  dsimp only
  split
  · exact refl s
  · exact record s _

theorem nextConditionalArm (s : ReferenceState) (kind : PhraseKind) : s.Appends (s.nextConditionalArm kind) := by
  unfold ReferenceState.nextConditionalArm
  split
  · rename_i frame rest hf
    split
    · rename_i hasElse ht
      refine ⟨?_, .none s.scopes⟩
      simp [hf, ReferenceFrame.armless, ht, Reduction.armless]
    · exact refl s
  · exact refl s

theorem nextSwitchArm (s : ReferenceState) (kind : PhraseKind) : s.Appends (s.nextSwitchArm kind) := by
  unfold ReferenceState.nextSwitchArm
  split
  · rename_i frame rest hf
    split
    · rename_i armOpen hasDefault ht
      refine ⟨?_, .none s.scopes⟩
      simp [hf, ReferenceFrame.armless, ht, Reduction.armless]
    · exact refl s
  · exact refl s

end Appends

/-! ### Tokens -/

@[simp] theorem frames_pushOutcome (s : ReferenceState) (o : Outcome) :
    (s.pushOutcome o).frames = ReferenceFrame.hand (some o) s.frames := by
  unfold pushOutcome
  cases h : s.frames with
  | nil => exact h
  | cons f rest => rfl

@[simp] theorem scopes_pushOutcome (s : ReferenceState) (o : Outcome) : (s.pushOutcome o).scopes = s.scopes := by
  unfold pushOutcome
  split <;> rfl

@[simp] theorem locals_pushOutcome (s : ReferenceState) (o : Outcome) : (s.pushOutcome o).locals = s.locals := by
  unfold pushOutcome
  split <;> rfl

theorem unnamed_none : ∀ o ∈ (none : Option Outcome), o.variableName = none :=
  fun o h => absurd h (Option.not_mem_none o)

/-- After some references are recorded, the innermost phrase is handed an outcome that is not one of a variable, or
none. -/
def Hands (s s' : ReferenceState) : Prop :=
  ∃ o : Option Outcome, (∀ outcome ∈ o, outcome.variableName = none) ∧
    s'.frames = ReferenceFrame.hand o s.frames ∧ Recorded s.scopes s'.scopes

private theorem hands_nothing (hf : s'.frames = s.frames) (hs : Recorded s.scopes s'.scopes) : s.Hands s' :=
  ⟨none, unnamed_none, hf.trans (ReferenceFrame.hand_none s.frames).symm, hs⟩

private theorem hands_typed (s : ReferenceState) (type : TypeText) : s.Hands (s.pushOutcome (.typed type)) :=
  ⟨some (.typed type), fun _ h => Option.some.inj h ▸ rfl, s.frames_pushOutcome _, s.scopes_pushOutcome _ ▸ .none _⟩

private theorem classWord_hands (src : Source) (s : ReferenceState) (t : Token) : s.Hands (s.classWord src t) := by
  unfold classWord
  extract_lets designates name
  split
  · exact hands_nothing rfl (.none _)
  · refine ⟨some ⟨TypeText.ofText name, none, s.nextPlace?⟩, fun _ h => Option.some.inj h ▸ rfl, ?_, ?_⟩
    · rw [frames_pushOutcome, frames_record]
    · rw [scopes_pushOutcome]
      exact (Appends.record s _).scopes

private theorem boundVariable_hands (src : Source) (s : ReferenceState) (t : Token) :
    s.Hands (s.boundVariable src t) := by
  unfold boundVariable
  split
  · exact hands_nothing rfl (.none _)
  · dsimp only
    split
    · have hset : ∀ type, s.Appends { s with locals := s.locals.setType (src.text t) type } :=
        fun _ => .of_eq rfl rfl
      exact hands_nothing (frames_record _ _) ((hset _).trans (.record _ _)).scopes
    · exact hands_nothing (frames_record _ _) (Appends.record _ _).scopes
    · exact hands_nothing rfl (.none _)

theorem token_hands (src : Source) (s : ReferenceState) (t : Token) : s.Hands (s.token src t) := by
  unfold token
  split
  · exact hands_nothing rfl (.none _)
  · exact hands_typed s _
  · exact hands_typed s _
  · exact hands_typed s _
  · exact classWord_hands src s t
  · exact classWord_hands src s t
  · exact classWord_hands src s t
  · exact boundVariable_hands src s t
  · exact hands_nothing rfl (.none _)

/-! ### Entering -/

/-- After some references are recorded, a scope is opened for the phrase. -/
def OpensScope (src : Source) (p : Phrase) (s s' : ReferenceState) : Prop :=
  ∃ s₁, s.Appends s₁ ∧ s'.frames = s₁.frames ∧ s'.scopes = ⟨src.range p, [], []⟩ :: s₁.scopes

private theorem methodDeclaration_opens (s : ReferenceState) (p : Phrase) :
    OpensScope src p s (s.methodDeclaration src p) := by
  unfold methodDeclaration
  extract_lets cls name symbol s₁ s₂
  have h₁ : s.Appends s₁ := .advance s _
  refine ⟨s₂, ?_, rfl, rfl⟩
  unfold s₂
  cases name with
  | none => exact h₁
  | some token => exact h₁.trans (.record _ _)

private theorem functionDeclaration_opens (s : ReferenceState) (p : Phrase) :
    OpensScope src p s (s.functionDeclaration src p) := by
  unfold functionDeclaration
  extract_lets name symbol s₁ s₂
  have h₁ : s.Appends s₁ := .advance s _
  refine ⟨s₂, ?_, rfl, rfl⟩
  unfold s₂
  cases name with
  | none => exact h₁
  | some token => exact h₁.trans (.record _ _)

private theorem closureExpression_opens (s : ReferenceState) (p : Phrase) :
    OpensScope src p s (s.closureExpression src p) :=
  ⟨_, .advance s .closure, rfl, rfl⟩

/-- What entering a phrase does to scopes and frames. -/
inductive Entry (src : Source) (s : ReferenceState) (p : Phrase) : ReferenceState × Bool → Prop
  | refused {s' : ReferenceState} (h : s.Appends s') : Entry src s p (s', false)
  | plain {s' : ReferenceState} {transform : Reduction} {exit : Unwinding} (h : s.Appends s')
    (hp : p.kind.isCallable = false) (suits : ReferenceFrame.Suits ⟨p.kind, transform, exit, []⟩ p.kind) :
    Entry src s p (within p transform exit s')
  | callable {s' : ReferenceState} {transform : Reduction} {exit : Unwinding} (h : OpensScope src p s s')
    (hp : p.kind.isCallable = true) (suits : ReferenceFrame.Suits ⟨p.kind, transform, exit, []⟩ p.kind) :
    Entry src s p (within p transform exit s')

theorem enter_entry (env : ReferenceInput) (s : ReferenceState) (p : Phrase) (path : List Phrase) :
    Entry env.source s p (s.enter env p path) := by
  unfold enter
  dsimp only
  have hq : s.Appends (if p.kind.discardsDoc then { s with doc := none } else s) := by
    split
    · exact .of_eq rfl rfl
    · exact .refl s
  generalize (if p.kind.discardsDoc then { s with doc := none } else s) = s' at hq
  have hopens : ∀ {s₁ : ReferenceState}, OpensScope env.source p s' s₁ → OpensScope env.source p s s₁ := by
    rintro s₁ ⟨s₂, ha, hf, hs⟩
    exact ⟨s₂, hq.trans ha, hf, hs⟩
  obtain ⟨kind, children⟩ := p
  cases kind
  case error => exact .refused hq
  case namespaceUseDeclaration => exact .refused (hq.trans (.importNames s' _))
  case namespaceDefinition =>
    refine .plain (hq.trans (.spaceDefinition s' _)) rfl ⟨nofun, nofun, nofun, ?_⟩
    dsimp only
    split <;> rfl
  case classDeclaration | interfaceDeclaration | traitDeclaration =>
    exact .plain (hq.trans (.classDeclaration s' _)) rfl ⟨nofun, nofun, nofun, rfl⟩
  case anonymousClassDeclaration =>
    have ha : s'.Appends (s'.advance .anonymousClass) := .advance s' _
    exact .plain (hq.trans (ha.trans (.openClassBody _ _ _))) rfl ⟨nofun, nofun, nofun, rfl⟩
  case methodDeclaration => exact .callable (hopens (methodDeclaration_opens s' _)) rfl ⟨nofun, nofun, nofun, rfl⟩
  case functionDeclaration => exact .callable (hopens (functionDeclaration_opens s' _)) rfl ⟨nofun, nofun, nofun, rfl⟩
  case anonymousFunctionCreationExpression | arrowFunctionCreationExpression =>
    exact .callable (hopens (closureExpression_opens s' _)) rfl ⟨nofun, nofun, nofun, rfl⟩
  case parameterDeclaration => exact .plain (hq.trans (.parameterDeclaration s' _)) rfl ⟨nofun, nofun, nofun, rfl⟩
  case propertyElement | classConstElement | constElement =>
    exact .plain (hq.trans (.declaredMember s' _)) rfl ⟨nofun, nofun, nofun, rfl⟩
  case simpleVariable => exact .plain hq rfl ⟨fun _ => rfl, nofun, nofun, rfl⟩
  case ifStatement => exact .plain (hq.trans (.of_eq rfl rfl)) rfl ⟨nofun, nofun, nofun, rfl⟩
  case elseIfClause | elseClause =>
    exact .plain (hq.trans (.nextConditionalArm s' _)) rfl ⟨nofun, nofun, nofun, rfl⟩
  case caseStatement | defaultStatement =>
    exact .plain (hq.trans (.nextSwitchArm s' _)) rfl ⟨nofun, nofun, nofun, rfl⟩
  case simpleAssignmentExpression | byRefAssignmentExpression | foreachValue =>
    exact .plain hq rfl ⟨nofun, nofun, fun _ => rfl, rfl⟩
  case classTypeDesignator | instanceofTypeDesignator | scopeResolutionQualifier | constantAccessExpression |
      encapsulatedExpression | cloneExpression | foreachCollection =>
    exact .plain hq rfl ⟨nofun, fun _ => rfl, nofun, rfl⟩
  all_goals exact .plain hq rfl ⟨nofun, nofun, nofun, rfl⟩

section

variable {p : Phrase} {entry : ReferenceState × Bool} {scope : ScopeTree} {below : List ScopeTree}

theorem Entry.stackGrows {R : Reference → Reference → Prop} (hR : ∀ r, R r r) (h : Entry src s p entry)
    (hs : s.scopes = scope :: below) : StackGrows R (scope :: below) entry.1.scopes := by
  cases h with
  | refused h => exact (hs ▸ h.scopes).stackGrows hR
  | plain h => exact (hs ▸ h.scopes).stackGrows hR
  | @callable s' _ _ h =>
    obtain ⟨s₁, h, -, hs'⟩ := h
    obtain ⟨scope', hs₁, hg⟩ := (hs ▸ h.scopes : Recorded (scope :: below) s₁.scopes).grows hR
    change StackGrows R (scope :: below) s'.scopes
    rw [hs', hs₁]
    exact .opened _ hg

/-- A function that is entered has a scope of its own. -/
theorem Entry.own_scope (h : Entry src s p entry) (hentered : entry.2 = true) (hp : p.kind.isCallable = true) :
    ∃ below, entry.1.scopes = ⟨src.range p, [], []⟩ :: below := by
  cases h with
  | refused => cases hentered
  | plain _ hp' => exact nomatch hp.symm.trans hp'
  | callable h =>
    obtain ⟨s₁, -, -, hs⟩ := h
    exact ⟨s₁.scopes, hs⟩

theorem Entry.appends (h : Entry src s p entry) (hrefused : entry.2 = false) : s.Appends entry.1 := by
  cases h with
  | refused h => exact h
  | plain => cases hrefused
  | callable => cases hrefused

end

end ReferenceState

end CodeAtlas
