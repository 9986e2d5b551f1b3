import CodeAtlas.Proofs.PoolAnswers
import CodeAtlas.Proofs.SymbolShape
import CodeAtlas.Proofs.TokenOrder

/-!
# Steps of the reference walk on its scopes

A use of a variable is a reference to a variable or a parameter, without its type.  What a step of the reference walk
does to the scopes is to record some uses in the innermost one, or to open or close one (`ReferenceState.Adds`).  Which
uses a phrase records is a matter of its kind: `enter_adds`, `leave_adds` and `token_adds` say which.

References that are not about variables come from names, from members and from symbols.  That the symbols of imports are
no variables is where the shape of the symbol tree comes in.
-/

namespace CodeAtlas

/-! ### Uses of variables -/

/-- One occurrence of a variable or a parameter. -/
structure LocalUse where
  kind : SymbolKind
  name : String
  range : Range
  deriving DecidableEq, Repr

/-- The use that a reference stands for, if it is about a variable. -/
def Reference.localUse? (r : Reference) : Option LocalUse :=
  if r.kind.isLocal then some ⟨r.kind, r.name, r.range⟩ else none

/-- The uses of variables in a scope, without those in the scopes inside. -/
def ScopeTree.uses (s : ScopeTree) : List LocalUse :=
  s.references.filterMap Reference.localUse?

namespace Source

/-- The use of a variable that is written as the token. -/
def use (src : Source) (kind : SymbolKind) (t : Token) : LocalUse :=
  ⟨kind, src.text t, src.tokenRange t⟩

end Source

/-- The scope is that of the phrase, or of the file: its range is that of the phrase, its uses of variables are those
that the phrase holds, each as often, and the scopes in it are those of the phrases inside, in order. -/
inductive ScopeTree.Records (src : Source) : ScopeTree → PhraseTree LocalUse → Prop
  | mk {scope : ScopeTree} {τ : PhraseTree LocalUse} (range : scope.range = src.rangeOf τ.phrase)
    (uses : scope.uses.Perm τ.held) (children : List.Forall₂ (ScopeTree.Records src) scope.children τ.inner) :
    ScopeTree.Records src scope τ

/-! ### What frames are about -/

/-- What a phrase has to do with variables: it is one, or the variable tokens directly in it are. -/
inductive VariableRole where
  | variable | binder | other
  deriving DecidableEq

def Reduction.role : Reduction → VariableRole
  | .variableName => .variable
  | .catching | .closureUse => .binder
  | _ => .other

def PhraseKind.role : PhraseKind → VariableRole
  | .simpleVariable => .variable
  | .catchClause | .anonymousFunctionUseClause => .binder
  | _ => .other

/-- Whether the name that the reduction reads, if it reads one, is not that of a variable. -/
def Reduction.namesOther : Reduction → Bool
  | .name kind | .member kind => !kind.isLocal
  | _ => true

/-- The part of a frame that decides which uses its phrase records, and whether it closes a scope. -/
def ReferenceFrame.signature (f : ReferenceFrame) : VariableRole × Bool × Unwinding :=
  (f.transform.role, f.transform.namesOther, f.exit)

/-- The frame is one of a phrase of this kind. -/
structure ReferenceFrame.Fits (k : PhraseKind) (f : VariableRole × Bool × Unwinding) : Prop where
  role : f.1 = k.role
  namesOther : f.2.1 = true
  exit : (f.2.2 == .leaveFunction) = k.isCallable

namespace ReferenceState

/-! ### What a step adds -/

/-- All symbols under the cursors are well-formed. -/
def CursorsSound (s : ReferenceState) : Prop :=
  ∀ c ∈ s.cursors, c.symbol.AllWellFormed

/-- The innermost scope gets the uses, and the scopes of the functions as children; all else about the scopes stays. -/
structure Adds (src : Source) (us : List LocalUse) (fs : List (PhraseTree LocalUse)) (s s' : ReferenceState) :
    Prop where
  frames : s'.frames.map ReferenceFrame.signature = s.frames.map ReferenceFrame.signature
  cursors : s.CursorsSound → s'.CursorsSound
  scopes : ∀ scope rest, s.scopes = scope :: rest → ∃ scope' added, s'.scopes = scope' :: rest ∧
    scope'.range = scope.range ∧ scope'.uses.Perm (scope.uses ++ us) ∧ scope'.children = scope.children ++ added ∧
    List.Forall₂ (ScopeTree.Records src) added fs

variable {src : Source} {s s' s'' : ReferenceState} {us us' : List LocalUse} {fs fs' : List (PhraseTree LocalUse)}

namespace Adds

/-- Nothing that matters here has changed. -/
theorem of_eq (hf : s'.frames.map ReferenceFrame.signature = s.frames.map ReferenceFrame.signature)
    (hc : s.CursorsSound → s'.CursorsSound) (hs : s'.scopes = s.scopes) : Adds src [] [] s s' := by
  refine ⟨hf, hc, fun scope rest h => ⟨scope, [], hs.trans h, rfl, ?_, ?_, .nil⟩⟩
  · rw [List.append_nil]
  · rw [List.append_nil]

theorem refl (s : ReferenceState) : Adds src [] [] s s :=
  of_eq rfl id rfl

theorem withLocals (s : ReferenceState) (locals : FlowTypes) : Adds src [] [] s { s with locals := locals } :=
  of_eq rfl id rfl

theorem trans (h : Adds src us fs s s') (h' : Adds src us' fs' s' s'') : Adds src (us ++ us') (fs ++ fs') s s'' := by
  refine ⟨h'.frames.trans h.frames, h'.cursors ∘ h.cursors, fun scope rest hs => ?_⟩
  obtain ⟨scope', added, hs', hr, hu, hch, hadd⟩ := h.scopes scope rest hs
  obtain ⟨scope'', added', hs'', hr', hu', hch', hadd'⟩ := h'.scopes scope' rest hs'
  refine ⟨scope'', added ++ added', hs'', hr'.trans hr, ?_, ?_, List.rel_append hadd hadd'⟩
  · rw [← List.append_assoc]
    exact hu'.trans (hu.append_right us')
  · rw [hch', hch, List.append_assoc]

/-- A step that adds nothing, after one that does. -/
theorem andThen (h : Adds src us fs s s') (h' : Adds src [] [] s' s'') : Adds src us fs s s'' := by
  have h := h.trans h'
  rwa [List.append_nil, List.append_nil] at h

theorem record (s : ReferenceState) (r : Reference) : Adds src r.localUse?.toList [] s (s.record r) := by
  have hq := Quiet.record s r
  refine ⟨by rw [frames_record], fun hc => ?_, fun scope rest hs => ?_⟩
  · unfold CursorsSound
    rwa [hq.cursors]
  · unfold ReferenceState.record
    rw [hs]
    refine ⟨_, [], rfl, rfl, ?_, (List.append_nil _).symm, .nil⟩
    unfold ScopeTree.uses
    rw [List.filterMap_append]
    cases h : r.localUse? <;> simp [h]

theorem record_use (s : ReferenceState) {r : Reference} {u : LocalUse} (h : r.localUse? = some u) :
    Adds src [u] [] s (s.record r) := by
  have ha : Adds src r.localUse?.toList [] s (s.record r) := record s r
  rwa [h] at ha

/-- A reference to anything but a variable. -/
theorem record_other (s : ReferenceState) {r : Reference} (h : r.kind.isLocal = false) :
    Adds src [] [] s (s.record r) := by
  have hr : r.localUse? = none := by
    unfold Reference.localUse?
    rw [h]
    rfl
  have ha : Adds src r.localUse?.toList [] s (s.record r) := record s r
  rwa [hr] at ha

theorem changeType (s : ReferenceState) (place : Option Nat) (type : TypeText) :
    Adds src [] [] s (s.changeType place type) := by
  have hq := Quiet.changeType s place type
  have hmodify : ∀ (n : Nat) (l : List Reference),
      (l.modify n (·.withType type)).filterMap Reference.localUse? = l.filterMap Reference.localUse? := by
    intro n l
    induction l generalizing n with
    | nil => cases n <;> rfl
    | cons r l ih =>
      cases n with
      | zero =>
        rw [List.modify_zero_cons, List.filterMap_cons, List.filterMap_cons]
        rfl
      | succ n => rw [List.modify_succ_cons, List.filterMap_cons, List.filterMap_cons, ih]
  refine ⟨?_, fun hc => ?_, fun scope rest hs => ?_⟩
  · unfold ReferenceState.changeType
    split <;> rfl
  · unfold CursorsSound
    rwa [hq.cursors]
  · unfold ReferenceState.changeType
    cases place with
    | none => exact ⟨scope, [], hs, rfl, by rw [List.append_nil], (List.append_nil _).symm, .nil⟩
    | some n =>
      rw [hs]
      refine ⟨_, [], rfl, rfl, ?_, (List.append_nil _).symm, .nil⟩
      unfold ScopeTree.uses
      rw [hmodify, List.append_nil]

theorem pushOutcome (s : ReferenceState) (o : Outcome) : Adds src [] [] s (s.pushOutcome o) := by
  unfold ReferenceState.pushOutcome
  split
  · exact refl s
  · rename_i frame rest h
    refine of_eq ?_ id rfl
    rw [h]
    rfl

theorem advance (s : ReferenceState) (family : DeclarationFamily) : Adds src [] [] s (s.advance family) := by
  unfold ReferenceState.advance
  split
  · exact refl s
  · rename_i c rest h
    split
    · refine of_eq rfl (fun hc => ?_) rfl
      unfold CursorsSound at hc
      rw [h] at hc
      exact List.forall_mem_cons.2 ⟨(List.forall_mem_cons.1 hc).1, (List.forall_mem_cons.1 hc).2⟩
    · exact refl s

theorem pushCursor (s : ReferenceState) {symbol : Symbol} (h : symbol.AllWellFormed) :
    Adds src [] [] s (s.pushCursor symbol) :=
  of_eq rfl (fun hc => List.forall_mem_cons.2 ⟨h, hc⟩) rfl

theorem popCursor (s : ReferenceState) : Adds src [] [] s s.popCursor := by
  unfold ReferenceState.popCursor
  split
  · rename_i c c' rest h
    refine of_eq rfl (fun hc => ?_) rfl
    unfold CursorsSound at hc
    rw [h] at hc
    exact (List.forall_mem_cons.1 hc).2
  · exact refl s

theorem nextConditionalArm (s : ReferenceState) (kind : PhraseKind) : Adds src [] [] s (s.nextConditionalArm kind) := by
  unfold ReferenceState.nextConditionalArm
  split
  · rename_i frame rest h
    split
    · rename_i hasElse ht
      refine of_eq ?_ id rfl
      rw [h, List.map_cons, List.map_cons]
      unfold ReferenceFrame.signature
      rw [ht]
      rfl
    · exact refl s
  · exact refl s

theorem nextSwitchArm (s : ReferenceState) (kind : PhraseKind) : Adds src [] [] s (s.nextSwitchArm kind) := by
  unfold ReferenceState.nextSwitchArm
  split
  · rename_i frame rest h
    split
    · rename_i armOpen hasDefault ht
      refine of_eq ?_ id rfl
      rw [h, List.map_cons, List.map_cons]
      unfold ReferenceFrame.signature
      rw [ht]
      rfl
    · exact refl s
  · exact refl s

end Adds

/-! ### Symbols under the cursors -/

/-- The next symbol of a family, or a fallback, is well-formed. -/
private theorem next_wellFormed (hc : s.CursorsSound) (family : DeclarationFamily) {fallback : Symbol}
    (hf : fallback.AllWellFormed) : ((s.nextSymbol? family).getD fallback).AllWellFormed := by
  cases h : s.nextSymbol? family with
  | none => exact hf
  | some x =>
    obtain ⟨c, hcur, hnext⟩ := Option.bind_eq_some_iff.1 h
    have hx : x ∈ c.symbol.children := (List.mem_filter.1 (List.mem_of_getElem? hnext)).1
    exact (Symbol.allWellFormed_iff.1 (hc c (List.mem_of_mem_head? hcur))).2 x hx

private theorem next_includes {family : DeclarationFamily} {x : Symbol} (h : s.nextSymbol? family = some x) :
    family.includes x = true := by
  obtain ⟨c, -, hnext⟩ := Option.bind_eq_some_iff.1 h
  exact (List.mem_filter.1 (List.mem_of_getElem? hnext)).2

private theorem bare_wellFormed (kind : SymbolKind) (name : String) : (Symbol.bare kind name).AllWellFormed :=
  Symbol.IsPlain.wellFormed (⟨rfl, Source.empty_ordinary, rfl⟩ : Symbol.IsPlain kind _)

/-! ### Tokens -/

/-- Whether variable tokens directly in the innermost open phrase are uses. -/
def binds (s : ReferenceState) : Bool :=
  (s.frames.head?.map (·.transform.role)) == some .binder

theorem binds_of_frames {signature : VariableRole × Bool × Unwinding}
    {signatures : List (VariableRole × Bool × Unwinding)}
    (h : s.frames.map ReferenceFrame.signature = signature :: signatures) : s.binds = (signature.1 == .binder) := by
  unfold binds
  cases hs : s.frames with
  | nil =>
    rw [hs] at h
    cases h
  | cons frame rest =>
    rw [hs] at h
    rw [← (List.cons.inj h).1]
    rfl

theorem Adds.binds (h : Adds src us fs s s') : s'.binds = s.binds := by
  have hh := congrArg (Option.map Prod.fst ∘ List.head?) h.frames
  unfold ReferenceState.binds
  simp only [Function.comp, List.head?_map, Option.map_map] at hh
  exact congrArg (· == some VariableRole.binder) hh

/-- The uses that a token is by itself. -/
def tokenUses (src : Source) (binds : Bool) (t : Token) : List LocalUse :=
  if binds && t.kind == .variableName then [src.use .var t] else []

private theorem classWord_adds (src : Source) (s : ReferenceState) (t : Token) :
    Adds src [] [] s (s.classWord src t) := by
  unfold classWord
  extract_lets designates name
  split
  · exact .refl s
  · exact (Adds.record_other s rfl).andThen (.pushOutcome _ _)

private theorem boundVariable_adds (src : Source) (s : ReferenceState) (t : Token) :
    Adds src (if s.binds then [src.use .var t] else []) [] s (s.boundVariable src t) := by
  obtain ⟨resolver, locals, frames, cursors, scopes, doc⟩ := s
  cases frames with
  | nil => exact .refl _
  | cons frame rest =>
    obtain ⟨kind, transform, exit, outcomes⟩ := frame
    cases transform with
    | catching =>
      show Adds src ([] ++ [src.use .var t]) ([] ++ []) _ (ReferenceState.record _ _)
      exact (Adds.withLocals _ _).trans (.record_use _ rfl)
    | closureUse => exact Adds.record_use _ rfl
    | _ => exact .refl _

theorem token_adds (src : Source) (s : ReferenceState) (t : Token) :
    Adds src (tokenUses src s.binds t) [] s (s.token src t) := by
  unfold tokenUses
  cases hk : t.kind == .variableName with
  | true =>
    have htoken : s.token src t = s.boundVariable src t := by
      unfold token
      rw [eq_of_beq hk]
    rw [htoken, Bool.and_true]
    exact boundVariable_adds src s t
  | false =>
    rw [Bool.and_false, if_neg Bool.false_ne_true]
    unfold token
    split
    · exact .of_eq rfl id rfl
    · exact .pushOutcome s _
    · exact .pushOutcome s _
    · exact .pushOutcome s _
    · exact classWord_adds src s t
    · exact classWord_adds src s t
    · exact classWord_adds src s t
    · rename_i h
      rw [h] at hk
      cases hk
    · exact .refl s

/-! ### Entering -/

/-- The uses that a phrase records when it is entered. -/
def enteredUses (src : Source) (p : Phrase) : List LocalUse :=
  match p.kind with
  | .parameterDeclaration => ((p.token? .variableName).map (src.use .parameter)).toList
  | _ => []

private theorem spaceDefinition_adds (s : ReferenceState) (p : Phrase) :
    Adds src [] [] s (s.spaceDefinition src p) := by
  have hs : Adds src [] [] s { s with resolver := s.resolver.setSpace (src.spaceName p) } := .of_eq rfl id rfl
  unfold spaceDefinition
  dsimp only
  split
  · exact hs
  · split
    · exact hs
    · exact hs.andThen (.record_other _ rfl)

private theorem useClause_adds (hc : s.CursorsSound) (clause : Phrase) : Adds src [] [] s (s.useClause src clause) := by
  unfold useClause
  split
  · exact .refl s
  · split
    · exact .refl s
    · rename_i symbol hnext
      have hsound := next_wellFormed hc .imported (bare_wellFormed .cls "")
      rw [hnext] at hsound
      have hlocal : symbol.kind.isLocal = false := (Symbol.allWellFormed_iff.1 hsound).1.imported (next_includes hnext)
      have ha : Adds src [] [] s (s.advance .imported) := .advance s .imported
      dsimp only
      split
      · exact ha
      · rename_i target _
        let rule := ImportedName.of symbol.kind symbol.name target.name
        have hr : Adds src [] [] (s.advance .imported)
            { s.advance .imported with resolver := (s.advance .imported).resolver.addImport rule } := .of_eq rfl id rfl
        exact (ha.andThen hr).andThen (.record_other _ hlocal)

private theorem importNames_adds (hc : s.CursorsSound) (p : Phrase) : Adds src [] [] s (s.importNames src p) := by
  unfold importNames
  induction p.phrases.filter (·.kind == .namespaceUseClause) generalizing s with
  | nil => exact .refl s
  | cons clause clauses ih =>
    have h : Adds src [] [] s (s.useClause src clause) := useClause_adds hc clause
    exact h.andThen (ih (h.cursors hc))

private theorem openClassBody_adds (s : ReferenceState) {symbol : Symbol} (hw : symbol.AllWellFormed)
    {name : Option Token} (hk : name.isSome = true → symbol.kind.isLocal = false) :
    Adds src [] [] s (s.openClassBody src symbol name) := by
  have hopen : ∀ s : ReferenceState, Adds src [] [] s
      ({ s with resolver := s.resolver.intoClass symbol.name symbol.baseName }.pushCursor symbol) := by
    intro s
    have hr : Adds src [] [] s { s with resolver := s.resolver.intoClass symbol.name symbol.baseName } :=
      .of_eq rfl id rfl
    exact hr.andThen (.pushCursor _ hw)
  cases name with
  | none => exact hopen s
  | some token =>
    have hr : Adds src [] [] s (s.record (Reference.bare symbol.kind symbol.name (src.tokenRange token))) :=
      .record_other s (hk rfl)
    exact hr.andThen (hopen _)

private theorem classDeclaration_adds (hc : s.CursorsSound) (p : Phrase) :
    Adds src [] [] s (s.classDeclaration src p) := by
  have hkind : (Source.classKinds p.kind).1.isClassLike = true := by
    unfold Source.classKinds
    split <;> rfl
  have hlocal : ∀ kind : SymbolKind, kind.isClassLike = true → kind.isLocal = false := by
    intro kind hk
    cases kind <;> first | rfl | cases hk
  unfold classDeclaration
  generalize Source.classKinds p.kind = kinds at hkind ⊢
  obtain ⟨kind, headerKind⟩ := kinds
  dsimp -zeta only at hkind ⊢
  extract_lets name symbol
  have ha : Adds src [] [] s (s.advance .classLike) := .advance s _
  refine ha.andThen (openClassBody_adds _ (next_wellFormed hc _ (bare_wellFormed _ _)) fun _ => ?_)
  cases hnext : s.nextSymbol? .classLike with
  | none => exact hlocal _ hkind
  | some x =>
    have hi := next_includes hnext
    simp only [DeclarationFamily.includes, Bool.and_eq_true] at hi
    exact hlocal _ hi.1.1

/-- What is there once a function is open: a new scope on top of the others. -/
structure Opened (src : Source) (p : Phrase) (s s' : ReferenceState) : Prop where
  frames : s'.frames = s.frames
  cursors : s'.cursors = s.cursors
  scopes : s'.scopes = if p.kind.isCallable then ⟨src.range p, [], []⟩ :: s.scopes else s.scopes

private theorem openFunctionBody_opened (s : ReferenceState) {p : Phrase} (hp : p.kind.isCallable = true)
    (symbol : Symbol) (carried : List String) :
    Opened src p (s.pushCursor symbol) (s.openFunctionBody src p symbol carried) := by
  refine ⟨rfl, rfl, ?_⟩
  rw [hp]
  rfl

private theorem methodDeclaration_opened (src : Source) (hc : s.CursorsSound) (p : Phrase)
    (hp : p.kind.isCallable = true) : ∃ s', Adds src [] [] s s' ∧ Opened src p s' (s.methodDeclaration src p) := by
  unfold methodDeclaration
  extract_lets cls name symbol s₁ s₂
  have hsymbol : symbol.AllWellFormed := next_wellFormed hc _ (Symbol.IsPlain.wellFormed
    (⟨rfl, Source.empty_ordinary, rfl⟩ : Symbol.IsPlain .method _))
  have h₁ : Adds src [] [] s s₁ := .advance s _
  have h₂ : Adds src [] [] s s₂ := by
    unfold s₂
    cases name with
    | none => exact h₁
    | some token => exact h₁.andThen (.record_other _ rfl)
  exact ⟨_, h₂.andThen (.pushCursor _ hsymbol), openFunctionBody_opened _ hp _ _⟩

private theorem functionDeclaration_opened (src : Source) (hc : s.CursorsSound) (p : Phrase)
    (hp : p.kind.isCallable = true) : ∃ s', Adds src [] [] s s' ∧ Opened src p s' (s.functionDeclaration src p) := by
  unfold functionDeclaration
  extract_lets name symbol s₁ s₂
  have hsymbol : symbol.AllWellFormed := next_wellFormed hc _ (bare_wellFormed .function _)
  have h₁ : Adds src [] [] s s₁ := .advance s _
  have h₂ : Adds src [] [] s s₂ := by
    unfold s₂
    cases name with
    | none => exact h₁
    | some token => exact h₁.andThen (.record_other _ rfl)
  exact ⟨_, h₂.andThen (.pushCursor _ hsymbol), openFunctionBody_opened _ hp _ _⟩

private theorem closureExpression_opened (src : Source) (hc : s.CursorsSound) (p : Phrase)
    (hp : p.kind.isCallable = true) : ∃ s', Adds src [] [] s s' ∧ Opened src p s' (s.closureExpression src p) := by
  unfold closureExpression
  extract_lets symbol s₁
  have hsymbol : symbol.AllWellFormed := next_wellFormed hc _ (bare_wellFormed .function _)
  have h₁ : Adds src [] [] s s₁ := .advance s _
  exact ⟨_, h₁.andThen (.pushCursor _ hsymbol), openFunctionBody_opened _ hp _ _⟩

private theorem parameterDeclaration_adds (s : ReferenceState) (p : Phrase) :
    Adds src ((p.token? .variableName).map (src.use .parameter)).toList [] s (s.parameterDeclaration src p) := by
  unfold parameterDeclaration
  cases p.token? .variableName with
  | none => exact .refl s
  | some token => exact .record_use s rfl

private theorem declaredMember_adds (s : ReferenceState) (p : Phrase) : Adds src [] [] s (s.declaredMember src p) := by
  unfold declaredMember
  split
  rename_i kind tokenKind hkinds
  have hkind : kind.isLocal = false := by
    split at hkinds <;> cases hkinds <;> rfl
  split
  · exact .refl s
  · refine .record_other s ?_
    split
    · exact hkind
    · exact hkind

/-- Entering a phrase that is not looked into. -/
theorem refused_adds (env : ReferenceInput) (hc : s.CursorsSound) (p : Phrase) (path : List Phrase)
    (hp : p.kind = .error ∨ p.kind = .namespaceUseDeclaration) :
    Adds env.source [] [] s (s.enter env p path).1 := by
  obtain ⟨kind, children⟩ := p
  rcases hp with rfl | rfl
  · exact .refl s
  · exact importNames_adds hc _

/-- Entering a phrase records the uses that belong there, opens a scope if the phrase is a function, and adds a frame
that fits the phrase. -/
def Enters (src : Source) (s : ReferenceState) (p : Phrase) (result : ReferenceState × Bool) : Prop :=
  ∃ transform exit s₁ s', result = within p transform exit s' ∧
    ReferenceFrame.Fits p.kind (transform.role, transform.namesOther, exit) ∧
    Adds src (enteredUses src p) [] s s₁ ∧ Opened src p s₁ s'

private theorem enters_plain {p : Phrase} {transform : Reduction} {exit : Unwinding} (h : Adds src [] [] s s')
    (hu : enteredUses src p = []) (hp : p.kind.isCallable = false)
    (hf : ReferenceFrame.Fits p.kind (transform.role, transform.namesOther, exit)) :
    Enters src s p (within p transform exit s') := by
  refine ⟨transform, exit, s', s', rfl, hf, hu ▸ h, rfl, rfl, ?_⟩
  rw [hp]
  rfl

private theorem nameKind_isLocal (parent : Option PhraseKind) : (nameKind parent).isLocal = false := by
  unfold nameKind
  split <;> rfl

theorem enter_adds (env : ReferenceInput) (hc : s.CursorsSound) (p : Phrase) (path : List Phrase)
    (hp : (p.kind != .error && p.kind != .namespaceUseDeclaration) = true) :
    Enters env.source s p (s.enter env p path) := by
  unfold enter
  dsimp only
  have hq : Adds env.source [] [] s (if p.kind.discardsDoc then { s with doc := none } else s) := by
    split
    · exact .of_eq rfl id rfl
    · exact .refl s
  generalize (if p.kind.discardsDoc then { s with doc := none } else s) = s' at hq
  have hc' := hq.cursors hc
  obtain ⟨kind, children⟩ := p
  cases kind
  case error => cases hp
  case namespaceUseDeclaration => cases hp
  case namespaceDefinition =>
    refine enters_plain (hq.andThen (spaceDefinition_adds s' _)) rfl rfl ⟨rfl, rfl, ?_⟩
    dsimp only
    split <;> rfl
  case classDeclaration => exact enters_plain (hq.andThen (classDeclaration_adds hc' _)) rfl rfl ⟨rfl, rfl, rfl⟩
  case interfaceDeclaration => exact enters_plain (hq.andThen (classDeclaration_adds hc' _)) rfl rfl ⟨rfl, rfl, rfl⟩
  case traitDeclaration => exact enters_plain (hq.andThen (classDeclaration_adds hc' _)) rfl rfl ⟨rfl, rfl, rfl⟩
  case anonymousClassDeclaration =>
    have hw : (s'.unnamedClass env ⟨.anonymousClassDeclaration, children⟩).AllWellFormed :=
      next_wellFormed hc' .anonymousClass (bare_wellFormed .cls _)
    have ha : Adds env.source [] [] s' (s'.advance .anonymousClass) := .advance s' _
    exact enters_plain (hq.andThen (ha.andThen (openClassBody_adds _ hw nofun))) rfl rfl ⟨rfl, rfl, rfl⟩
  case methodDeclaration =>
    obtain ⟨s₁, h, ho⟩ := methodDeclaration_opened env.source hc' ⟨.methodDeclaration, children⟩ rfl
    exact ⟨_, _, s₁, _, rfl, ⟨rfl, rfl, rfl⟩, hq.andThen h, ho⟩
  case functionDeclaration =>
    obtain ⟨s₁, h, ho⟩ := functionDeclaration_opened env.source hc' ⟨.functionDeclaration, children⟩ rfl
    exact ⟨_, _, s₁, _, rfl, ⟨rfl, rfl, rfl⟩, hq.andThen h, ho⟩
  case anonymousFunctionCreationExpression =>
    obtain ⟨s₁, h, ho⟩ := closureExpression_opened env.source hc' ⟨.anonymousFunctionCreationExpression, children⟩
      rfl
    exact ⟨_, _, s₁, _, rfl, ⟨rfl, rfl, rfl⟩, hq.andThen h, ho⟩
  case arrowFunctionCreationExpression =>
    obtain ⟨s₁, h, ho⟩ := closureExpression_opened env.source hc' ⟨.arrowFunctionCreationExpression, children⟩ rfl
    exact ⟨_, _, s₁, _, rfl, ⟨rfl, rfl, rfl⟩, hq.andThen h, ho⟩
  case parameterDeclaration =>
    have h := hq.trans (parameterDeclaration_adds s' ⟨.parameterDeclaration, children⟩)
    exact ⟨_, _, _, _, rfl, ⟨rfl, rfl, rfl⟩, h, rfl, rfl, rfl⟩
  case propertyElement => exact enters_plain (hq.andThen (declaredMember_adds s' _)) rfl rfl ⟨rfl, rfl, rfl⟩
  case classConstElement => exact enters_plain (hq.andThen (declaredMember_adds s' _)) rfl rfl ⟨rfl, rfl, rfl⟩
  case constElement => exact enters_plain (hq.andThen (declaredMember_adds s' _)) rfl rfl ⟨rfl, rfl, rfl⟩
  case qualifiedName => exact enters_plain hq rfl rfl ⟨rfl, by rw [Reduction.namesOther, nameKind_isLocal]; rfl, rfl⟩
  case fullyQualifiedName =>
    exact enters_plain hq rfl rfl ⟨rfl, by rw [Reduction.namesOther, nameKind_isLocal]; rfl, rfl⟩
  case relativeQualifiedName =>
    exact enters_plain hq rfl rfl ⟨rfl, by rw [Reduction.namesOther, nameKind_isLocal]; rfl, rfl⟩
  case ifStatement => exact enters_plain (hq.andThen (.withLocals s' _)) rfl rfl ⟨rfl, rfl, rfl⟩
  case elseIfClause => exact enters_plain (hq.andThen (.nextConditionalArm s' _)) rfl rfl ⟨rfl, rfl, rfl⟩
  case elseClause => exact enters_plain (hq.andThen (.nextConditionalArm s' _)) rfl rfl ⟨rfl, rfl, rfl⟩
  case caseStatement => exact enters_plain (hq.andThen (.nextSwitchArm s' _)) rfl rfl ⟨rfl, rfl, rfl⟩
  case defaultStatement => exact enters_plain (hq.andThen (.nextSwitchArm s' _)) rfl rfl ⟨rfl, rfl, rfl⟩
  all_goals exact enters_plain hq rfl rfl ⟨rfl, rfl, rfl⟩

/-! ### Leaving -/

/-- The uses that a phrase records when it is left. -/
def finishedUses (src : Source) (p : Phrase) : List LocalUse :=
  match p.kind with
  | .simpleVariable => ((p.token? .variableName).map (src.use .var)).toList
  | _ => []

private theorem finishedUses_eq_nil {p : Phrase} (h : p.kind.role ≠ .variable) : finishedUses src p = [] := by
  unfold finishedUses
  split
  · rename_i hk
    rw [hk] at h
    exact absurd rfl h
  · rfl

private theorem simpleVariable_adds (s : ReferenceState) (p : Phrase) :
    Adds src ((p.token? .variableName).map (src.use .var)).toList [] s (s.simpleVariable src p).1 := by
  unfold simpleVariable
  cases p.token? .variableName with
  | none => exact .refl s
  | some token => exact .record_use s rfl

private theorem qualifiedName_adds (env : ReferenceInput) (s : ReferenceState) (p : Phrase) {kind : SymbolKind}
    (hk : kind.isLocal = false) : Adds src [] [] s (s.qualifiedName env p kind).1 := by
  unfold qualifiedName
  split
  · exact .refl s
  · split
    · exact .refl s
    · rename_i text form _ _ _
      have hr : (s.nameReference env.source p kind text form).kind = kind := by
        unfold nameReference
        extract_lets lookup r
        split <;> rfl
      refine .record_other s ?_
      show (s.nameReference env.source p kind text form).kind.isLocal = false
      rw [hr, hk]

private theorem assignment_adds (s : ReferenceState) (outcomes : List Outcome) :
    Adds src [] [] s (s.assignment outcomes).1 := by
  unfold assignment
  split
  · exact .refl s
  · dsimp only
    split
    · exact .refl s
    · exact (Adds.changeType s _ _).andThen (.withLocals _ _)

private theorem accessMember_adds (env : ReferenceInput) (s : ReferenceState) (p : Phrase) {kind : SymbolKind}
    (hk : kind.isLocal = false) (outcomes : List Outcome) :
    Adds src [] [] s (s.accessMember env p kind outcomes).1 := by
  unfold accessMember
  dsimp only
  split
  · exact .refl s
  · split
    · exact .refl s
    · refine .record_other s ?_
      show (if _ then _ else _ : Reference).kind.isLocal = false
      split <;> exact hk

private theorem bindLoopVariable_adds (s : ReferenceState) (outcomes : List Outcome) :
    Adds src [] [] s (s.bindLoopVariable outcomes) := by
  unfold bindLoopVariable
  split
  · exact (Adds.changeType s _ _).andThen (.withLocals _ _)
  · exact .refl s

private theorem instanceTest_adds (s : ReferenceState) (outcomes : List Outcome) :
    Adds src [] [] s (s.instanceTest outcomes) := by
  unfold instanceTest
  split
  · split
    · exact .refl s
    · exact .withLocals s _
  · exact .refl s

private theorem finishPhrase_adds (env : ReferenceInput) (s : ReferenceState) (p : Phrase) {transform : Reduction}
    (hr : transform.role = p.kind.role) (hn : transform.namesOther = true) (outcomes : List Outcome) :
    Adds env.source (finishedUses env.source p) [] s (s.finishPhrase env p transform outcomes).1 := by
  have hnil : transform.role ≠ .variable → finishedUses env.source p = [] := fun h =>
    finishedUses_eq_nil (hr ▸ h)
  cases transform with
  | variableName =>
    have hk : p.kind = .simpleVariable := by
      cases hk : p.kind <;> rw [hk] at hr <;> first | rfl | cases hr
    unfold finishedUses
    rw [hk]
    exact simpleVariable_adds s p
  | name kind =>
    rw [hnil VariableRole.noConfusion]
    exact qualifiedName_adds env s p (Bool.not_eq_true' _ ▸ hn)
  | member kind =>
    rw [hnil VariableRole.noConfusion]
    exact accessMember_adds env s p (Bool.not_eq_true' _ ▸ hn) outcomes
  | assignment =>
    rw [hnil VariableRole.noConfusion]
    exact assignment_adds s outcomes
  | instanceOf =>
    rw [hnil VariableRole.noConfusion]
    exact instanceTest_adds s outcomes
  | foreachValue =>
    rw [hnil VariableRole.noConfusion]
    exact bindLoopVariable_adds s outcomes
  | call =>
    rw [hnil VariableRole.noConfusion]
    unfold finishPhrase
    cases outcomes <;> exact .refl s
  | conditional hasElse =>
    rw [hnil VariableRole.noConfusion]
    exact .withLocals s _
  | switch armOpen hasDefault =>
    rw [hnil VariableRole.noConfusion]
    exact .withLocals s _
  | _ =>
    rw [hnil VariableRole.noConfusion]
    exact .refl s

private theorem unwind_adds (s : ReferenceState) {exit : Unwinding} (h : (exit == .leaveFunction) = false) :
    Adds src [] [] s (s.unwind exit) := by
  cases exit with
  | nothing => exact .refl s
  | leaveClass =>
    have hr : Adds src [] [] s { s with resolver := s.resolver.outOfClass } := .of_eq rfl id rfl
    exact hr.andThen (.popCursor _)
  | leaveFunction => cases h
  | leaveSpace => exact .of_eq rfl id rfl

/-- Leaving a function closes its scope, apart from which nothing is added. -/
private theorem unwind_function (s : ReferenceState) : ∃ s', Adds src [] [] s s' ∧
    s.unwind .leaveFunction = s'.closeScope := by
  have hp : Adds src [] [] s s.popCursor := .popCursor s
  exact ⟨_, hp.andThen (.withLocals _ s.popCursor.locals.leaveScope), rfl⟩

/-- The last steps of leaving a phrase. -/
private theorem finish_adds (s : ReferenceState) (p : Phrase) (outcome : Option Outcome) : Adds src [] [] s
    (let s := match outcome with
      | some o => s.pushOutcome o
      | none => s
    if p.kind == .expressionStatement then { s with doc := none } else s) := by
  have hdoc : ∀ s : ReferenceState,
      Adds src [] [] s (if p.kind == .expressionStatement then { s with doc := none } else s) := by
    intro s
    split
    · exact .of_eq rfl id rfl
    · exact .refl s
  cases outcome with
  | none => exact hdoc s
  | some o => exact Adds.andThen (.pushOutcome s o) (hdoc _)

/-- Leaving a phrase pops its frame, records the uses that belong there, and closes a scope if the phrase is a
function. -/
theorem leave_adds (env : ReferenceInput) {p : Phrase} {frame : VariableRole × Bool × Unwinding}
    {frames : List (VariableRole × Bool × Unwinding)} (hf : ReferenceFrame.Fits p.kind frame)
    (hs : s.frames.map ReferenceFrame.signature = frame :: frames) :
    ∃ rest s₁, rest.map ReferenceFrame.signature = frames ∧
      Adds env.source (finishedUses env.source p) [] { s with frames := rest } s₁ ∧
      Adds env.source [] [] (if p.kind.isCallable then s₁.closeScope else s₁) (s.leave env p) := by
  cases hs' : s.frames with
  | nil =>
    rw [hs'] at hs
    cases hs
  | cons f rest =>
    rw [hs'] at hs
    obtain ⟨rfl, hrest⟩ := List.cons.inj hs
    have hfinish := finishPhrase_adds env { s with frames := rest } p hf.role hf.namesOther f.outcomes
    unfold leave
    rw [hs']
    dsimp only
    generalize { s with frames := rest }.finishPhrase env p f.transform f.outcomes = result at hfinish
    obtain ⟨s', outcome⟩ := result
    have hexit : (f.exit == .leaveFunction) = p.kind.isCallable := hf.exit
    cases hp : p.kind.isCallable with
    | false =>
      have hu : Adds env.source [] [] s' (s'.unwind f.exit) := unwind_adds s' (hexit.trans hp)
      exact ⟨rest, s', hrest, hfinish, hu.andThen (finish_adds _ p outcome)⟩
    | true =>
      rw [eq_of_beq (hexit.trans hp)]
      obtain ⟨s₁, h₁, hclose⟩ : ∃ s₁, Adds env.source [] [] s' s₁ ∧ s'.unwind .leaveFunction = s₁.closeScope :=
        unwind_function s'
      refine ⟨rest, s₁, hrest, hfinish.andThen h₁, ?_⟩
      rw [hclose]
      exact finish_adds _ p outcome

end ReferenceState

end CodeAtlas
