import CodeAtlas.Proofs.RecordingSteps
import CodeAtlas.Proofs.Untyped

/-!
# Leaving a phrase

To leave a phrase is to finish it, which may record a reference, change the type of one or make an outcome
(`Finish`), and then to undo what entering did and to hand on the outcome (`resume`).  Outcomes of variables are made
by variables alone; a reference gets another type only where a phrase assigns (`Assigning`).
-/

namespace CodeAtlas

namespace ReferenceState

variable {s s' : ReferenceState} {src : Source}

/-! ### Finishing -/

/-- The phrase gives a type to the variable of its first outcome. -/
structure Assigning (transform : Reduction) (outcomes : List Outcome) (target : Outcome) (others : List Outcome)
    (name : String) : Prop where
  transform : transform.assigns = true
  outcomes : outcomes = target :: others
  name : target.variableName = some name

/-- What finishing a phrase does: it gives the variable and the reference of its first outcome one new type, or it makes
the outcome of a variable, hands one on, or does nothing of the kind. -/
inductive Finish (src : Source) (s : ReferenceState) (p : Phrase) (transform : Reduction) (outcomes : List Outcome) :
    ReferenceState × Option Outcome → Prop
  | assigned {target : Outcome} {others : List Outcome} {name : String} {o : Option Outcome} (type : TypeText)
    (ha : Assigning transform outcomes target others name) (ho : ∀ outcome ∈ o, outcome.variableName = none) :
    Finish src s p transform outcomes
      ({ s.changeType target.reference type with
        locals := (s.changeType target.reference type).locals.setType name type }, o)
  | made {t : Token} (type : TypeText) (ht : transform = .variableName) (token : p.token? .variableName = some t) :
    Finish src s p transform outcomes
      (s.recordTyped (Reference.bare .var (src.text t) (src.tokenRange t)) type (some (src.text t)))
  | handedOn (ht : transform = .first) : Finish src s p transform outcomes (s, outcomes.head?)
  | other {s' : ReferenceState} {o : Option Outcome} (hf : s'.frames = s.frames) (hs : Recorded s.scopes s'.scopes)
    (ho : ∀ outcome ∈ o, outcome.variableName = none)
    (hn : ∀ target others name, ¬ Assigning transform outcomes target others name) :
    Finish src s p transform outcomes (s', o)

private theorem typed_unnamed (type : TypeText) : ∀ outcome ∈ some (Outcome.typed type), outcome.variableName = none :=
  fun _ h => Option.some.inj h ▸ rfl

private theorem map_typed_unnamed (o : Option Outcome) (f : Outcome → TypeText) :
    ∀ outcome ∈ o.map fun o => Outcome.typed (f o), outcome.variableName = none := by
  intro outcome h
  obtain ⟨o', -, rfl⟩ := Option.map_eq_some_iff.1 h
  rfl

/-- Phrases other than assignments and loop variables assign nothing. -/
private theorem not_assigning {transform : Reduction} {outcomes : List Outcome} (h : transform.assigns = false) :
    ∀ target others name, ¬ Assigning transform outcomes target others name :=
  fun _ _ _ ha => nomatch h.symm.trans ha.transform

/-- Finishing a phrase that makes an outcome without a variable. -/
private theorem finish_typed (s : ReferenceState) (p : Phrase) {transform : Reduction} {outcomes : List Outcome}
    {o : Option Outcome} (ho : ∀ outcome ∈ o, outcome.variableName = none) (h : transform.assigns = false) :
    Finish src s p transform outcomes (s, o) :=
  .other rfl (.none s.scopes) ho (not_assigning h)

private theorem qualifiedName_finish (env : ReferenceInput) (s : ReferenceState) (p : Phrase) (kind : SymbolKind)
    (outcomes : List Outcome) : Finish env.source s p (.name kind) outcomes (s.qualifiedName env p kind) := by
  unfold qualifiedName
  split
  · exact finish_typed s p unnamed_none rfl
  · split
    · exact finish_typed s p (typed_unnamed _) rfl
    · exact .other (frames_record s _) (Appends.record s _).scopes (fun _ h => Option.some.inj h ▸ rfl)
        (not_assigning rfl)

private theorem accessMember_finish (env : ReferenceInput) (s : ReferenceState) (p : Phrase) (kind : SymbolKind)
    (outcomes : List Outcome) :
    Finish env.source s p (.member kind) outcomes (s.accessMember env p kind outcomes) := by
  unfold accessMember
  dsimp only
  split
  · exact finish_typed s p unnamed_none rfl
  · split
    · exact finish_typed s p (typed_unnamed _) rfl
    · exact .other (frames_record s _) (Appends.record s _).scopes (fun _ h => Option.some.inj h ▸ rfl)
        (not_assigning rfl)

private theorem simpleVariable_finish (s : ReferenceState) (p : Phrase) (outcomes : List Outcome) :
    Finish src s p .variableName outcomes (s.simpleVariable src p) := by
  unfold simpleVariable
  split
  · exact finish_typed s p unnamed_none rfl
  · rename_i t ht
    exact .made (s.locals.typeOf (src.text t)) rfl ht

private theorem assignment_finish (s : ReferenceState) (p : Phrase) (outcomes : List Outcome) :
    Finish src s p .assignment outcomes (s.assignment outcomes) := by
  unfold assignment
  split
  · exact .other rfl (.none s.scopes) unnamed_none fun _ _ _ ha => nomatch ha.outcomes
  · rename_i target others
    cases hname : target.variableName with
    | none =>
      refine .other rfl (.none s.scopes) (typed_unnamed _) fun target' _ name ha => ?_
      obtain ⟨rfl, -⟩ := List.cons.inj ha.outcomes
      exact nomatch hname.symm.trans ha.name
    | some name => exact .assigned _ ⟨rfl, rfl, hname⟩ (typed_unnamed _)

private theorem bindLoopVariable_finish (s : ReferenceState) (p : Phrase) (outcomes : List Outcome) :
    Finish src s p .foreachValue outcomes (s.bindLoopVariable outcomes, none) := by
  unfold bindLoopVariable
  split
  · exact .assigned _ ⟨rfl, rfl, rfl⟩ unnamed_none
  · rename_i hno
    refine .other rfl (.none s.scopes) unnamed_none fun target others name ha => ?_
    obtain ⟨type, variableName, reference⟩ := target
    obtain rfl : variableName = some name := ha.name
    exact hno _ _ _ _ ha.outcomes

private theorem instanceTest_scopes (s : ReferenceState) (outcomes : List Outcome) :
    (s.instanceTest outcomes).frames = s.frames ∧ (s.instanceTest outcomes).scopes = s.scopes := by
  unfold instanceTest
  split
  · split <;> exact ⟨rfl, rfl⟩
  · exact ⟨rfl, rfl⟩

theorem finishPhrase_finish (env : ReferenceInput) (s : ReferenceState) (p : Phrase) (transform : Reduction)
    (outcomes : List Outcome) :
    Finish env.source s p transform outcomes (s.finishPhrase env p transform outcomes) := by
  cases transform with
  | name kind => exact qualifiedName_finish env s p kind outcomes
  | variableName => exact simpleVariable_finish s p outcomes
  | assignment => exact assignment_finish s p outcomes
  | member kind => exact accessMember_finish env s p kind outcomes
  | foreachValue => exact bindLoopVariable_finish s p outcomes
  | first => exact .handedOn rfl
  | instanceOf =>
    obtain ⟨hf, hs⟩ := s.instanceTest_scopes outcomes
    exact .other hf (hs ▸ .none s.scopes) (typed_unnamed _) (not_assigning rfl)
  | conditional hasElse => exact .other rfl (.none s.scopes) unnamed_none (not_assigning rfl)
  | switch armOpen hasDefault => exact .other rfl (.none s.scopes) unnamed_none (not_assigning rfl)
  | objectCreation => exact finish_typed s p (map_typed_unnamed _ _) rfl
  | arrayElement => exact finish_typed s p (map_typed_unnamed _ _) rfl
  | subscript => exact finish_typed s p (map_typed_unnamed _ _) rfl
  | call =>
    unfold finishPhrase
    cases outcomes <;> exact finish_typed s p (typed_unnamed _) rfl
  | discard | catching | closureUse => exact finish_typed s p unnamed_none rfl
  | typed _ | union | ternary | arrayCreation => exact finish_typed s p (typed_unnamed _) rfl

@[simp] theorem frames_changeType (s : ReferenceState) (place : Option Nat) (type : TypeText) :
    (s.changeType place type).frames = s.frames := by
  unfold changeType
  split <;> rfl

@[simp] theorem locals_changeType (s : ReferenceState) (place : Option Nat) (type : TypeText) :
    (s.changeType place type).locals = s.locals := by
  unfold changeType
  split <;> rfl

variable {scope : ScopeTree} {below : List ScopeTree}

theorem scopes_changeType (hs : s.scopes = scope :: below) (i : Nat) (type : TypeText) :
    (s.changeType (some i) type).scopes =
      { scope with references := scope.references.modify i (·.withType type) } :: below := by
  unfold changeType
  rw [hs]

theorem changeType_grows (hs : s.scopes = scope :: below) (place : Option Nat) (type : TypeText) :
    ∃ scope', (s.changeType place type).scopes = scope' :: below ∧ scope.Grows Reference.SameButType scope' := by
  cases place with
  | none =>
    refine ⟨scope, ?_, .refl .refl scope⟩
    unfold changeType
    exact hs
  | some i =>
    have hmodify : Prolongs Reference.SameButType scope.references (scope.references.modify i (·.withType type)) :=
      .modify .refl (.withType · type) scope.references i
    exact ⟨_, scopes_changeType hs i type, .of_references .refl scope hmodify⟩

section

variable {p : Phrase} {f : ReferenceFrame} {result : ReferenceState × Option Outcome}

theorem Finish.frames_eq (h : Finish src s p f.transform f.outcomes result) : result.1.frames = s.frames := by
  cases h with
  | assigned => exact frames_changeType s _ _
  | made => exact frames_record s _
  | handedOn => rfl
  | other hf => exact hf

/-- Unless the phrase assigns, what has been recorded stays as it is. -/
theorem Finish.records (h : Finish src s p f.transform f.outcomes result)
    (hn : ∀ target others name, ¬ Assigning f.transform f.outcomes target others name) :
    Recorded s.scopes result.1.scopes := by
  cases h with
  | assigned _ ha => exact absurd ha (hn _ _ _)
  | made => exact (Appends.record s _).scopes
  | handedOn => exact .none s.scopes
  | other _ hs => exact hs

theorem Finish.assigns {target : Outcome} {others : List Outcome} {name : String}
    (h : Finish src s p f.transform f.outcomes result) (ha : Assigning f.transform f.outcomes target others name) :
    ∃ type, result.1 = { s.changeType target.reference type with locals := s.locals.setType name type } := by
  obtain ⟨_, transform, _, outcomes⟩ := f
  cases h with
  | assigned type ha' =>
    obtain ⟨rfl, -⟩ := List.cons.inj (ha.outcomes.symm.trans ha'.outcomes)
    obtain rfl := Option.some.inj (ha.name.symm.trans ha'.name)
    exact ⟨type, by rw [locals_changeType]⟩
  | made _ ht =>
    obtain rfl : transform = .variableName := ht
    exact nomatch ha.transform
  | handedOn ht =>
    obtain rfl : transform = .first := ht
    exact nomatch ha.transform
  | other _ _ _ hn => exact absurd ha (hn target others name)

end

/-! ### Going on -/

@[simp] theorem scopes_popCursor (s : ReferenceState) : s.popCursor.scopes = s.scopes := by
  unfold popCursor
  split <;> rfl

@[simp] theorem locals_popCursor (s : ReferenceState) : s.popCursor.locals = s.locals := by
  unfold popCursor
  split <;> rfl

theorem scopes_closeScope_congr (h : s.scopes = s'.scopes) : s.closeScope.scopes = s'.closeScope.scopes := by
  unfold closeScope
  rw [h]
  split
  · rfl
  · exact h

theorem scopes_closeScope {scope parent : ScopeTree} {below : List ScopeTree}
    (hs : s.scopes = scope :: parent :: below) :
    s.closeScope.scopes = { parent with children := parent.children ++ [scope] } :: below := by
  unfold closeScope
  rw [hs]

theorem scopes_unwind (s : ReferenceState) (exit : Unwinding) :
    (s.unwind exit).scopes = if exit == .leaveFunction then s.closeScope.scopes else s.scopes := by
  cases exit with
  | nothing => rfl
  | leaveSpace => rfl
  | leaveClass => exact scopes_popCursor { s with resolver := s.resolver.outOfClass }
  | leaveFunction => exact scopes_closeScope_congr (scopes_popCursor s)

theorem locals_unwind (s : ReferenceState) {exit : Unwinding} (h : exit ≠ .leaveFunction) :
    (s.unwind exit).locals = s.locals := by
  cases exit with
  | nothing => rfl
  | leaveSpace => rfl
  | leaveClass => exact locals_popCursor { s with resolver := s.resolver.outOfClass }
  | leaveFunction => exact absurd rfl h

section

variable (p : Phrase) (exit : Unwinding) (result : ReferenceState × Option Outcome)

/-- The comment that waits aside, what is left to do is to unwind and to hand on the outcome. -/
theorem exists_resume_eq : ∃ doc, resume p exit result =
    { result.2.elim (result.1.unwind exit) (result.1.unwind exit).pushOutcome with doc := doc } := by
  obtain ⟨s, o⟩ := result
  unfold resume
  cases o <;> dsimp only <;> split
  · exact ⟨none, rfl⟩
  · exact ⟨_, rfl⟩
  · exact ⟨none, rfl⟩
  · exact ⟨_, rfl⟩

theorem frames_resume : (resume p exit result).frames = ReferenceFrame.hand result.2 result.1.frames := by
  obtain ⟨doc, h⟩ := exists_resume_eq p exit result
  rw [h, ← frames_unwind result.1 exit]
  cases result.2 with
  | none => exact (ReferenceFrame.hand_none _).symm
  | some o => exact frames_pushOutcome _ o

theorem scopes_resume : (resume p exit result).scopes =
    if exit == .leaveFunction then result.1.closeScope.scopes else result.1.scopes := by
  obtain ⟨doc, h⟩ := exists_resume_eq p exit result
  rw [h, ← scopes_unwind]
  cases result.2 with
  | none => rfl
  | some o => exact scopes_pushOutcome _ o

theorem locals_resume (hexit : exit ≠ .leaveFunction) : (resume p exit result).locals = result.1.locals := by
  obtain ⟨doc, h⟩ := exists_resume_eq p exit result
  rw [h, ← locals_unwind result.1 hexit]
  cases result.2 with
  | none => rfl
  | some o => exact locals_pushOutcome _ o

end

/-! ### Leaving -/

/-- What finishing a phrase gives, once its frame has been taken off the stack. -/
def finished (env : ReferenceInput) (s : ReferenceState) (p : Phrase) (f : ReferenceFrame)
    (rest : List ReferenceFrame) : ReferenceState × Option Outcome :=
  { s with frames := rest }.finishPhrase env p f.transform f.outcomes

section

variable {env : ReferenceInput} {p : Phrase} {f : ReferenceFrame} {rest : List ReferenceFrame}

theorem finish_finished (env : ReferenceInput) (s : ReferenceState) (p : Phrase) (f : ReferenceFrame)
    (rest : List ReferenceFrame) :
    Finish env.source { s with frames := rest } p f.transform f.outcomes (s.finished env p f rest) :=
  finishPhrase_finish env _ p f.transform f.outcomes

theorem frames_leave (hf : s.frames = f :: rest) :
    (s.leave env p).frames = ReferenceFrame.hand (s.finished env p f rest).2 rest := by
  rw [leave_eq_resume p hf, frames_resume]
  exact congrArg _ (finish_finished env s p f rest).frames_eq

theorem scopes_leave (hf : s.frames = f :: rest) (suits : f.Suits p.kind) :
    (s.leave env p).scopes = if p.kind.isCallable then (s.finished env p f rest).1.closeScope.scopes
      else (s.finished env p f rest).1.scopes := by
  rw [leave_eq_resume p hf, scopes_resume, suits.exit]
  rfl

theorem locals_leave (hf : s.frames = f :: rest) (suits : f.Suits p.kind) (hp : p.kind.isCallable = false) :
    (s.leave env p).locals = (s.finished env p f rest).1.locals := by
  have hexit : f.exit ≠ .leaveFunction := fun he => nomatch hp.symm.trans (suits.exit.symm.trans (beq_iff_eq.2 he))
  rw [leave_eq_resume p hf, locals_resume p f.exit _ hexit]
  rfl

/-- If the innermost scope grows while the phrase is finished, then the scopes grow while it is left. -/
theorem leave_stackGrows {R : Reference → Reference → Prop} {scope' : ScopeTree} (hf : s.frames = f :: rest)
    (suits : f.Suits p.kind) (hs : (s.finished env p f rest).1.scopes = scope' :: below) (hg : scope.Grows R scope') :
    StackGrows R (scope :: below) (s.leave env p).scopes := by
  rw [scopes_leave hf suits]
  split
  · cases below with
    | nil =>
      unfold closeScope
      rw [hs]
      dsimp only
      rw [hs]
      exact .inner hg
    | cons parent below =>
      rw [scopes_closeScope hs]
      exact .closed hg parent below
  · rw [hs]
    exact .inner hg

end

end ReferenceState

end CodeAtlas
