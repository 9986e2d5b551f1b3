import CodeAtlas.Proofs.FlowStack
import CodeAtlas.Proofs.Walk
import Mathlib.Algebra.Ring.Nat

/-!
# Balance of the reference walk

At each moment the frames of the open phrases say how high the other stacks are (`Level`): a frame that will leave a
class or a function when it is popped stands for one cursor, a frame of a conditional with an open arm for one branch of
the table of variables.  The frames themselves are balanced, since leaving a phrase pops the frame that entering it
pushed (`visitor_balanced`).
-/

namespace CodeAtlas

/-! ### Heights -/

/-- The scope of the table of variables that leaving a phrase closes. -/
def Unwinding.scopes : Unwinding → List FlowKind
  | .leaveFunction => [.scope]
  | _ => []

/-- The number of cursors that leaving a phrase takes away. -/
def Unwinding.cursors : Unwinding → Nat
  | .leaveClass | .leaveFunction => 1
  | _ => 0

/-- The number of classes that leaving a phrase takes away. -/
def Unwinding.classes : Unwinding → Nat
  | .leaveClass => 1
  | _ => 0

/-- The number of scopes of references that leaving a phrase takes away. -/
def Unwinding.functions : Unwinding → Nat
  | .leaveFunction => 1
  | _ => 0

namespace ReferenceState

/-- The frames of the table of variables that the open phrases stand for. -/
def heldKinds (skeletons : List (Reduction × Unwinding)) : List FlowKind :=
  skeletons.flatMap fun f => f.1.arms ++ f.2.scopes

theorem heldKinds_cons (transform : Reduction) (exit : Unwinding) (fs : List (Reduction × Unwinding)) :
    heldKinds ((transform, exit) :: fs) = transform.arms ++ (exit.scopes ++ heldKinds fs) := by
  unfold heldKinds
  rw [List.flatMap_cons, List.append_assoc]

/-- What leaving all open phrases takes away. -/
def total (count : Unwinding → Nat) (skeletons : List (Reduction × Unwinding)) : Nat :=
  (skeletons.map fun f => count f.2).sum

theorem total_cons (count : Unwinding → Nat) (transform : Reduction) (exit : Unwinding)
    (fs : List (Reduction × Unwinding)) : total count ((transform, exit) :: fs) = count exit + total count fs := by
  unfold total
  rw [List.map_cons, List.sum_cons]

/-- Every stack has the height that open phrases with these skeletons account for. -/
structure LevelAt (s : ReferenceState) (fs : List (Reduction × Unwinding)) : Prop where
  kinds : s.locals.kinds = heldKinds fs ++ [.scope]
  settled : s.locals.Settled
  cursors : s.cursors.length = total Unwinding.cursors fs + 1
  scopes : s.scopes.length = total Unwinding.functions fs + 1
  classes : s.resolver.classes.length = total Unwinding.classes fs

/-- Every stack has the height that the open phrases account for. -/
def Level (s : ReferenceState) : Prop :=
  s.LevelAt (s.frames.map ReferenceFrame.skeleton)

/-- The heights of all stacks are the same. -/
structure SameHeights (s s' : ReferenceState) : Prop where
  locals : s.locals.SameStack s'.locals
  frames : s'.frames.map ReferenceFrame.skeleton = s.frames.map ReferenceFrame.skeleton
  cursors : s'.cursors.length = s.cursors.length
  scopes : s'.scopes.length = s.scopes.length
  classes : s'.resolver.classes = s.resolver.classes

theorem Quiet.sameHeights {s s' : ReferenceState} (h : s.Quiet s') : s.SameHeights s' :=
  ⟨h.locals, h.frames, by rw [h.cursors], h.scopes, by rw [h.resolver]⟩

theorem SameHeights.trans {s s' s'' : ReferenceState} (h : s.SameHeights s') (h' : s'.SameHeights s'') :
    s.SameHeights s'' :=
  ⟨h.locals.trans h'.locals, h'.frames.trans h.frames, h'.cursors.trans h.cursors, h'.scopes.trans h.scopes,
    h'.classes.trans h.classes⟩

theorem SameHeights.levelAt {s s' : ReferenceState} {fs : List (Reduction × Unwinding)} (h : s.SameHeights s')
    (hs : s.LevelAt fs) : s'.LevelAt fs := by
  constructor
  · rw [h.locals.kinds, hs.kinds]
  · exact h.locals.settled hs.settled
  · rw [h.cursors, hs.cursors]
  · rw [h.scopes, hs.scopes]
  · rw [h.classes, hs.classes]

theorem SameHeights.level {s s' : ReferenceState} (h : s.SameHeights s') (hs : s.Level) : s'.Level := by
  unfold Level
  rw [h.frames]
  exact h.levelAt hs

theorem SameHeights.length {s s' : ReferenceState} (h : s.SameHeights s') : s'.frames.length = s.frames.length := by
  have := congrArg List.length h.frames
  simpa using this

theorem advance_sameHeights (s : ReferenceState) (family : DeclarationFamily) : s.SameHeights (s.advance family) := by
  unfold advance
  split
  · exact (Quiet.refl s).sameHeights
  · rename_i c rest h
    split
    · exact ⟨⟨rfl, rfl, rfl⟩, rfl, by simp [h], rfl, rfl⟩
    · exact (Quiet.refl s).sameHeights

private theorem importNames_sameHeights (src : Source) (s : ReferenceState) (p : Phrase) :
    s.SameHeights (s.importNames src p) := by
  have hclause : ∀ (s : ReferenceState) (clause : Phrase), s.SameHeights (s.useClause src clause) := by
    intro s clause
    have hs := (Quiet.refl s).sameHeights
    have ha := s.advance_sameHeights .imported
    unfold useClause
    split
    · exact hs
    · split
      · exact hs
      · simp only
        split
        · exact ha
        · have hr : ∀ rule, (s.advance .imported).SameHeights
              { s.advance .imported with resolver := (s.advance .imported).resolver.addImport rule } :=
            fun rule => ⟨⟨rfl, rfl, rfl⟩, rfl, rfl, rfl, rfl⟩
          exact (ha.trans (hr _)).trans (Quiet.record _ _).sameHeights
  unfold importNames
  induction p.phrases.filter (·.kind == .namespaceUseClause) generalizing s with
  | nil => exact (Quiet.refl s).sameHeights
  | cons clause clauses ih => exact (hclause s clause).trans (ih _)

private theorem spaceDefinition_sameHeights (src : Source) (s : ReferenceState) (p : Phrase) :
    s.SameHeights (s.spaceDefinition src p) := by
  have hr : s.SameHeights { s with resolver := s.resolver.setSpace (src.spaceName p) } :=
    ⟨⟨rfl, rfl, rfl⟩, rfl, rfl, rfl, rfl⟩
  unfold spaceDefinition
  simp only
  split
  · exact hr
  · split
    · exact hr
    · exact hr.trans (Quiet.record _ _).sameHeights

/-- A phrase that keeps nothing open. -/
theorem LevelAt.cons_plain {s : ReferenceState} {fs : List (Reduction × Unwinding)} {transform : Reduction}
    {exit : Unwinding} (ha : transform.arms = []) (he : exit = .nothing ∨ exit = .leaveSpace) :
    s.LevelAt ((transform, exit) :: fs) ↔ s.LevelAt fs := by
  have hscopes : exit.scopes = [] := by rcases he with rfl | rfl <;> rfl
  have hcount : exit.cursors = 0 ∧ exit.functions = 0 ∧ exit.classes = 0 := by
    rcases he with rfl | rfl <;> exact ⟨rfl, rfl, rfl⟩
  have hheld : heldKinds ((transform, exit) :: fs) = heldKinds fs := by
    rw [heldKinds_cons, ha, hscopes]
    rfl
  have htotal : total Unwinding.cursors ((transform, exit) :: fs) = total Unwinding.cursors fs ∧
      total Unwinding.functions ((transform, exit) :: fs) = total Unwinding.functions fs ∧
      total Unwinding.classes ((transform, exit) :: fs) = total Unwinding.classes fs := by
    simp only [total_cons, hcount, Nat.zero_add, and_self]
  obtain ⟨h1, h2, h3⟩ := htotal
  constructor
  · intro h
    exact ⟨hheld ▸ h.kinds, h.settled, h1 ▸ h.cursors, h2 ▸ h.scopes, h3 ▸ h.classes⟩
  · intro h
    exact ⟨hheld ▸ h.kinds, h.settled, h1 ▸ h.cursors, h2 ▸ h.scopes, h3 ▸ h.classes⟩

private theorem heldKinds_append_ne_nil (fs : List (Reduction × Unwinding)) : heldKinds fs ++ [FlowKind.scope] ≠ [] := by
  simp

/-! ### Arms -/

private theorem level_startArm {s : ReferenceState} {fs : List (Reduction × Unwinding)} {t t' : Reduction}
    {exit : Unwinding} (ht : t.arms = []) (ht' : t'.arms = [.branch]) (h : s.LevelAt ((t, exit) :: fs)) :
    LevelAt { s with locals := s.locals.startBranch } ((t', exit) :: fs) := by
  refine ⟨?_, FlowTypes.settled_startBranch h.settled.1, h.cursors, h.scopes, h.classes⟩
  have hk : s.locals.startBranch.kinds = .branch :: s.locals.kinds := rfl
  rw [hk, h.kinds, heldKinds_cons, heldKinds_cons, ht, ht']
  rfl

/-- The stacks after an open arm is ended. -/
private theorem endArm {s : ReferenceState} {fs : List (Reduction × Unwinding)} {t : Reduction} {exit : Unwinding}
    (ht : t.arms = [.branch]) (h : s.LevelAt ((t, exit) :: fs)) :
    s.locals.endBranch.kinds = heldKinds ((.discard, exit) :: fs) ++ [.scope] ∧ s.locals.endBranch.Chained := by
  have hk : s.locals.kinds = .branch :: (heldKinds ((.discard, exit) :: fs) ++ [.scope]) := by
    rw [h.kinds, heldKinds_cons, heldKinds_cons, ht]
    rfl
  exact FlowTypes.endBranch_chained hk (heldKinds_append_ne_nil _) h.settled.1

private theorem level_nextArm {s : ReferenceState} {fs : List (Reduction × Unwinding)} {t t' : Reduction}
    {exit : Unwinding} (ht : t.arms = [.branch]) (ht' : t'.arms = [.branch]) (h : s.LevelAt ((t, exit) :: fs)) :
    LevelAt { s with locals := s.locals.endBranch.startBranch } ((t', exit) :: fs) := by
  obtain ⟨hkinds, hchain⟩ := endArm ht h
  refine ⟨?_, FlowTypes.settled_startBranch hchain, h.cursors, h.scopes, h.classes⟩
  have hk : s.locals.endBranch.startBranch.kinds = .branch :: s.locals.endBranch.kinds := rfl
  rw [hk, hkinds, heldKinds_cons, heldKinds_cons, ht']
  rfl

private theorem level_closeArms {s : ReferenceState} {fs : List (Reduction × Unwinding)} {t : Reduction}
    {exit : Unwinding} {armOpen exhaustive : Bool} (ht : t.arms = if armOpen then [.branch] else [])
    (h : s.LevelAt ((t, exit) :: fs)) : (s.closeArms armOpen exhaustive).LevelAt ((.discard, exit) :: fs) := by
  have hopen : ∃ l : FlowTypes, l = (if armOpen then s.locals.endBranch else s.locals) ∧
      l.kinds = heldKinds ((.discard, exit) :: fs) ++ [.scope] ∧ l.Chained := by
    refine ⟨_, rfl, ?_⟩
    cases armOpen with
    | true => exact endArm ht h
    | false =>
      refine ⟨?_, h.settled.1⟩
      rw [if_neg Bool.false_ne_true, h.kinds, heldKinds_cons, heldKinds_cons, ht]
      rfl
  obtain ⟨l, hl, hkinds, hchain⟩ := hopen
  -- the arm that does nothing is ended as soon as it is started
  have hempty : l.startBranch.endBranch.kinds = l.kinds ∧ l.startBranch.endBranch.Chained :=
    FlowTypes.endBranch_chained rfl (by simp [FlowTypes.kinds]) (FlowTypes.settled_startBranch hchain).1
  have hall : ∃ l' : FlowTypes, l' = (if exhaustive then l else l.startBranch.endBranch) ∧
      l'.kinds = l.kinds ∧ l'.Chained := by
    refine ⟨_, rfl, ?_⟩
    cases exhaustive with
    | true => exact ⟨rfl, hchain⟩
    | false => exact hempty
  obtain ⟨l', hl', hkinds', hchain'⟩ := hall
  have hclose : s.closeArms armOpen exhaustive = { s with locals := l'.mergeBranches } := by
    unfold closeArms
    rw [hl', hl]
  rw [hclose]
  refine ⟨?_, FlowTypes.settled_mergeBranches hchain', h.cursors, h.scopes, h.classes⟩
  rw [FlowTypes.kinds_mergeBranches, hkinds', hkinds]

theorem nextConditionalArm_level {s : ReferenceState} (kind : PhraseKind) (h : s.Level) :
    (s.nextConditionalArm kind).Level ∧ (s.nextConditionalArm kind).frames.length = s.frames.length := by
  unfold nextConditionalArm
  split
  · rename_i frame rest hf
    split
    · rename_i hasElse ht
      have hs : s.LevelAt ((.conditional hasElse, frame.exit) :: rest.map ReferenceFrame.skeleton) := by
        unfold Level at h
        rwa [hf, List.map_cons, ReferenceFrame.skeleton, ht] at h
      have hn : LevelAt { s with locals := s.locals.endBranch.startBranch }
          ((.conditional (hasElse || kind == .elseClause), frame.exit) :: rest.map ReferenceFrame.skeleton) :=
        level_nextArm rfl rfl hs
      refine ⟨?_, by simp [hf]⟩
      exact ⟨hn.kinds, hn.settled, hn.cursors, hn.scopes, hn.classes⟩
    · exact ⟨h, rfl⟩
  · exact ⟨h, rfl⟩

theorem nextSwitchArm_level {s : ReferenceState} (kind : PhraseKind) (h : s.Level) :
    (s.nextSwitchArm kind).Level ∧ (s.nextSwitchArm kind).frames.length = s.frames.length := by
  unfold nextSwitchArm
  split
  · rename_i frame rest hf
    split
    · rename_i armOpen hasDefault ht
      have hs : s.LevelAt ((.switch armOpen hasDefault, frame.exit) :: rest.map ReferenceFrame.skeleton) := by
        unfold Level at h
        rwa [hf, List.map_cons, ReferenceFrame.skeleton, ht] at h
      have hn : LevelAt { s with locals := (if armOpen then s.locals.endBranch else s.locals).startBranch }
          ((.switch true (hasDefault || kind == .defaultStatement), frame.exit) ::
            rest.map ReferenceFrame.skeleton) := by
        cases armOpen with
        | true => exact level_nextArm rfl rfl hs
        | false => exact level_startArm rfl rfl hs
      refine ⟨?_, by simp [hf]⟩
      exact ⟨hn.kinds, hn.settled, hn.cursors, hn.scopes, hn.classes⟩
    · exact ⟨h, rfl⟩
  · exact ⟨h, rfl⟩

/-! ### Steps -/

theorem OpensClass.levelAt {s s' : ReferenceState} {symbol : Symbol} {fs : List (Reduction × Unwinding)}
    {transform : Reduction} (ho : s.OpensClass s' symbol) (ha : transform.arms = []) (h : s.LevelAt fs) :
    s'.LevelAt ((transform, .leaveClass) :: fs) := by
  refine ⟨?_, ho.locals.settled h.settled, ?_, ?_, ?_⟩
  · rw [ho.locals.kinds, h.kinds, heldKinds_cons, ha]
    rfl
  · rw [ho.cursors, List.length_cons, h.cursors, total_cons, Unwinding.cursors]
    omega
  · rw [ho.scopes, h.scopes, total_cons, Unwinding.functions, Nat.zero_add]
    exact nofun
  · rw [ho.resolver, Resolver.intoClass, List.length_cons, h.classes, total_cons, Unwinding.classes]
    omega

theorem OpensFunction.levelAt {s s' : ReferenceState} {symbol : Symbol} {fs : List (Reduction × Unwinding)}
    {transform : Reduction} (ho : s.OpensFunction s' symbol) (ha : transform.arms = []) (h : s.LevelAt fs) :
    s'.LevelAt ((transform, .leaveFunction) :: fs) := by
  obtain ⟨carried, hl⟩ := ho.locals
  refine ⟨?_, hl.settled (FlowTypes.settled_enterScope h.settled carried), ?_, ?_, ?_⟩
  · rw [hl.kinds, FlowTypes.kinds_enterScope, h.kinds, heldKinds_cons, ha]
    rfl
  · rw [ho.cursors, List.length_cons, h.cursors, total_cons, Unwinding.cursors]
    omega
  · rw [ho.scopes, h.scopes, total_cons, Unwinding.functions]
    omega
  · rw [ho.resolver, h.classes, total_cons, Unwinding.classes, Nat.zero_add]
    exact nofun

private theorem within_level {s : ReferenceState} (p : Phrase) {transform : Reduction} {exit : Unwinding}
    (h : s.LevelAt ((transform, exit) :: s.frames.map ReferenceFrame.skeleton)) :
    (within p transform exit s).1.Level :=
  ⟨h.kinds, h.settled, h.cursors, h.scopes, h.classes⟩

private theorem within_plain_level {s : ReferenceState} (p : Phrase) {transform : Reduction}
    (ha : transform.arms = []) (h : s.Level) : (within p transform .nothing s).1.Level :=
  within_level p ((LevelAt.cons_plain ha (Or.inl rfl)).2 h)

/-- Inside a declaration the frame of its phrase accounts for what has been opened. -/
private theorem within_opened {s s₁ s' : ReferenceState} (p : Phrase) {transform : Reduction} {exit : Unwinding}
    (hh : s.SameHeights s₁) (hf : s'.frames.map ReferenceFrame.skeleton = s₁.frames.map ReferenceFrame.skeleton)
    (hl : s'.LevelAt ((transform, exit) :: s₁.frames.map ReferenceFrame.skeleton)) :
    (within p transform exit s').1.Level ∧ (within p transform exit s').1.frames.length = s.frames.length + 1 := by
  rw [← hf] at hl
  refine ⟨within_level p hl, ?_⟩
  have hlen := congrArg List.length hf
  rw [List.length_map, List.length_map, hh.length] at hlen
  exact congrArg (· + 1) hlen

theorem enter_level (env : ReferenceInput) (s : ReferenceState) (p : Phrase) (path : List Phrase) (h : s.Level) :
    (s.enter env p path).1.Level ∧
      (s.enter env p path).1.frames.length = s.frames.length + (s.enter env p path).2.toNat := by
  cases hd : p.kind.declares with
  | false =>
    have he := enter_plain env s p path hd
    revert he
    generalize s.enter env p path = result
    intro he
    cases he with
    | refused hq => exact ⟨hq.sameHeights.level h, hq.sameHeights.length⟩
    | quiet hq ha =>
      exact ⟨within_plain_level p ha (hq.sameHeights.level h), congrArg (· + 1) hq.sameHeights.length⟩
    -- the first arm is opened with the phrase, the other ones are opened by phrases inside it
    | conditional hq =>
      rename_i s'
      have hs : s'.LevelAt ((.discard, .nothing) :: s'.frames.map ReferenceFrame.skeleton) :=
        (LevelAt.cons_plain rfl (Or.inl rfl)).2 (hq.sameHeights.level h)
      exact ⟨within_level p (level_startArm rfl rfl hs), congrArg (· + 1) hq.sameHeights.length⟩
    | conditionalArm hq =>
      obtain ⟨ha, hlen⟩ := nextConditionalArm_level p.kind (hq.sameHeights.level h)
      exact ⟨within_plain_level p rfl ha, congrArg (· + 1) (hlen.trans hq.sameHeights.length)⟩
    | switchArm hq =>
      obtain ⟨ha, hlen⟩ := nextSwitchArm_level p.kind (hq.sameHeights.level h)
      exact ⟨within_plain_level p rfl ha, congrArg (· + 1) (hlen.trans hq.sameHeights.length)⟩
  | true =>
    rcases declares_cases hd with ⟨family, hf⟩ | hi | hn
    · obtain ⟨symbol, -, he⟩ := enter_declaration env s p path hf
      revert he
      generalize s.enter env p path = result
      intro he
      have ha := s.advance_sameHeights family
      cases he with
      | cls _ hq ho ht =>
        have hh := ha.trans hq.sameHeights
        exact within_opened p hh ho.frames (ho.levelAt ht (hh.level h))
      | function _ hq ho ht =>
        have hh := ha.trans hq.sameHeights
        exact within_opened p hh ho.frames (ho.levelAt ht (hh.level h))
    · rw [enter_imports env s p path hi]
      have hh := importNames_sameHeights env.source s p
      exact ⟨hh.level h, hh.length⟩
    · rw [enter_space env s p path hn]
      have hh := spaceDefinition_sameHeights env.source s p
      have hl := hh.level h
      refine ⟨?_, congrArg (· + 1) hh.length⟩
      split
      · exact within_level p ((LevelAt.cons_plain rfl (Or.inr rfl)).2 hl)
      · exact within_plain_level p rfl hl

private theorem exists_cons_cons {α : Type} {l : List α} {n : Nat} (h : l.length = 1 + n + 1) :
    ∃ a b rest, l = a :: b :: rest ∧ rest.length = n := by
  match l with
  | a :: b :: rest =>
    rw [List.length_cons, List.length_cons] at h
    exact ⟨a, b, rest, rfl, by omega⟩
  | [_] =>
    rw [List.length_singleton] at h
    omega

/-- Unwinding takes from each stack what the phrase accounts for. -/
private theorem unwind_level {s : ReferenceState} {fs : List (Reduction × Unwinding)} {transform : Reduction}
    {exit : Unwinding} (ha : transform.arms = []) (h : s.LevelAt ((transform, exit) :: fs)) :
    (s.unwind exit).LevelAt fs := by
  have hkinds := h.kinds
  have hcursors := h.cursors
  have hscopes := h.scopes
  have hclasses := h.classes
  rw [heldKinds_cons, ha] at hkinds
  rw [total_cons] at hcursors hscopes hclasses
  cases exit with
  | nothing => exact (LevelAt.cons_plain ha (Or.inl rfl)).1 h
  | leaveSpace =>
    have := (LevelAt.cons_plain ha (Or.inr rfl)).1 h
    exact ⟨this.kinds, this.settled, this.cursors, this.scopes, this.classes⟩
  | leaveClass =>
    obtain ⟨c, c', rest, hc, hrest⟩ := exists_cons_cons hcursors
    have hu : s.unwind .leaveClass = { s with resolver := s.resolver.outOfClass, cursors := c' :: rest } := by
      simp [unwind, popCursor, hc]
    rw [hu]
    refine ⟨hkinds, h.settled, congrArg (· + 1) hrest, ?_, ?_⟩
    · exact hscopes.trans (congrArg (· + 1) (Nat.zero_add _))
    · show s.resolver.classes.tail.length = _
      rw [List.length_tail, hclasses]
      exact Nat.add_sub_cancel_left 1 _
  | leaveFunction =>
    obtain ⟨c, c', rest, hc, hrest⟩ := exists_cons_cons hcursors
    obtain ⟨d, d', scopes, hd, hds⟩ := exists_cons_cons hscopes
    obtain ⟨hkinds, hsettled⟩ := FlowTypes.leaveScope_settled hkinds (heldKinds_append_ne_nil fs) h.settled
    have hu : s.unwind .leaveFunction = { s with
        cursors := c' :: rest
        locals := s.locals.leaveScope
        scopes := { d' with children := d'.children ++ [d] } :: scopes } := by
      simp [unwind, popCursor, closeScope, hc, hd]
    rw [hu]
    refine ⟨hkinds, hsettled, congrArg (· + 1) hrest, congrArg (· + 1) hds, ?_⟩
    exact hclasses.trans (Nat.zero_add _)

theorem Finished.frames {s s' : ReferenceState} {transform : Reduction} (h : s.Finished transform s') :
    s'.frames.map ReferenceFrame.skeleton = s.frames.map ReferenceFrame.skeleton := by
  cases h with
  | quiet _ hq => exact hq.frames
  | arms _ _ _ => rfl

theorem leave_level (env : ReferenceInput) (s : ReferenceState) (p : Phrase) (h : s.Level) :
    (s.leave env p).Level ∧ (s.leave env p).frames.length = s.frames.length - 1 := by
  cases hf : s.frames with
  | nil =>
    have : s.leave env p = s := by
      unfold leave
      rw [hf]
    rw [this, hf]
    exact ⟨h, rfl⟩
  | cons frame rest =>
    obtain ⟨s₁, hfin, hq⟩ := leave_cons env s p hf
    have hs : LevelAt { s with frames := rest }
        ((frame.transform, frame.exit) :: rest.map ReferenceFrame.skeleton) := by
      unfold Level at h
      rw [hf] at h
      exact ⟨h.kinds, h.settled, h.cursors, h.scopes, h.classes⟩
    have hframes : (s₁.unwind frame.exit).frames.map ReferenceFrame.skeleton = rest.map ReferenceFrame.skeleton := by
      rw [frames_unwind, hfin.frames]
    have hl : (s₁.unwind frame.exit).LevelAt (rest.map ReferenceFrame.skeleton) := by
      cases hfin with
      | quiet ha hq' => exact unwind_level ha (hq'.sameHeights.levelAt hs)
      | arms armOpen exhaustive ha => exact unwind_level rfl (level_closeArms ha hs)
    have hlevel : (s₁.unwind frame.exit).Level := by
      unfold Level
      rwa [hframes]
    refine ⟨hq.sameHeights.level hlevel, ?_⟩
    have hlen := congrArg List.length hframes
    rw [List.length_map, List.length_map] at hlen
    rw [hq.sameHeights.length, hlen]
    rfl

/-- Along the reference walk all stacks have the heights that the open phrases account for. -/
theorem visitor_balanced (env : ReferenceInput) : (visitor env).Balanced Level fun s => s.frames.length where
  enter s p path h := enter_level env s p path h
  leave s p _ h := leave_level env s p h
  token s t _ h := by
    have hh := (Quiet.token env.source s t).sameHeights
    exact ⟨hh.level h, hh.length⟩

theorem initial_level (src : Source) (root : Symbol) : (initial src root).Level :=
  ⟨rfl, ⟨.singleton _, rfl⟩, rfl, rfl, rfl⟩

/-- A level state without open phrases is as it was before the walk. -/
theorem Level.isRestored {s : ReferenceState} (h : s.Level) (hf : s.frames = []) : s.isRestored = true := by
  unfold Level at h
  rw [hf] at h
  have hcursors : s.cursors.length = 1 := h.cursors
  have hscopes : s.scopes.length = 1 := h.scopes
  have hclasses : s.resolver.classes = [] := List.length_eq_zero_iff.1 h.classes
  have hdepth : s.locals.depth = 1 := by
    have hk := congrArg List.length h.kinds
    unfold FlowTypes.kinds at hk
    rw [List.length_cons, List.length_map] at hk
    exact hk
  unfold ReferenceState.isRestored
  rw [hf, hcursors, hscopes, hclasses, hdepth]
  rfl

end ReferenceState

end CodeAtlas
