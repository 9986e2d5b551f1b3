import CodeAtlas.Proofs.DeclarationSteps
import CodeAtlas.Proofs.Walk

/-!
# The reference walk between declarations

Where nothing is declared, the reference walk comes out as it went in: with the same naming context, on the same
cursors and with the same phrases to leave (`walkNode_steady`).  This is what allows it to look into phrases that the
declaration walk skips, as long as these hide no declaration (`Node.exposes`).
-/

namespace CodeAtlas

/-! ### Hidden declarations -/

mutual

/-- Whether the node is a declaration or has one inside. -/
def Node.hasDeclaration : Node → Bool
  | .token _ => false
  | .phrase kind children => kind.declares || Node.anyDeclaration children

def Node.anyDeclaration : List Node → Bool
  | [] => false
  | n :: ns => n.hasDeclaration || Node.anyDeclaration ns

end

mutual

/-- No declaration is inside a phrase that the declaration walk does not look into. -/
def Node.exposes : Node → Bool
  | .token _ => true
  | .phrase kind children => !(kind.hides && Node.anyDeclaration children) && Node.allExpose children

def Node.allExpose : List Node → Bool
  | [] => true
  | n :: ns => n.exposes && Node.allExpose ns

end

namespace Node

theorem anyDeclaration_of_mem {n : Node} {ns : List Node} (h : anyDeclaration ns = false) (hn : n ∈ ns) :
    n.hasDeclaration = false := by
  induction ns with
  | nil => exact nomatch hn
  | cons m ns ih =>
    rw [anyDeclaration, Bool.or_eq_false_iff] at h
    rcases List.mem_cons.1 hn with rfl | hn
    · exact h.1
    · exact ih h.2 hn

theorem allExpose_append (ms ns : List Node) : allExpose (ms ++ ns) = (allExpose ms && allExpose ns) := by
  induction ms with
  | nil => rfl
  | cons m ms ih => rw [List.cons_append, allExpose, allExpose, ih, Bool.and_assoc]

end Node

/-! ### The reference walk between declarations -/

namespace ReferenceState

/-- `s'` is at the same place among the declarations as `s`. -/
structure Steady (s s' : ReferenceState) : Prop where
  resolver : s'.resolver = s.resolver
  cursors : s'.cursors = s.cursors
  exits : s'.frames.map (·.exit) = s.frames.map (·.exit)

theorem Steady.trans {s s' s'' : ReferenceState} (h : s.Steady s') (h' : s'.Steady s'') : s.Steady s'' :=
  ⟨h'.resolver.trans h.resolver, h'.cursors.trans h.cursors, h'.exits.trans h.exits⟩

theorem Quiet.steady {s s' : ReferenceState} (h : s.Quiet s') : s.Steady s' := by
  refine ⟨h.resolver, h.cursors, ?_⟩
  have hx := congrArg (List.map Prod.snd) h.frames
  rwa [List.map_map, List.map_map] at hx

theorem Finished.steady {s s' : ReferenceState} {transform : Reduction} (h : s.Finished transform s') :
    s.Steady s' := by
  cases h with
  | quiet _ hq => exact hq.steady
  | arms _ _ _ => exact ⟨rfl, rfl, rfl⟩

theorem nextConditionalArm_steady (s : ReferenceState) (kind : PhraseKind) : s.Steady (s.nextConditionalArm kind) := by
  unfold nextConditionalArm
  split
  · rename_i frame rest hf
    split
    · exact ⟨rfl, rfl, by rw [hf]; rfl⟩
    · exact ⟨rfl, rfl, rfl⟩
  · exact ⟨rfl, rfl, rfl⟩

theorem nextSwitchArm_steady (s : ReferenceState) (kind : PhraseKind) : s.Steady (s.nextSwitchArm kind) := by
  unfold nextSwitchArm
  split
  · rename_i frame rest hf
    split
    · exact ⟨rfl, rfl, by rw [hf]; rfl⟩
    · exact ⟨rfl, rfl, rfl⟩
  · exact ⟨rfl, rfl, rfl⟩

/-- `s'` is `s` inside one more phrase, which `exit` undoes. -/
structure Inside (s : ReferenceState) (exit : Unwinding) (s' : ReferenceState) : Prop where
  resolver : s'.resolver = s.resolver
  cursors : s'.cursors = s.cursors
  exits : s'.frames.map (·.exit) = exit :: s.frames.map (·.exit)

theorem Steady.within {s s' : ReferenceState} (h : s.Steady s') (p : Phrase) (transform : Reduction)
    (exit : Unwinding) : s.Inside exit (within p transform exit s').1 :=
  ⟨h.resolver, h.cursors, congrArg (exit :: ·) h.exits⟩

/-- The phrases that the reference walk looks into. -/
theorem enter_snd (env : ReferenceInput) (s : ReferenceState) (p : Phrase) (path : List Phrase) :
    (s.enter env p path).2 = (p.kind != .error && p.kind != .namespaceUseDeclaration) := by
  obtain ⟨kind, children⟩ := p
  cases kind <;> rfl

theorem PlainEntry.inside {s : ReferenceState} {p : Phrase} {result : ReferenceState × Bool}
    (h : s.PlainEntry p result) :
    result.2 = false ∧ s.Steady result.1 ∨ result.2 = true ∧ s.Inside .nothing result.1 := by
  cases h with
  | refused hq => exact Or.inl ⟨rfl, hq.steady⟩
  | quiet hq _ => exact Or.inr ⟨rfl, hq.steady.within p _ _⟩
  | conditional hq =>
    have hs := hq.steady
    exact Or.inr ⟨rfl, hs.resolver, hs.cursors, congrArg (_ :: ·) hs.exits⟩
  | conditionalArm hq => exact Or.inr ⟨rfl, (hq.steady.trans (nextConditionalArm_steady _ _)).within p _ _⟩
  | switchArm hq => exact Or.inr ⟨rfl, (hq.steady.trans (nextSwitchArm_steady _ _)).within p _ _⟩

/-- A namespace definition is steady apart from the namespace that it sets. -/
theorem spaceDefinition_steady (src : Source) (s : ReferenceState) (p : Phrase) :
    Steady { s with resolver := s.resolver.setSpace (src.spaceName p) } (s.spaceDefinition src p) := by
  unfold spaceDefinition
  simp only
  split
  · exact ⟨rfl, rfl, rfl⟩
  · split
    · exact ⟨rfl, rfl, rfl⟩
    · exact (Quiet.record _ _).steady

/-- Leaving a phrase, as far as declarations are concerned. -/
theorem leave_steady (env : ReferenceInput) (s : ReferenceState) (p : Phrase) {exit : Unwinding}
    {exits : List Unwinding} (h : s.frames.map (·.exit) = exit :: exits) :
    ∃ s₁ : ReferenceState, s₁.resolver = s.resolver ∧ s₁.cursors = s.cursors ∧ s₁.frames.map (·.exit) = exits ∧
      (s₁.unwind exit).Steady (s.leave env p) := by
  cases hf : s.frames with
  | nil =>
    rw [hf] at h
    cases h
  | cons frame rest =>
    rw [hf] at h
    obtain ⟨rfl, rfl⟩ := List.cons.inj h
    obtain ⟨s₁, hfin, hq⟩ := leave_cons env s p hf
    have hs := hfin.steady
    exact ⟨s₁, hs.resolver, hs.cursors, hs.exits, hq.steady⟩

theorem leave_plain_steady (env : ReferenceInput) {s s' : ReferenceState} (p : Phrase) (h : s.Inside .nothing s') :
    s.Steady (s'.leave env p) := by
  obtain ⟨s₁, hr, hc, hx, hs⟩ := leave_steady env s' p h.exits
  have h₁ : s.Steady s₁ := ⟨hr.trans h.resolver, hc.trans h.cursors, hx⟩
  exact h₁.trans hs

theorem Inside.steady {s s' s'' : ReferenceState} {exit : Unwinding} (h : s.Inside exit s') (h' : s'.Steady s'') :
    s.Inside exit s'' :=
  ⟨h'.resolver.trans h.resolver, h'.cursors.trans h.cursors, h'.exits.trans h.exits⟩

/-- A phrase that declares nothing itself. -/
theorem walkNode_steady_of_children (env : ReferenceInput) {path : List Phrase} {kind : PhraseKind}
    {children : List Node} {s : ReferenceState} (hk : kind.declares = false)
    (h : ∀ s', s.enter env ⟨kind, children⟩ path = (s', true) →
      s'.Steady ((visitor env).walkNodes (⟨kind, children⟩ :: path) children s')) :
    s.Steady ((visitor env).walkNode path (.phrase kind children) s) := by
  have he := (enter_plain env s ⟨kind, children⟩ path hk).inside
  rcases hr : s.enter env ⟨kind, children⟩ path with ⟨s', entered⟩
  rw [hr] at he
  rcases he with ⟨hf, hs⟩ | ⟨ht, hs⟩
  · cases hf
    rw [Visitor.walkNode_refused _ hr]
    exact hs
  · cases ht
    rw [Visitor.walkNode_entered _ hr]
    exact leave_plain_steady env _ (hs.steady (h s' hr))

mutual

/-- Where nothing is declared, the reference walk comes out as it went in. -/
theorem walkNode_steady (env : ReferenceInput) (path : List Phrase) : ∀ (n : Node) (s : ReferenceState),
    n.hasDeclaration = false → s.Steady ((visitor env).walkNode path n s)
  | .token t, s, _ => by
    rw [Visitor.walkNode]
    exact (Quiet.token env.source s t).steady
  | .phrase kind children, s, h => by
    rw [Node.hasDeclaration, Bool.or_eq_false_iff] at h
    exact walkNode_steady_of_children env h.1 fun s' _ => walkNodes_steady env _ children s' h.2

theorem walkNodes_steady (env : ReferenceInput) (path : List Phrase) : ∀ (ns : List Node) (s : ReferenceState),
    Node.anyDeclaration ns = false → s.Steady ((visitor env).walkNodes path ns s)
  | [], s, _ => by
    rw [Visitor.walkNodes]
    exact ⟨rfl, rfl, rfl⟩
  | n :: ns, s, h => by
    rw [Node.anyDeclaration, Bool.or_eq_false_iff] at h
    rw [Visitor.walkNodes]
    exact (walkNode_steady env path n s h.1).trans (walkNodes_steady env path ns _ h.2)

end

end ReferenceState

end CodeAtlas
