import CodeAtlas.Proofs.FlowEnvironment
import CodeAtlas.Proofs.ReferenceSteps
import Mathlib.Data.List.Chain

/-!
# The stack of the table of variables

Scopes and branches of the table of variables are opened and closed in pairs.  Besides the kinds of its frames it is
kept that branches wait only below a branch that is still open (`Settled`), so that none is left at the end.
-/

namespace CodeAtlas

namespace FlowTypes

/-- The kinds of the frames, innermost first. -/
def kinds (t : FlowTypes) : List FlowKind :=
  t.top.kind :: t.below.map (·.kind)

/-- Below the innermost frame, branches wait only under an open branch. -/
def Chained (t : FlowTypes) : Prop :=
  List.IsChain (fun above f : FlowFrame => above.kind = .branch ∨ f.branches = []) (t.top :: t.below)

/-- Branches wait only under an open branch; none waits at the innermost frame. -/
def Settled (t : FlowTypes) : Prop :=
  t.Chained ∧ t.top.branches = []

private theorem chained_of_top {t : FlowTypes} {top : FlowFrame} (h : t.Chained) (hk : top.kind = t.top.kind) :
    (FlowTypes.mk top t.below).Chained := by
  obtain ⟨old, below⟩ := t
  unfold Chained at h ⊢
  cases below with
  | nil => exact .singleton _
  | cons f below =>
    rw [List.isChain_cons_cons] at h ⊢
    exact ⟨by rw [hk]; exact h.1, h.2⟩

theorem SameStack.kinds {t t' : FlowTypes} (h : t.SameStack t') : t'.kinds = t.kinds := by
  unfold FlowTypes.kinds
  rw [h.kind, h.below]

theorem SameStack.settled {t t' : FlowTypes} (h : t.SameStack t') (hs : t.Settled) : t'.Settled := by
  obtain ⟨top', below'⟩ := t'
  obtain rfl : below' = t.below := h.below
  exact ⟨chained_of_top hs.1 h.kind, h.branches.trans hs.2⟩

theorem settled_startBranch {t : FlowTypes} (h : t.Chained) : t.startBranch.Settled :=
  ⟨List.isChain_cons_cons.2 ⟨Or.inl rfl, h⟩, rfl⟩

theorem kinds_enterScope (t : FlowTypes) (carried : List String) : (t.enterScope carried).kinds = .scope :: t.kinds := by
  unfold kinds
  rw [enterScope_top_kind]
  rfl

theorem settled_enterScope {t : FlowTypes} (h : t.Settled) (carried : List String) : (t.enterScope carried).Settled :=
  ⟨List.isChain_cons_cons.2 ⟨Or.inr h.2, h.1⟩, t.enterScope_top_branches carried⟩

/-- Closing the innermost branch leaves it waiting at the frame below. -/
theorem endBranch_chained {t : FlowTypes} {ks : List FlowKind} (hk : t.kinds = .branch :: ks) (hks : ks ≠ [])
    (h : t.Chained) : t.endBranch.kinds = ks ∧ t.endBranch.Chained := by
  obtain ⟨top, below⟩ := t
  obtain ⟨hkind, rfl⟩ : top.kind = .branch ∧ below.map (·.kind) = ks := List.cons.inj hk
  cases below with
  | nil => exact absurd rfl hks
  | cons f below =>
    have he : (FlowTypes.mk top (f :: below)).endBranch = ⟨{ f with branches := f.branches ++ [top] }, below⟩ := by
      unfold endBranch
      rw [hkind]
    have hf : (FlowTypes.mk f below).Chained := (List.isChain_cons_cons.1 h).2
    rw [he]
    exact ⟨rfl, chained_of_top hf rfl⟩

/-- Closing the innermost scope leaves nothing behind. -/
theorem leaveScope_settled {t : FlowTypes} {ks : List FlowKind} (hk : t.kinds = .scope :: ks) (hks : ks ≠ [])
    (h : t.Settled) : t.leaveScope.kinds = ks ∧ t.leaveScope.Settled := by
  obtain ⟨top, below⟩ := t
  obtain ⟨hkind, rfl⟩ : top.kind = .scope ∧ below.map (·.kind) = ks := List.cons.inj hk
  cases below with
  | nil => exact absurd rfl hks
  | cons f below =>
    have he : (FlowTypes.mk top (f :: below)).leaveScope = ⟨f, below⟩ := by
      unfold leaveScope
      rw [hkind]
    obtain ⟨hlink, hf⟩ := List.isChain_cons_cons.1 h.1
    rw [he]
    refine ⟨rfl, hf, ?_⟩
    -- the frame below is under a scope, so no branch can wait there
    rcases hlink with hb | hb
    · rw [hkind] at hb
      cases hb
    · exact hb

theorem kinds_mergeBranches (t : FlowTypes) : t.mergeBranches.kinds = t.kinds := by
  unfold kinds
  rw [mergeBranches_top_kind, mergeBranches_below]

theorem settled_mergeBranches {t : FlowTypes} (h : t.Chained) : t.mergeBranches.Settled := by
  have hc : (FlowTypes.mk t.mergeBranches.top t.below).Chained := chained_of_top h t.mergeBranches_top_kind
  rw [← t.mergeBranches_below] at hc
  exact ⟨hc, t.mergeBranches_top_branches⟩

end FlowTypes

end CodeAtlas
