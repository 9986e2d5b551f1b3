import CodeAtlas.Proofs.InStep

/-!
# Crossing phrases in step

How both walks get into a phrase in step and out of it again (`Crossing`), and from this, over the tree, that they stay
in step over every node (`InStep.walkNode`).
-/

namespace CodeAtlas

/-! ### Phrases that both walks look into -/

/-- The declaration walk right before a phrase is left that was entered in the state `t`. -/
def DeclarationState.beforeLeaving (src : Source) (path : List Phrase) (p : Phrase) (t : DeclarationState) :
    DeclarationState :=
  (visitor src).walkNodes (p :: path) p.children (t.enter src p).1

/-- What both walks do with a phrase that both look into, when they come to it in the states `t` and `s`: inside it
they are in step on `inner`, and they come out of it in step on `final`. -/
structure Crossing (env : ReferenceInput) (path : List Phrase) (p : Phrase) (t : DeclarationState) (s : ReferenceState)
    (final : Symbol) (rest : List Cursor) (inner : Symbol) (rest' : List Cursor) (exit : Unwinding) : Prop where
  entered : (s.enter env p path).2 = true
  inStep : InStep inner rest' (t.enter env.source p).1 (s.enter env p path).1
  exits : (s.enter env p path).1.frames.map (·.exit) = exit :: s.frames.map (·.exit)
  leads : (t.beforeLeaving env.source path p).Leads inner
  leave : ∀ s' : ReferenceState, InStep inner rest' (t.beforeLeaving env.source path p) s' →
    s'.frames.map (·.exit) = exit :: s.frames.map (·.exit) →
    InStep final rest ((t.beforeLeaving env.source path p).leave p) (s'.leave env p) ∧
      (s'.leave env p).frames.map (·.exit) = s.frames.map (·.exit)
  taken : ∀ family, p.kind.family? = some family →
    s.nextSymbol? family = some inner ∧ (t.beforeLeaving env.source path p).opened.head? = some inner

theorem DeclarationState.Leads.of_growth {t t' : DeclarationState} {final : Symbol} (hl : t'.Leads final)
    (h : List.Forall₂ Symbol.GrowsQuietly t.opened t'.opened) : t.Leads final := by
  obtain ⟨top', below', ht', hg⟩ := hl
  rw [ht'] at h
  obtain ⟨top, below, hq, -, ht⟩ := List.forall₂_cons_right_iff.1 h
  exact ⟨top, below, ht, hq.grows.trans hg⟩

section

variable {env : ReferenceInput} {path : List Phrase} {p : Phrase} {t : DeclarationState} {s : ReferenceState}
  {final : Symbol} {rest : List Cursor}

private theorem crossing_plain (h : InStep final rest t s) (hk : p.kind.declares = false)
    (hd : (t.enter env.source p).2 = true)
    (hl : ((t.beforeLeaving env.source path p).leave p).Leads final) :
    Crossing env path p t s final rest final rest .nothing := by
  have hfam : p.kind.family? = none := by
    unfold PhraseKind.declares at hk
    rw [Bool.or_eq_false_iff, Bool.or_eq_false_iff] at hk
    exact Option.not_isSome_iff_eq_none.1 (by rw [hk.1.1]; exact Bool.false_ne_true)
  -- the reference walk refuses no phrase that the declaration walk looks into
  have hopen : s.Inside .nothing (s.enter env p path).1 ∧ (s.enter env p path).2 = true := by
    rcases (ReferenceState.enter_plain env s p path hk).inside with ⟨hf, -⟩ | ⟨ht, hin⟩
    · rw [DeclarationState.enter_snd, Bool.and_eq_true] at hd
      rw [ReferenceState.enter_snd, hd.1] at hf
      cases hf
    · exact ⟨hin, ht⟩
  obtain ⟨hin, hent⟩ := hopen
  have hq : ∃ t₁, t.Quiet t₁ ∧ (t.enter env.source p).1 = (DeclarationState.within .plain t₁).1 := by
    have he := DeclarationState.enter_plain env.source t p hk
    revert he hd
    generalize t.enter env.source p = result
    intro hd he
    cases he with
    | refused hq => cases hd
    | entered hq => exact ⟨_, hq, rfl⟩
  obtain ⟨t₁, hq, ht₁⟩ := hq
  have hframes : (t.beforeLeaving env.source path p).frames = .plain :: t₁.frames := by
    have hp := DeclarationState.walkNodes_progress env.source (p :: path) p.children (t.enter env.source p).1
      (by rw [ht₁]; exact (hq.progress h.ne_nil).ne_nil)
    unfold DeclarationState.beforeLeaving
    rw [hp.frames, ht₁]
    rfl
  have hleave := DeclarationState.leave_growth hframes (Or.inl rfl) p
  refine ⟨hent, ?_, hin.exits, hl.of_growth hleave.1, ?_, ?_⟩
  · rw [ht₁]
    exact h.moved hq.opened hin.cursors (by rw [hin.resolver, h.resolver]; exact hq.resolver.symm)
  · intro s' h' hx
    obtain ⟨s₁, hr, hc, hx₁, hs⟩ := ReferenceState.leave_steady env s' p hx
    refine ⟨h'.moved hleave.1 (hs.cursors.trans hc) ?_, hs.exits.trans hx₁⟩
    rw [hs.resolver, hleave.2.2, if_pos rfl, ← h'.resolver]
    exact hr
  · intro family hf
    rw [hfam] at hf
    cases hf

private theorem crossing_space (h : InStep final rest t s) (hk : p.kind = .namespaceDefinition)
    (hl : ((t.beforeLeaving env.source path p).leave p).Leads final) :
    Crossing env path p t s final rest final rest (if Source.isBraced p then .leaveSpace else .nothing) := by
  have hq := DeclarationState.spaceDefinition_quiet env.source t p
  have hs := ReferenceState.spaceDefinition_steady env.source s p
  have ht := DeclarationState.enter_space env.source t p hk
  have he := ReferenceState.enter_space env s p path hk
  have hframes : (t.beforeLeaving env.source path p).frames =
      (if Source.isBraced p then .bracedSpace else .plain) :: t.frames := by
    have hp := DeclarationState.walkNodes_progress env.source (p :: path) p.children (t.enter env.source p).1
      (by rw [ht]; exact (hq.progress h.ne_nil).ne_nil)
    unfold DeclarationState.beforeLeaving
    rw [hp.frames, ht]
    exact congrArg (_ :: ·) hq.frames
  have hleave := DeclarationState.leave_growth hframes (by split <;> simp) p
  refine ⟨by rw [he]; rfl, ?_, ?_, hl.of_growth hleave.1, ?_, ?_⟩
  · rw [ht, he]
    refine h.moved hq.opened hs.cursors ?_
    show (s.spaceDefinition env.source p).resolver = (t.spaceDefinition env.source p).resolver
    rw [hs.resolver, hq.resolver, h.resolver]
  · rw [he]
    exact congrArg (_ :: ·) hs.exits
  · intro s' h' hx
    obtain ⟨s₁, hr, hc, hx₁, hst⟩ := ReferenceState.leave_steady env s' p hx
    refine ⟨h'.moved hleave.1 ?_ ?_, ?_⟩
    · rw [hst.cursors]
      split <;> exact hc
    · rw [hst.resolver, hleave.2.2, ← h'.resolver, ← hr]
      split <;> rfl
    · rw [hst.exits, ReferenceState.frames_unwind, hx₁]
  · intro family hf
    rw [hk] at hf
    cases hf

private theorem crossing_declaration (h : InStep final rest t s) {family : DeclarationFamily}
    (hk : p.kind.family? = some family) (hl : ((t.beforeLeaving env.source path p).leave p).Leads final) :
    ∃ inner rest' exit, Crossing env path p t s final rest inner rest' exit := by
  have hp : (t.enter env.source p).1.Progress (t.beforeLeaving env.source path p) := by
    obtain ⟨-, symbol, outer, -, -, ho, -⟩ := (DeclarationState.enter_declaration env.source t p hk).opens
    exact DeclarationState.walkNodes_progress env.source (p :: path) p.children (t.enter env.source p).1
      (by rw [ho]; exact List.cons_ne_nil symbol outer)
  obtain ⟨-, symbol, built, top, below, hd⟩ := DeclarationState.declares_of_progress env.source hk h.ne_nil hp
  obtain ⟨hn, ha⟩ := hd.taken h hl
  obtain ⟨hent, hr, hc, hx⟩ := ReferenceState.enter_taken env s p path hk hn
  rw [ha] at hr hc hx
  refine ⟨built, _, ReferenceState.exitOf family, hent, hd.inStep_enter h hr hc, hx,
    ⟨built, _, hd.finished, Symbol.Grows.refl built⟩, ?_, ?_⟩
  · intro s' h' hx'
    obtain ⟨_, _, -, hc'⟩ := h'.cursors
    obtain ⟨hr₃, hc₃, hx₃⟩ := ReferenceState.leave_taken env s' p hx' hc'
    exact ⟨hd.inStep_leave h'.resolver hr₃ hc₃, hx₃⟩
  · intro family' hf
    obtain rfl : family = family' := Option.some.inj (hk.symm.trans hf)
    exact ⟨hn, by rw [hd.finished]; rfl⟩

/-- A phrase that the declaration walk looks into. -/
theorem exists_crossing (h : InStep final rest t s) (hd : (t.enter env.source p).2 = true)
    (hl : ((t.beforeLeaving env.source path p).leave p).Leads final) :
    ∃ inner rest' exit, Crossing env path p t s final rest inner rest' exit := by
  cases hk : p.kind.declares with
  | false => exact ⟨_, _, _, crossing_plain h hk hd hl⟩
  | true =>
    rcases ReferenceState.declares_cases hk with ⟨family, hf⟩ | hi | hn
    · exact crossing_declaration h hf hl
    · rw [DeclarationState.enter_imports env.source t p hi] at hd
      cases hd
    · exact ⟨_, _, _, crossing_space h hn hl⟩

end

/-! ### Whole walks -/

section

variable {env : ReferenceInput} {final : Symbol} {rest : List Cursor}

/-- A phrase that the declaration walk does not look into. -/
theorem InStep.refused {p : Phrase} {t : DeclarationState} {s : ReferenceState}
    (h : InStep final rest t s) (hk : p.kind.declares = false) (hd : (t.enter env.source p).2 = false)
    {s' : ReferenceState} (hs : s.Steady s') : InStep final rest (t.enter env.source p).1 s' := by
  have he := DeclarationState.enter_plain env.source t p hk
  revert he hd
  generalize t.enter env.source p = result
  intro hd he
  cases he with
  | refused hq => exact h.moved hq.opened hs.cursors (by rw [hs.resolver, hq.resolver, h.resolver])
  | entered hq => cases hd

/-- Of the declarations only imports are not looked into. -/
theorem imports_of_refused {src : Source} {p : Phrase} {t : DeclarationState} (hk : p.kind.declares = true)
    (hd : (t.enter src p).2 = false) : p.kind = .namespaceUseDeclaration := by
  rcases ReferenceState.declares_cases hk with ⟨family, hf⟩ | hi | hn
  · rw [(DeclarationState.enter_declaration src t p hf).opens.1] at hd
    cases hd
  · exact hi
  · rw [DeclarationState.enter_space src t p hn] at hd
    cases hd

/-- Only what hides its inside is looked into by the reference walk alone. -/
theorem hides_of_entered {path : List Phrase} {p : Phrase} {t : DeclarationState} {s : ReferenceState}
    (hd : (t.enter env.source p).2 = false) (hs : (s.enter env p path).2 = true) : p.kind.hides = true := by
  rw [DeclarationState.enter_snd] at hd
  rw [ReferenceState.enter_snd] at hs
  rw [hs, Bool.true_and, Bool.not_eq_false'] at hd
  exact hd

/-- What a walk over some part of the tree has to do: both walks stay in step, and the same phrases stay open. -/
def StaysInStep (final : Symbol) (rest : List Cursor) (t' : DeclarationState) (s s' : ReferenceState) : Prop :=
  InStep final rest t' s' ∧ s'.frames.map (·.exit) = s.frames.map (·.exit)

/-- A phrase that the declaration walk looks into, once the walk over its children is known. -/
private theorem InStep.over_entered {path : List Phrase} {kind : PhraseKind} {children : List Node}
    {t t' : DeclarationState} {s : ReferenceState} (h : InStep final rest t s)
    (hr : t.enter env.source ⟨kind, children⟩ = (t', true))
    (hl : ((DeclarationState.visitor env.source).walkNode path (.phrase kind children) t).Leads final)
    (hwalk : ∀ (inner : Symbol) (rest' : List Cursor) (s' : ReferenceState), InStep inner rest' t' s' →
      ((DeclarationState.visitor env.source).walkNodes (⟨kind, children⟩ :: path) children t').Leads inner →
      StaysInStep inner rest' ((DeclarationState.visitor env.source).walkNodes (⟨kind, children⟩ :: path) children t')
        s' ((ReferenceState.visitor env).walkNodes (⟨kind, children⟩ :: path) children s')) :
    StaysInStep final rest ((DeclarationState.visitor env.source).walkNode path (.phrase kind children) t) s
      ((ReferenceState.visitor env).walkNode path (.phrase kind children) s) := by
  have hb : t.beforeLeaving env.source path ⟨kind, children⟩ =
      (DeclarationState.visitor env.source).walkNodes (⟨kind, children⟩ :: path) children t' := by
    unfold DeclarationState.beforeLeaving
    rw [hr]
  have hleave : (DeclarationState.visitor env.source).walkNode path (.phrase kind children) t =
      (t.beforeLeaving env.source path ⟨kind, children⟩).leave ⟨kind, children⟩ := by
    rw [hb]
    exact Visitor.walkNode_entered _ hr
  rw [hleave] at hl ⊢
  obtain ⟨inner, rest', exit, hc⟩ := exists_crossing h (congrArg Prod.snd hr) hl
  have hs : s.enter env ⟨kind, children⟩ path = ((s.enter env ⟨kind, children⟩ path).1, true) :=
    Prod.ext rfl hc.entered
  have hin := hc.inStep
  have hleads := hc.leads
  rw [hr] at hin
  rw [hb] at hleads
  obtain ⟨hin', hexits⟩ := hwalk inner rest' _ hin hleads
  rw [← hb] at hin'
  rw [Visitor.walkNode_entered _ hs]
  exact hc.leave _ hin' (hexits.trans hc.exits)

/-- A phrase that the declaration walk does not look into. -/
private theorem InStep.over_refused {path : List Phrase} {kind : PhraseKind} {children : List Node}
    {t t' : DeclarationState} {s : ReferenceState} (h : InStep final rest t s)
    (hx : kind.hides = true → Node.anyDeclaration children = false)
    (hr : t.enter env.source ⟨kind, children⟩ = (t', false)) (hl : t'.Leads final) :
    StaysInStep final rest t' s ((ReferenceState.visitor env).walkNode path (.phrase kind children) s) := by
  cases hk : kind.declares with
  | false =>
    have hst : s.Steady ((ReferenceState.visitor env).walkNode path (.phrase kind children) s) := by
      refine ReferenceState.walkNode_steady_of_children env hk fun s' hs' => ?_
      have hh : kind.hides = true := hides_of_entered (congrArg Prod.snd hr) (congrArg Prod.snd hs')
      exact ReferenceState.walkNodes_steady env _ children s' (hx hh)
    have hstep : InStep final rest (t.enter env.source ⟨kind, children⟩).1 _ :=
      h.refused hk (congrArg Prod.snd hr) hst
    rw [hr] at hstep
    exact ⟨hstep, hst.exits⟩
  | true =>
    have hi : kind = .namespaceUseDeclaration := imports_of_refused hk (congrArg Prod.snd hr)
    have ht := DeclarationState.enter_imports env.source t ⟨kind, children⟩ hi
    rw [hr] at ht
    cases ht
    rw [Visitor.walkNode_refused _ (ReferenceState.enter_imports env s ⟨kind, children⟩ path hi)]
    exact InStep.useClauses (Source.importedKind_ne_method SymbolKind.noConfusion) _ h hl

mutual

/-- A walk over a node keeps both walks in step. -/
theorem InStep.walkNode (path : List Phrase) {final : Symbol} {rest : List Cursor} :
    ∀ (n : Node) (t : DeclarationState) (s : ReferenceState), n.exposes = true → InStep final rest t s →
      ((DeclarationState.visitor env.source).walkNode path n t).Leads final →
      StaysInStep final rest ((DeclarationState.visitor env.source).walkNode path n t) s
        ((ReferenceState.visitor env).walkNode path n s)
  | .token k, t, s, _, h, _ => by
    have hq := DeclarationState.Quiet.token env.source t k
    have hs := (ReferenceState.Quiet.token env.source s k).steady
    rw [Visitor.walkNode, Visitor.walkNode]
    exact ⟨h.moved hq.opened hs.cursors ((hs.resolver.trans h.resolver).trans hq.resolver.symm), hs.exits⟩
  | .phrase kind children, t, s, hx, h, hl => by
    rw [Node.exposes, Bool.and_eq_true] at hx
    rcases hr : t.enter env.source ⟨kind, children⟩ with ⟨t', entered⟩
    cases entered with
    | true =>
      exact h.over_entered hr hl fun inner rest' s' hin hleads =>
        InStep.walkNodes (⟨kind, children⟩ :: path) children t' s' hx.2 hin hleads
    | false =>
      rw [Visitor.walkNode_refused _ hr] at hl ⊢
      refine h.over_refused (fun hh => ?_) hr hl
      rw [hh, Bool.true_and, Bool.not_eq_true'] at hx
      exact hx.1

theorem InStep.walkNodes (path : List Phrase) {final : Symbol} {rest : List Cursor} :
    ∀ (ns : List Node) (t : DeclarationState) (s : ReferenceState), Node.allExpose ns = true →
      InStep final rest t s → ((DeclarationState.visitor env.source).walkNodes path ns t).Leads final →
      StaysInStep final rest ((DeclarationState.visitor env.source).walkNodes path ns t) s
        ((ReferenceState.visitor env).walkNodes path ns s)
  | [], t, s, _, h, _ => by
    rw [Visitor.walkNodes, Visitor.walkNodes]
    exact ⟨h, rfl⟩
  | n :: ns, t, s, hx, h, hl => by
    rw [Node.allExpose, Bool.and_eq_true] at hx
    rw [Visitor.walkNodes] at hl
    rw [Visitor.walkNodes, Visitor.walkNodes]
    have hn := DeclarationState.walkNode_progress env.source path n t h.ne_nil
    have hns := DeclarationState.walkNodes_progress env.source path ns _ hn.ne_nil
    obtain ⟨h₁, hx₁⟩ := InStep.walkNode path n t s hx.1 h (hns.leads hl)
    obtain ⟨h₂, hx₂⟩ := InStep.walkNodes path ns _ _ hx.2 h₁ hl
    exact ⟨h₂, hx₂.trans hx₁⟩

end

end

end CodeAtlas
