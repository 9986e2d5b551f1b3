import CodeAtlas.Proofs.DeclarationSteps
import CodeAtlas.Proofs.Walk

/-!
# Growth along the declaration walk

Over a node of the tree the innermost open symbol grows, the symbols around it grow quietly, and the same phrases stay
open (`walkNode_progress`).  For a declaration `Declares` says more: the symbol that is opened becomes, grown, the last
child of the symbol around it.
-/

namespace CodeAtlas

namespace DeclarationFamily

/-- The naming context inside a declaration of the family. -/
def into (family : DeclarationFamily) (symbol : Symbol) (r : Resolver) : Resolver :=
  if family.isClass then r.intoClass symbol.name symbol.baseName else r

/-- The naming context after a declaration of the family. -/
def outOf (family : DeclarationFamily) (r : Resolver) : Resolver :=
  if family.isClass then r.outOfClass else r

end DeclarationFamily

namespace DeclarationState

/-- The innermost open symbol has grown, those around it have grown quietly, and the same phrases are open. -/
structure Progress (t t' : DeclarationState) : Prop where
  frames : t'.frames = t.frames
  opened : ∃ top below top' below', t.opened = top :: below ∧ t'.opened = top' :: below' ∧ top.Grows top' ∧
    List.Forall₂ Symbol.GrowsQuietly below below'

theorem Progress.trans {t t' t'' : DeclarationState} (h : t.Progress t') (h' : t'.Progress t'') : t.Progress t'' := by
  obtain ⟨top, below, top', below', ht, ht', hg, hb⟩ := h.opened
  obtain ⟨_, _, top'', below'', hu, hu', hg', hb'⟩ := h'.opened
  obtain ⟨rfl, rfl⟩ := List.cons.inj (ht'.symm.trans hu)
  exact ⟨h'.frames.trans h.frames, top, below, top'', below'', ht, hu', hg.trans hg',
    Symbol.allGrowQuietly_trans hb hb'⟩

theorem Progress.ne_nil {t t' : DeclarationState} (h : t.Progress t') : t'.opened ≠ [] := by
  obtain ⟨_, _, _, _, -, ht', -, -⟩ := h.opened
  rw [ht']
  exact List.cons_ne_nil _ _

/-- Quiet growth of the open symbols is progress. -/
theorem progress_of_growth {t t' : DeclarationState} (hf : t'.frames = t.frames)
    (h : List.Forall₂ Symbol.GrowsQuietly t.opened t'.opened) (hne : t.opened ≠ []) : t.Progress t' := by
  cases ht : t.opened with
  | nil => exact absurd ht hne
  | cons top below =>
    rw [ht] at h
    cases ht' : t'.opened with
    | nil =>
      rw [ht'] at h
      cases h
    | cons top' below' =>
      rw [ht', List.forall₂_cons] at h
      exact ⟨hf, top, below, top', below', ht, ht', h.1.grows, h.2⟩

theorem Quiet.progress {t t' : DeclarationState} (h : t.Quiet t') (hne : t.opened ≠ []) : t.Progress t' :=
  progress_of_growth h.frames h.opened hne

private theorem addChild_progress {t : DeclarationState} (child : Symbol) (hne : t.opened ≠ []) :
    t.Progress (t.addChild child) := by
  unfold addChild
  split
  · rename_i h
    exact absurd h hne
  · rename_i top below h
    exact ⟨rfl, top, below, _, below, h, rfl, Symbol.Grows.addChild top child,
      List.forall₂_same.2 fun a _ => Symbol.GrowsQuietly.refl a⟩

/-- Adds an import to the declarations. -/
def addImport (src : Source) (t : DeclarationState) (i : Source.Import) : DeclarationState :=
  { t with resolver := t.resolver.addImport i.rule }.addChild (src.importSymbol i)

theorem addImport_of_opened (src : Source) {t : DeclarationState} (i : Source.Import) {top : Symbol}
    {below : List Symbol} (h : t.opened = top :: below) : t.addImport src i =
      { t with resolver := t.resolver.addImport i.rule, opened := top.addChild (src.importSymbol i) :: below } := by
  unfold addImport addChild
  simp only
  rw [h]

theorem addImport_progress (src : Source) {t : DeclarationState} (i : Source.Import) (hne : t.opened ≠ []) :
    t.Progress (t.addImport src i) := by
  have h : Progress { t with resolver := t.resolver.addImport i.rule } (t.addImport src i) :=
    addChild_progress (src.importSymbol i) hne
  exact ⟨h.frames, h.opened⟩

theorem addImports_progress (src : Source) (is : List Source.Import) {t : DeclarationState} (hne : t.opened ≠ []) :
    t.Progress (is.foldl (addImport src) t) := by
  induction is generalizing t with
  | nil => exact (Quiet.refl t).progress hne
  | cons i is ih =>
    have h := addImport_progress src i hne
    exact h.trans (ih h.ne_nil)

/-- The declaration walk through a phrase of a family that opens `symbol`: in `t` the phrase is entered, in `t₁` it
has been entered, in `t₂` it is left, with `built` on top of `top`, and in `t₃` it has been left. -/
structure Declares (family : DeclarationFamily) (symbol built top : Symbol) (below : List Symbol)
    (t t₁ t₂ t₃ : DeclarationState) : Prop where
  paired : built.PairedAs (some family)
  fresh : symbol.Fresh
  grows : symbol.Grows built
  entered : ∃ below, t₁.opened = symbol :: below
  finished : t₂.opened = built :: top :: below
  around : List.Forall₂ Symbol.GrowsQuietly t.opened (top :: below)
  left : List.Forall₂ Symbol.GrowsQuietly (top.addChild built :: below) t₃.opened
  frames : t₃.frames = t.frames
  into : t₁.resolver = family.into symbol t.resolver
  outOf : t₃.resolver = family.outOf t₂.resolver

/-- The frame with which a declaration of the family is entered. -/
def frameOf (family : DeclarationFamily) : DeclarationFrame :=
  if family.isClass then .cls else .symbol

/-- Entering a declaration in other words. -/
theorem DeclarationEntry.opens {t : DeclarationState} {family : DeclarationFamily}
    {result : DeclarationState × Bool} (h : t.DeclarationEntry family result) :
    result.2 = true ∧ ∃ symbol outer, symbol.PairedAs (some family) ∧ symbol.Fresh ∧
      result.1.opened = symbol :: outer ∧ List.Forall₂ Symbol.GrowsQuietly t.opened outer ∧
      result.1.frames = frameOf family :: t.frames ∧ result.1.resolver = family.into symbol t.resolver := by
  cases h with
  | cls hf hq hp hn =>
    refine ⟨rfl, _, _, hp, hn, rfl, hq.opened, ?_, ?_⟩
    · unfold frameOf
      rw [if_pos hf]
      exact congrArg _ hq.frames
    · unfold DeclarationFamily.into
      rw [if_pos hf, ← hq.resolver]
      rfl
  | function hf hq hp hn =>
    have hf : ¬ family.isClass = true := by
      rw [hf]
      exact Bool.false_ne_true
    refine ⟨rfl, _, _, hp, hn, rfl, hq.opened, ?_, ?_⟩
    · unfold frameOf
      rw [if_neg hf]
      exact congrArg _ hq.frames
    · unfold DeclarationFamily.into
      rw [if_neg hf, ← hq.resolver]
      rfl

/-- Leaving a declaration makes its symbol a child of the one around it. -/
private theorem leave_declaration {family : DeclarationFamily} {t : DeclarationState} {fs : List DeclarationFrame}
    (hf : t.frames = frameOf family :: fs) {built top : Symbol} {below : List Symbol}
    (ho : t.opened = built :: top :: below) (p : Phrase) :
    List.Forall₂ Symbol.GrowsQuietly (top.addChild built :: below) (t.leave p).opened ∧
      (t.leave p).frames = fs ∧ (t.leave p).resolver = family.outOf t.resolver := by
  have hq := leave_cons hf p
  have hc : { t with frames := fs }.closeTop = { t with frames := fs, opened := top.addChild built :: below } := by
    unfold closeTop
    simp only
    rw [ho]
  have hu : { t with frames := fs }.unwind (frameOf family) =
      { t with frames := fs, opened := top.addChild built :: below, resolver := family.outOf t.resolver } := by
    unfold frameOf DeclarationFamily.outOf
    split
    · rw [unwind, hc]
    · rw [unwind, hc]
  rw [hu] at hq
  exact ⟨hq.opened, hq.frames, hq.resolver⟩

/-- What the walk does with a declaration, once it is known that its children make progress. -/
theorem declares_of_progress (src : Source) {p : Phrase} {family : DeclarationFamily}
    (hk : p.kind.family? = some family) {t t₂ : DeclarationState} (hne : t.opened ≠ [])
    (hp : (t.enter src p).1.Progress t₂) :
    (t.enter src p).2 = true ∧ ∃ symbol built top below,
      Declares family symbol built top below t (t.enter src p).1 t₂ (t₂.leave p) := by
  obtain ⟨hent, symbol, outer, hpair, hfresh, ho, hout, hframes, hres⟩ := (enter_declaration src t p hk).opens
  obtain ⟨_, _, built, outer', ho', ho₂, hgrows, hout'⟩ := hp.opened
  obtain ⟨rfl, rfl⟩ := List.cons.inj (ho.symm.trans ho')
  have haround := Symbol.allGrowQuietly_trans hout hout'
  cases outer' with
  | nil =>
    cases ht : t.opened with
    | nil => exact absurd ht hne
    | cons _ _ =>
      rw [ht] at haround
      cases haround
  | cons top below =>
    have hl := leave_declaration (hp.frames.trans hframes) ho₂ p
    exact ⟨hent, symbol, built, top, below, hpair.congr hgrows.kind hgrows.modifiers, hfresh, hgrows, ⟨_, ho⟩, ho₂,
      haround, hl.1, hl.2.1, hres, hl.2.2⟩

theorem Declares.progress {family : DeclarationFamily} {symbol built top : Symbol} {below : List Symbol}
    {t t₁ t₂ t₃ : DeclarationState} (h : Declares family symbol built top below t t₁ t₂ t₃) : t.Progress t₃ := by
  obtain ⟨top₀, below₀, hg, hb, ho⟩ := List.forall₂_cons_right_iff.1 h.around
  obtain ⟨top₃, below₃, hg₃, hb₃, ho₃⟩ := List.forall₂_cons_left_iff.1 h.left
  exact ⟨h.frames, top₀, below₀, top₃, below₃, ho, ho₃,
    (hg.grows.trans (Symbol.Grows.addChild top built)).trans hg₃.grows, Symbol.allGrowQuietly_trans hb hb₃⟩

/-- Leaving a phrase that opened no symbol. -/
theorem leave_growth {t : DeclarationState} {frame : DeclarationFrame} {fs : List DeclarationFrame}
    (hf : t.frames = frame :: fs) (hframe : frame = .plain ∨ frame = .bracedSpace) (p : Phrase) :
    List.Forall₂ Symbol.GrowsQuietly t.opened (t.leave p).opened ∧ (t.leave p).frames = fs ∧
      (t.leave p).resolver = if frame = .plain then t.resolver else t.resolver.setSpace "" := by
  have hq := leave_cons hf p
  rcases hframe with rfl | rfl
  · exact ⟨hq.opened, hq.frames, hq.resolver⟩
  · exact ⟨hq.opened, hq.frames, hq.resolver⟩

private theorem progress_through {t t₁ t₂ : DeclarationState} {frame : DeclarationFrame}
    (hframe : frame = .plain ∨ frame = .bracedSpace) (hf : t₁.frames = t.frames)
    (ho : List.Forall₂ Symbol.GrowsQuietly t.opened t₁.opened) (hne : t.opened ≠ [])
    (h : t₁.opened ≠ [] → (within frame t₁).1.Progress t₂) (p : Phrase) : t.Progress (t₂.leave p) := by
  have h₁ := progress_of_growth hf ho hne
  have h₂ := h h₁.ne_nil
  have hl := leave_growth h₂.frames hframe p
  have hin : t₁.Progress { t₂ with frames := t₁.frames } := ⟨rfl, h₂.opened⟩
  exact (h₁.trans hin).trans (progress_of_growth hl.2.1 hl.1 h₂.ne_nil)

mutual

/-- Along the declaration walk the open symbols only grow, and only the innermost one gets children in families. -/
theorem walkNode_progress (src : Source) (path : List Phrase) : ∀ (n : Node) (t : DeclarationState),
    t.opened ≠ [] → t.Progress ((visitor src).walkNode path n t)
  | .token k, t, hne => by
    rw [Visitor.walkNode]
    exact (Quiet.token src t k).progress hne
  | .phrase kind children, t, hne => by
    rcases hr : t.enter src ⟨kind, children⟩ with ⟨t', entered⟩
    have hc : t'.opened ≠ [] → t'.Progress ((visitor src).walkNodes (⟨kind, children⟩ :: path) children t') :=
      walkNodes_progress src (⟨kind, children⟩ :: path) children t'
    cases hd : kind.declares with
    | false =>
      have he := enter_plain src t ⟨kind, children⟩ hd
      rw [hr] at he
      cases he with
      | refused hq =>
        rw [Visitor.walkNode_refused _ hr]
        exact hq.progress hne
      | entered hq =>
        rw [Visitor.walkNode_entered _ hr]
        exact progress_through (Or.inl rfl) hq.frames hq.opened hne hc _
    | true =>
      rcases ReferenceState.declares_cases hd with ⟨family, hf⟩ | hi | hn
      -- the children are below the symbol that is opened here, and it becomes a child when the phrase is left
      · obtain ⟨_, symbol, outer, -, -, ho, -⟩ := (enter_declaration src t ⟨kind, children⟩ hf).opens
        have hp : (t.enter src ⟨kind, children⟩).1.Progress
            ((visitor src).walkNodes (⟨kind, children⟩ :: path) children t') := by
          rw [hr] at ho ⊢
          exact hc (ho ▸ List.cons_ne_nil symbol outer)
        obtain ⟨hent, _, _, _, _, h⟩ := declares_of_progress src hf hne hp
        rw [hr] at hent
        cases hent
        rw [Visitor.walkNode_entered _ hr]
        exact h.progress
      · have he := enter_imports src t ⟨kind, children⟩ hi
        rw [hr] at he
        cases he
        rw [Visitor.walkNode_refused _ hr]
        exact addImports_progress src _ hne
      · have he := enter_space src t ⟨kind, children⟩ hn
        rw [hr] at he
        have hq := spaceDefinition_quiet src t ⟨kind, children⟩
        cases he
        rw [Visitor.walkNode_entered _ hr]
        -- with or without braces, leaving the namespace closes no symbol
        have hframe : ∀ b : Bool, (if b then DeclarationFrame.bracedSpace else .plain) = .plain ∨
            (if b then DeclarationFrame.bracedSpace else .plain) = .bracedSpace := by decide
        have h := progress_through (hframe _) hq.frames hq.opened hne hc ⟨kind, children⟩
        exact ⟨h.frames, h.opened⟩

theorem walkNodes_progress (src : Source) (path : List Phrase) : ∀ (ns : List Node) (t : DeclarationState),
    t.opened ≠ [] → t.Progress ((visitor src).walkNodes path ns t)
  | [], t, hne => by
    rw [Visitor.walkNodes]
    exact (Quiet.refl t).progress hne
  | n :: ns, t, hne => by
    have hn := walkNode_progress src path n t hne
    rw [Visitor.walkNodes]
    exact hn.trans (walkNodes_progress src path ns _ hn.ne_nil)

end

end DeclarationState

/-- The symbol tree of a document comes out of the recursive walk. -/
theorem Document.fileSymbol_eq_walk (d : Document) : d.fileSymbol =
    ((DeclarationState.visitor (Source.ofDocument d)).walk d.tree
      (DeclarationState.initial (Source.ofDocument d))).finish (Source.ofDocument d) := by
  unfold fileSymbol
  simp only
  rw [Visitor.traverse_eq_walk]

end CodeAtlas
