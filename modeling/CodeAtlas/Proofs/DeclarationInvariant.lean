import CodeAtlas.Proofs.DeclarationChanges

/-!
# Invariants of declared symbols

All that can happen to an open symbol: it gets a finished child, a variable that it does not declare yet, links to
traits, or an inner symbol that is closed.  So a property of the symbols that can be opened which survives this
(`Symbol.Invariant`) holds of the file symbol of every document (`Symbol.Invariant.fileSymbol`).
-/

namespace CodeAtlas

/-- A property of open symbols that everything keeps that can happen to one. -/
structure Symbol.Invariant (src : Source) (P : Symbol → Prop) : Prop where
  file : ∀ s ∈ (DeclarationState.initial src).opened, P s
  opens : ∀ {p s}, src.Opens p s → P s
  adds : ∀ {s c}, P s → src.Adds c → P (s.addChild c)
  declares : ∀ {s r doc p v}, P s → s.ownsVariables = true → v ∈ src.assignments r doc p → src.text v.token ≠ "$this" →
    s.declares (src.text v.token) = false → P (s.addChild (src.variableSymbol v))
  usesTraits : ∀ {s} links, P s → P { s with associated := s.associated ++ links }
  closes : ∀ {s c}, P s → P c → c.kind ≠ .file → P (s.addChild c)

namespace DeclarationState

/-- All open symbols have the property, and only the outermost may be a file. -/
structure All (P : Symbol → Prop) (s : DeclarationState) : Prop where
  each : ∀ x ∈ s.opened, P x
  rooted : s.opened.Pairwise fun x _ => x.kind ≠ .file

/-- Naming context, frames and waiting documentation do not matter. -/
theorem All.of_opened {P : Symbol → Prop} {s s' : DeclarationState} (h : s.All P) (ho : s'.opened = s.opened) :
    s'.All P :=
  ⟨ho ▸ h.each, ho ▸ h.rooted⟩

end DeclarationState

namespace Symbol.Invariant

variable {src : Source} {P : Symbol → Prop} {s : DeclarationState}

open DeclarationState

private theorem addChild (hs : s.All P) {c : Symbol} (hc : ∀ x, P x → P (x.addChild c)) : (s.addChild c).All P := by
  unfold DeclarationState.addChild
  split
  · exact hs
  · rename_i top rest ho
    obtain ⟨heach, hrooted⟩ := hs
    rw [ho] at heach hrooted
    obtain ⟨htop, hrest⟩ := List.forall_mem_cons.1 heach
    exact ⟨List.forall_mem_cons.2 ⟨hc top htop, hrest⟩, List.pairwise_cons.2 (List.pairwise_cons.1 hrooted)⟩

/-- Changing the first open symbol of some sort. -/
private theorem updateFirst {p : Symbol → Bool} {f : Symbol → Symbol} (hf : ∀ x, p x = true → P x → P (f x))
    (hk : ∀ x, (f x).kind = x.kind) (hs : s.All P) : { s with opened := CodeAtlas.updateFirst p f s.opened }.All P := by
  obtain ⟨heach, hrooted⟩ := hs
  generalize s.opened = l at heach hrooted
  constructor
  · show ∀ x ∈ CodeAtlas.updateFirst p f l, P x
    induction l with
    | nil => exact nofun
    | cons a l ih =>
      obtain ⟨ha, hl⟩ := List.forall_mem_cons.1 heach
      unfold CodeAtlas.updateFirst
      split
      · rename_i hp
        exact List.forall_mem_cons.2 ⟨hf a hp ha, hl⟩
      · exact List.forall_mem_cons.2 ⟨ha, ih hl hrooted.of_cons⟩
  · show (CodeAtlas.updateFirst p f l).Pairwise fun x _ => x.kind ≠ .file
    have hkinds : (CodeAtlas.updateFirst p f l).map (·.kind) = l.map (·.kind) := by
      clear heach hrooted
      induction l with
      | nil => rfl
      | cons a l ih =>
        unfold CodeAtlas.updateFirst
        split
        · rw [List.map_cons, hk, List.map_cons]
        · rw [List.map_cons, ih, List.map_cons]
    have hmap : (l.map (·.kind)).Pairwise fun k _ => k ≠ SymbolKind.file := List.pairwise_map.2 hrooted
    rw [← hkinds] at hmap
    exact List.pairwise_map.1 hmap

private theorem declare (h : Invariant src P) (hs : s.All P) {r : Resolver} {doc : Option DocBlock} {p : Phrase}
    {v : Source.Assigned} (hv : v ∈ src.assignments r doc p) : (s.declare src v).All P := by
  unfold DeclarationState.declare
  dsimp only
  split
  · exact hs
  · rename_i hthis
    refine updateFirst (fun holder howns hholder => ?_) (fun holder => ?_) hs
    · split
      · exact hholder
      · rename_i hnew
        exact h.declares hholder howns hv hthis (Bool.not_eq_true _ ▸ hnew)
    · split <;> rfl

private theorem openSymbol (h : Invariant src P) (hs : s.All P) {p : Phrase} {symbol : Symbol}
    (ho : src.Opens p symbol) : (s.openSymbol symbol).All P :=
  ⟨List.forall_mem_cons.2 ⟨h.opens ho, hs.each⟩, List.pairwise_cons.2 ⟨fun _ _ => ho.kind_ne_file, hs.rooted⟩⟩

private theorem change (h : Invariant src P) {p : Phrase} {s' : DeclarationState} (hc : Change src p s s')
    (hs : s.All P) : s'.All P := by
  cases hc with
  | doc => exact hs.of_opened rfl
  | imports => exact hs.of_opened rfl
  | space => exact hs.of_opened rfl
  | adds ha => exact addChild hs fun _ hx => h.adds hx ha
  | declares hv => exact h.declare hs hv
  | usesTraits => exact updateFirst (fun _ _ hx => h.usesTraits _ hx) (fun _ => rfl) hs

theorem enter (h : Invariant src P) (hs : s.All P) (p : Phrase) : (s.enter src p).1.All P := by
  have hchanges : ∀ s', Relation.ReflTransGen (Change src p) s s' → s'.All P := by
    intro s' hc
    induction hc with
    | refl => exact hs
    | tail _ hc ih => exact h.change hc ih
  have he := enter_entry src s p
  revert he
  generalize s.enter src p = result
  intro he
  cases he with
  | refused hc => exact hchanges _ hc
  | plain hc => exact (hchanges _ hc).of_opened rfl
  | bracedSpace hc => exact (hchanges _ hc).of_opened rfl
  | symbol hc ho => exact (h.openSymbol (hchanges _ hc) ho).of_opened rfl
  | cls hc ho => exact (h.openSymbol (hchanges _ hc) (ho _ _)).of_opened rfl

private theorem closeTop (h : Invariant src P) (hs : s.All P) : s.closeTop.All P := by
  unfold DeclarationState.closeTop
  split
  · rename_i top parent rest ho
    obtain ⟨heach, hrooted⟩ := hs
    rw [ho, List.forall_mem_cons, List.forall_mem_cons] at heach
    rw [ho, List.pairwise_cons] at hrooted
    obtain ⟨htop, hparent, hrest⟩ := heach
    refine ⟨List.forall_mem_cons.2 ⟨h.closes hparent htop (hrooted.1 parent List.mem_cons_self), hrest⟩, ?_⟩
    exact List.pairwise_cons.2 (List.pairwise_cons.1 hrooted.2)
  · exact hs

theorem leave (h : Invariant src P) (hs : s.All P) (p : Phrase) : (s.leave p).All P := by
  cases hf : s.frames with
  | nil =>
    unfold DeclarationState.leave
    rw [hf]
    dsimp only
    split
    · exact hs.of_opened rfl
    · exact hs
  | cons frame rest =>
    have hrest : { s with frames := rest }.All P := hs.of_opened rfl
    have hunwind : ({ s with frames := rest }.unwind frame).All P := by
      cases frame with
      | plain => exact hrest
      | symbol => exact h.closeTop hrest
      | cls => exact (h.closeTop hrest).of_opened rfl
      | bracedSpace => exact hrest.of_opened rfl
    rw [leave_eq_unwind hf]
    split
    · exact hunwind.of_opened rfl
    · exact hunwind

theorem token (hs : s.All P) (src : Source) (t : Token) : (s.token src t).All P := by
  unfold DeclarationState.token
  split
  · exact hs.of_opened rfl
  · exact hs

/-- At the beginning only the file is open. -/
theorem initial (h : Invariant src P) : (DeclarationState.initial src).All P :=
  ⟨h.file, List.pairwise_singleton _ _⟩

/-- An invariant of open symbols holds of the file symbol in the end. -/
theorem fileSymbol {d : Document} (h : Invariant (Source.ofDocument d) P) : P d.fileSymbol := by
  have hwalk : ((DeclarationState.visitor (Source.ofDocument d)).walk d.tree
      (DeclarationState.initial (Source.ofDocument d))).All P := by
    rw [← Visitor.traverse_eq_walk]
    refine Visitor.traverse_keeps (DeclarationState.All P) ?_ ?_ ?_ d.tree h.initial
    · exact fun s p _ hs => h.enter hs p
    · exact fun s p _ hs => h.leave hs p
    · exact fun s t _ hs => token hs _ t
  -- nothing but the file is open at the end
  have hp : (DeclarationState.initial (Source.ofDocument d)).Progress
      ((DeclarationState.visitor (Source.ofDocument d)).walk d.tree
        (DeclarationState.initial (Source.ofDocument d))) :=
    DeclarationState.walkNode_progress (Source.ofDocument d) [] d.tree.toNode _ (List.cons_ne_nil _ _)
  obtain ⟨_, _, top, below, ho, ho', -, hb⟩ := hp.opened
  obtain ⟨-, rfl⟩ := List.cons.inj ho
  cases hb
  have heach := hwalk.each
  rw [ho'] at heach
  rw [d.fileSymbol_eq_walk]
  unfold finish
  rw [ho']
  exact heach top List.mem_cons_self

end Symbol.Invariant

end CodeAtlas
