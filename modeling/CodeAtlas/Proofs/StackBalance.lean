import CodeAtlas.Proofs.DeclarationSteps
import CodeAtlas.Proofs.ReferenceBalance

/-!
# Balance of the stacks

Both passes end with every stack at the height where it began, whatever the tree (`stacks_restored`).  For the reference
walk this is its balance; in the declaration walk the open symbols and classes are those that the open phrases will
close.
-/

namespace CodeAtlas

namespace DeclarationState

/-- Whether leaving the phrase closes a symbol. -/
def closesSymbol (f : DeclarationFrame) : Bool :=
  f == .symbol || f == .cls

/-- The open symbols and classes are those that the open phrases will close, and the file. -/
structure Level (s : DeclarationState) : Prop where
  opened : s.opened.length = (s.frames.filter closesSymbol).length + 1
  classes : s.resolver.classes.length = (s.frames.filter (· == .cls)).length

theorem Quiet.level {s s' : DeclarationState} (hq : s.Quiet s') (h : s.Level) : s'.Level := by
  constructor
  · rw [← hq.opened.length_eq, hq.frames, h.opened]
  · rw [hq.resolver, hq.frames, h.classes]

private theorem addChild_shape (s : DeclarationState) (child : Symbol) :
    (s.addChild child).opened.length = s.opened.length ∧ (s.addChild child).frames = s.frames ∧
      (s.addChild child).resolver = s.resolver := by
  unfold addChild
  split
  · exact ⟨rfl, rfl, rfl⟩
  · rename_i top rest h
    rw [h]
    exact ⟨rfl, rfl, rfl⟩

private theorem importNames_level (src : Source) {s : DeclarationState} (p : Phrase) (h : s.Level) :
    (s.importNames src p).Level ∧ (s.importNames src p).frames = s.frames := by
  unfold importNames
  induction src.imports p generalizing s with
  | nil => exact ⟨h, rfl⟩
  | cons i is ih =>
    obtain ⟨ho, hf, hr⟩ := addChild_shape { s with resolver := s.resolver.addImport i.rule } (src.importSymbol i)
    have hs : ({ s with resolver := s.resolver.addImport i.rule }.addChild (src.importSymbol i)).Level :=
      ⟨by rw [ho, hf]; exact h.opened, by rw [hr, hf]; exact h.classes⟩
    obtain ⟨hl, hframes⟩ := ih hs
    exact ⟨hl, hframes.trans hf⟩

private theorem enter_level (src : Source) (s : DeclarationState) (p : Phrase) (h : s.Level) :
    (s.enter src p).1.Level ∧ (s.enter src p).1.frames.length = s.frames.length + (s.enter src p).2.toNat := by
  cases hd : p.kind.declares with
  | false =>
    have he := enter_plain src s p hd
    revert he
    generalize s.enter src p = result
    intro he
    cases he with
    | refused hq => exact ⟨hq.level h, congrArg List.length hq.frames⟩
    | entered hq =>
      have hl := hq.level h
      exact ⟨⟨hl.opened, hl.classes⟩, congrArg (·.length + 1) hq.frames⟩
  | true =>
    rcases ReferenceState.declares_cases hd with ⟨family, hf⟩ | hi | hn
    · have he := enter_declaration src s p hf
      revert he
      generalize s.enter src p = result
      intro he
      cases he with
      | cls _ hq _ _ =>
        have hl := hq.level h
        exact ⟨⟨congrArg (· + 1) hl.opened, congrArg (· + 1) hl.classes⟩, congrArg (·.length + 1) hq.frames⟩
      | function _ hq _ _ =>
        have hl := hq.level h
        exact ⟨⟨congrArg (· + 1) hl.opened, hl.classes⟩, congrArg (·.length + 1) hq.frames⟩
    · rw [enter_imports src s p hi]
      obtain ⟨hl, hframes⟩ := importNames_level src p h
      exact ⟨hl, congrArg List.length hframes⟩
    · rw [enter_space src s p hn]
      have hq := spaceDefinition_quiet src s p
      have hl := hq.level ⟨h.opened, h.classes⟩
      refine ⟨?_, congrArg (·.length + 1) hq.frames⟩
      split <;> exact ⟨hl.opened, hl.classes⟩

/-- Closing the innermost symbol. -/
private theorem closeTop_level {s : DeclarationState} {n : Nat} (h : s.opened.length = n + 1 + 1) :
    s.closeTop.opened.length = n + 1 ∧ s.closeTop.frames = s.frames ∧ s.closeTop.resolver = s.resolver := by
  unfold closeTop
  match ho : s.opened with
  | [] =>
    rw [ho] at h
    cases h
  | [_] =>
    rw [ho] at h
    cases h
  | top :: parent :: rest =>
    rw [ho] at h
    exact ⟨Nat.succ.inj h, rfl, rfl⟩

private theorem unwind_level {s : DeclarationState} {frame : DeclarationFrame}
    (ho : s.opened.length = ((frame :: s.frames).filter closesSymbol).length + 1)
    (hc : s.resolver.classes.length = ((frame :: s.frames).filter (· == .cls)).length) :
    (s.unwind frame).Level ∧ (s.unwind frame).frames = s.frames := by
  cases frame with
  | plain => exact ⟨⟨ho, hc⟩, rfl⟩
  | bracedSpace => exact ⟨⟨ho, hc⟩, rfl⟩
  | symbol =>
    obtain ⟨h1, h2, h3⟩ := closeTop_level ho
    refine ⟨⟨?_, ?_⟩, h2⟩
    · show s.closeTop.opened.length = (s.closeTop.frames.filter closesSymbol).length + 1
      rw [h2]
      exact h1
    · show s.closeTop.resolver.classes.length = (s.closeTop.frames.filter (· == .cls)).length
      rw [h2, h3]
      exact hc
  | cls =>
    obtain ⟨h1, h2, h3⟩ := closeTop_level ho
    refine ⟨⟨?_, ?_⟩, h2⟩
    · show s.closeTop.opened.length = (s.closeTop.frames.filter closesSymbol).length + 1
      rw [h2]
      exact h1
    · show s.closeTop.resolver.classes.tail.length = (s.closeTop.frames.filter (· == .cls)).length
      rw [h2, h3, List.length_tail, hc]
      rfl

private theorem leave_level (s : DeclarationState) (p : Phrase) (h : s.Level) :
    (s.leave p).Level ∧ (s.leave p).frames.length = s.frames.length - 1 := by
  cases hf : s.frames with
  | nil =>
    have hq : s.Quiet (s.leave p) := by
      unfold leave
      rw [hf]
      show s.Quiet (if p.kind == .expressionStatement then { s with doc := none } else s)
      split
      · exact Quiet.withDoc s none
      · exact Quiet.refl s
    refine ⟨hq.level h, ?_⟩
    rw [hq.frames, hf]
    rfl
  | cons frame rest =>
    obtain ⟨ho, hc⟩ := h
    have hq := leave_cons hf p
    rw [hf] at ho hc
    have hu : ({ s with frames := rest }.unwind frame).Level ∧ ({ s with frames := rest }.unwind frame).frames = rest :=
      unwind_level ho hc
    refine ⟨hq.level hu.1, ?_⟩
    rw [hq.frames, hu.2]
    rfl

/-- Along the declaration walk the open symbols and classes are those of the open phrases. -/
theorem visitor_balanced (src : Source) : (visitor src).Balanced Level fun s => s.frames.length where
  enter s p _ h := enter_level src s p h
  leave s p _ h := leave_level s p h
  token s t _ h := by
    have hq := Quiet.token src s t
    exact ⟨hq.level h, congrArg List.length hq.frames⟩

theorem initial_level (src : Source) : (initial src).Level :=
  ⟨rfl, rfl⟩

/-- The state after the walk over a document. -/
def ofDocument (d : Document) : DeclarationState :=
  (visitor (Source.ofDocument d)).traverse d.tree (initial (Source.ofDocument d))

end DeclarationState

/-- For every tree, and whatever the table and the pool are, both walks end with their stacks as they were. -/
theorem Document.stacks_restored (d : Document) (table : SymbolTable) (pool : SymbolPool) :
    ((ReferenceState.ofDocument d table pool).isRestored = true ∧
      (ReferenceState.ofDocument d table pool).locals.top.branches = []) ∧
    (DeclarationState.ofDocument d).opened.length = 1 ∧
      (DeclarationState.ofDocument d).frames = [] ∧
      (DeclarationState.ofDocument d).resolver.classes = [] := by
  constructor
  · have hb := ReferenceState.visitor_balanced ⟨Source.ofDocument d, table.uri, pool⟩
    obtain ⟨hl, hf⟩ := hb.traverse d.tree (ReferenceState.initial_level (Source.ofDocument d) table.root)
    exact ⟨hl.isRestored (List.length_eq_zero_iff.1 hf), hl.settled.2⟩
  · have hb := DeclarationState.visitor_balanced (Source.ofDocument d)
    obtain ⟨hl, hlen⟩ := hb.traverse d.tree (DeclarationState.initial_level (Source.ofDocument d))
    have hf : (DeclarationState.ofDocument d).frames = [] := List.length_eq_zero_iff.1 hlen
    obtain ⟨ho, hc⟩ : (DeclarationState.ofDocument d).Level := hl
    rw [hf] at ho hc
    exact ⟨ho, hf, List.length_eq_zero_iff.1 hc⟩

end CodeAtlas
