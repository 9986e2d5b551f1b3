import CodeAtlas.Proofs.DeclarationGrowth
import CodeAtlas.Proofs.ReferenceSteady

/-!
# Both walks in step

The declaration walk hangs a symbol on its parent when the phrase of the symbol is left; the reference walk takes the
symbol from the finished table when it enters the phrase.  That both mean the same symbol is an invariant of the two
walks side by side (`InStep`): the innermost cursor of the reference walk is on the symbol that the innermost open
symbol of the declaration walk will grow into, it has used up in each family as many children as the open symbol has,
and the naming contexts agree.

Here are the steps that move cursors: declarations with a body, when they are entered and when they are left, and the
clauses of imports.
-/

namespace CodeAtlas

/-! ### Both walks side by side -/

/-- The innermost open symbol will grow into `final`. -/
def DeclarationState.Leads (t : DeclarationState) (final : Symbol) : Prop :=
  ∃ top below, t.opened = top :: below ∧ top.Grows final

theorem DeclarationState.Progress.leads {t t' : DeclarationState} {final : Symbol} (h : t.Progress t')
    (hl : t'.Leads final) : t.Leads final := by
  obtain ⟨top, below, top', below', ht, ht', hg, -⟩ := h.opened
  obtain ⟨_, _, hu, hf⟩ := hl
  obtain ⟨rfl, rfl⟩ := List.cons.inj (ht'.symm.trans hu)
  exact ⟨top, below, ht, hg.trans hf⟩

/-- Both walks are at the same place: the naming contexts agree, and the innermost cursor, on `final`, has used up as
many children of each family as the innermost open symbol has. -/
structure InStep (final : Symbol) (rest : List Cursor) (t : DeclarationState) (s : ReferenceState) : Prop where
  resolver : s.resolver = t.resolver
  cursors : ∃ top below, t.opened = top :: below ∧
    s.cursors = ⟨final, fun f => (top.inFamily f).length⟩ :: rest

theorem InStep.ne_nil {final : Symbol} {rest : List Cursor} {t : DeclarationState} {s : ReferenceState}
    (h : InStep final rest t s) : t.opened ≠ [] := by
  obtain ⟨top, below, ht, -⟩ := h.cursors
  rw [ht]
  exact List.cons_ne_nil top below

/-- A quiet change of the declaration walk and one of the reference walk that moves no cursor. -/
theorem InStep.moved {final : Symbol} {rest : List Cursor} {t t' : DeclarationState} {s s' : ReferenceState}
    (h : InStep final rest t s) (ho : List.Forall₂ Symbol.GrowsQuietly t.opened t'.opened)
    (hc : s'.cursors = s.cursors) (hr : s'.resolver = t'.resolver) : InStep final rest t' s' := by
  obtain ⟨top, below, ht, hs⟩ := h.cursors
  rw [ht] at ho
  obtain ⟨top', below', hq, -, ht'⟩ := List.forall₂_cons_left_iff.1 ho
  refine ⟨hr, top', below', ht', ?_⟩
  rw [hc, hs]
  simp only [hq.families]

namespace Cursor

variable {family : DeclarationFamily} {final top built : Symbol}

/-- The symbol that is added next to the open one is the next in its family. -/
theorem next_of_grows (hp : built.PairedAs (some family)) (hg : (top.addChild built).Grows final) :
    (Cursor.mk final fun f => (top.inFamily f).length).next? family = some built := by
  have hpre : (top.addChild built).inFamily family <+: final.inFamily family := hg.children.filter _
  rw [Symbol.inFamily_addChild_of_paired hp, if_pos rfl] at hpre
  obtain ⟨more, hm⟩ := hpre
  unfold next?
  show (final.inFamily family)[(top.inFamily family).length]? = some built
  rw [← hm, List.append_assoc, List.getElem?_append_right (Nat.le_refl _), Nat.sub_self]
  rfl

theorem advance_eq (hp : built.PairedAs (some family)) :
    (Cursor.mk final fun f => (top.inFamily f).length).advance family =
      ⟨final, fun f => ((top.addChild built).inFamily f).length⟩ := by
  unfold advance
  congr 1
  funext f
  rw [Symbol.inFamily_addChild_of_paired hp]
  by_cases hf : f = family
  · rw [if_pos hf, if_pos hf, List.length_append]
    rfl
  · rw [if_neg hf, if_neg hf, List.append_nil]

end Cursor

namespace ReferenceState

/-- What undoes the entering of a declaration of the family. -/
def exitOf (family : DeclarationFamily) : Unwinding :=
  if family.isClass then .leaveClass else .leaveFunction

/-- The reference walk takes the symbol that is added next, and is then one further in its family. -/
theorem advance_of_grows {family : DeclarationFamily} {final top built : Symbol} {rest : List Cursor}
    {s : ReferenceState} (hp : built.PairedAs (some family)) (hg : (top.addChild built).Grows final)
    (hc : s.cursors = ⟨final, fun f => (top.inFamily f).length⟩ :: rest) :
    s.nextSymbol? family = some built ∧ s.advance family =
      { s with cursors := ⟨final, fun f => ((top.addChild built).inFamily f).length⟩ :: rest } := by
  have hn := Cursor.next_of_grows hp hg
  constructor
  · unfold nextSymbol?
    rw [hc]
    exact hn
  · unfold advance
    rw [hc]
    simp only
    rw [hn, if_pos Option.isSome_some, Cursor.advance_eq hp]

/-- Entering a declaration whose symbol is there opens that symbol. -/
theorem enter_taken (env : ReferenceInput) (s : ReferenceState) (p : Phrase) (path : List Phrase)
    {family : DeclarationFamily} (hk : p.kind.family? = some family) {built : Symbol}
    (hn : s.nextSymbol? family = some built) :
    (s.enter env p path).2 = true ∧
      (s.enter env p path).1.resolver = family.into built (s.advance family).resolver ∧
      (s.enter env p path).1.cursors = Cursor.ofSymbol built :: (s.advance family).cursors ∧
      (s.enter env p path).1.frames.map (·.exit) = exitOf family :: (s.advance family).frames.map (·.exit) := by
  obtain ⟨symbol, hs, he⟩ := enter_declaration env s p path hk
  obtain rfl := hs built hn
  unfold DeclarationFamily.into exitOf
  revert he
  generalize s.enter env p path = result
  intro he
  cases he with
  | cls hf hq ho _ =>
    have hx := congrArg (List.map Prod.snd) (ho.frames.trans hq.frames)
    rw [List.map_map, List.map_map] at hx
    rw [if_pos hf, if_pos hf]
    refine ⟨rfl, ?_, ?_, congrArg (_ :: ·) hx⟩
    · rw [← hq.resolver]
      exact ho.resolver
    · rw [← hq.cursors]
      exact ho.cursors
  | function hf hq ho _ =>
    have hx := congrArg (List.map Prod.snd) (ho.frames.trans hq.frames)
    rw [List.map_map, List.map_map] at hx
    have hf : ¬ family.isClass = true := by
      rw [hf]
      exact Bool.false_ne_true
    rw [if_neg hf, if_neg hf]
    refine ⟨rfl, ?_, ?_, congrArg (_ :: ·) hx⟩
    · rw [← hq.resolver]
      exact ho.resolver
    · rw [← hq.cursors]
      exact ho.cursors

/-- Leaving a declaration takes its cursor away. -/
theorem leave_taken (env : ReferenceInput) (s : ReferenceState) (p : Phrase) {family : DeclarationFamily}
    {exits : List Unwinding} (hx : s.frames.map (·.exit) = exitOf family :: exits) {c c' : Cursor}
    {rest : List Cursor} (hc : s.cursors = c :: c' :: rest) :
    (s.leave env p).resolver = family.outOf s.resolver ∧ (s.leave env p).cursors = c' :: rest ∧
      (s.leave env p).frames.map (·.exit) = exits := by
  obtain ⟨s₁, hr₁, hc₁, hx₁, hs⟩ := leave_steady env s p hx
  have hu : (s₁.unwind (exitOf family)).resolver = family.outOf s₁.resolver ∧
      (s₁.unwind (exitOf family)).cursors = c' :: rest ∧ (s₁.unwind (exitOf family)).frames = s₁.frames := by
    rw [hc] at hc₁
    unfold exitOf DeclarationFamily.outOf
    split
    · simp [unwind, popCursor, hc₁]
    · refine ⟨?_, ?_, frames_unwind s₁ _⟩
      · simp only [unwind, popCursor, hc₁, closeScope]
        split <;> rfl
      · simp only [unwind, popCursor, hc₁, closeScope]
        split <;> rfl
  refine ⟨?_, hs.cursors.trans hu.2.1, ?_⟩
  · rw [hs.resolver, hu.1, hr₁]
  · rw [hs.exits, hu.2.2, hx₁]

end ReferenceState

/-! ### Declarations with a body -/

section

variable {family : DeclarationFamily} {symbol built top final : Symbol} {below : List Symbol} {rest : List Cursor}
  {t t₁ t₂ t₃ : DeclarationState} {s : ReferenceState}

/-- The reference walk takes the symbol that the declaration walk builds. -/
theorem DeclarationState.Declares.taken (hd : Declares family symbol built top below t t₁ t₂ t₃)
    (h : InStep final rest t s) (hl : t₃.Leads final) :
    s.nextSymbol? family = some built ∧ s.advance family =
      { s with cursors := ⟨final, fun f => ((top.addChild built).inFamily f).length⟩ :: rest } := by
  obtain ⟨top₀, below₀, ht, hs⟩ := h.cursors
  obtain ⟨top₃, below₃, ht₃, hg⟩ := hl
  have haround := hd.around
  have hleft := hd.left
  rw [ht, List.forall₂_cons] at haround
  rw [ht₃, List.forall₂_cons] at hleft
  have hsame : (fun f => (top₀.inFamily f).length) = fun f => (top.inFamily f).length := by
    funext f
    rw [haround.1.families]
  rw [hsame] at hs
  exact ReferenceState.advance_of_grows hd.paired (hleft.1.grows.trans hg) hs

/-- Inside a declaration both walks are in step on its own symbol. -/
theorem DeclarationState.Declares.inStep_enter (hd : Declares family symbol built top below t t₁ t₂ t₃)
    (h : InStep final rest t s) {s₁ : ReferenceState} {c : Cursor} (hr : s₁.resolver = family.into built s.resolver)
    (hc : s₁.cursors = Cursor.ofSymbol built :: c :: rest) : InStep built (c :: rest) t₁ s₁ := by
  obtain ⟨below₁, ho⟩ := hd.entered
  refine ⟨?_, symbol, below₁, ho, ?_⟩
  · rw [hr, hd.into, h.resolver]
    unfold DeclarationFamily.into
    rw [hd.grows.name, hd.grows.baseName]
  · rw [hc]
    simp only [hd.fresh.inFamily, List.length_nil]
    rfl

/-- After a declaration both walks are in step again on the symbol around it. -/
theorem DeclarationState.Declares.inStep_leave (hd : Declares family symbol built top below t t₁ t₂ t₃)
    {s₂ s₃ : ReferenceState} (hr₂ : s₂.resolver = t₂.resolver) (hr : s₃.resolver = family.outOf s₂.resolver)
    (hc : s₃.cursors = ⟨final, fun f => ((top.addChild built).inFamily f).length⟩ :: rest) :
    InStep final rest t₃ s₃ := by
  obtain ⟨top₃, below₃, hg, -, ho⟩ := List.forall₂_cons_left_iff.1 hd.left
  refine ⟨?_, top₃, below₃, ho, ?_⟩
  · rw [hr, hd.outOf, hr₂]
  · rw [hc]
    simp only [hg.families]

end

/-! ### Imports -/

theorem Source.importedKind_ne_method {owner : Phrase} {kind : SymbolKind} (hk : kind ≠ .method) :
    Source.importedKind owner kind ≠ .method := by
  unfold Source.importedKind
  split
  · exact SymbolKind.noConfusion
  · split
    · exact SymbolKind.noConfusion
    · exact hk

theorem Source.importOfClause_kind {src : Source} {kind : SymbolKind} (hk : kind ≠ .method) {outer : String}
    {clause : Phrase} {i : Source.Import} (h : src.importOfClause? kind outer clause = some i) : i.kind ≠ .method := by
  obtain ⟨name, -, rfl⟩ := Option.map_eq_some_iff.1 h
  exact importedKind_ne_method hk

/-- A clause that imports nothing is skipped by the reference walk as well. -/
theorem ReferenceState.useClause_none {src : Source} {kind : SymbolKind} {outer : String} {clause : Phrase}
    (h : src.importOfClause? kind outer clause = none) (s : ReferenceState) : s.useClause src clause = s := by
  unfold useClause
  rw [Option.map_eq_none_iff.1 h]

/-- The reference walk takes for a clause the symbol that the declaration walk adds for it. -/
theorem InStep.useClause {src : Source} {kind : SymbolKind} (hk : kind ≠ .method) {outer : String} {clause : Phrase}
    {i : Source.Import} (hi : src.importOfClause? kind outer clause = some i) {final : Symbol} {rest : List Cursor}
    {t : DeclarationState} {s : ReferenceState} (h : InStep final rest t s) (hl : (t.addImport src i).Leads final) :
    s.nextSymbol? .imported = some (src.importSymbol i) ∧
      InStep final rest (t.addImport src i) (s.useClause src clause) ∧
      (s.useClause src clause).frames.map (·.exit) = s.frames.map (·.exit) := by
  obtain ⟨top, below, ht, hs⟩ := h.cursors
  rw [DeclarationState.addImport_of_opened src i ht] at hl ⊢
  obtain ⟨_, _, ho', hg⟩ := hl
  obtain ⟨rfl, rfl⟩ := List.cons.inj ho'
  obtain ⟨hn, ha⟩ := ReferenceState.advance_of_grows
    (src.importSymbol_paired i (Source.importOfClause_kind hk hi)) hg hs
  obtain ⟨name, hname, -⟩ := Option.map_eq_some_iff.1 hi
  have hrule : ImportedName.of (src.importSymbol i).kind (src.importSymbol i).name i.target = i.rule := by
    simp [Source.importSymbol, Source.Import.rule, Symbol.withModifiers, Symbol.bare]
  have hu : s.useClause src clause = ReferenceState.record
      { s.advance .imported with resolver := (s.advance .imported).resolver.addImport i.rule }
      (Reference.bare (src.importSymbol i).kind i.target (src.range name)) := by
    unfold ReferenceState.useClause
    rw [hname]
    simp only
    rw [hn]
    simp only [← hrule]
    rfl
  have hq := ReferenceState.Quiet.record
    { s.advance .imported with resolver := (s.advance .imported).resolver.addImport i.rule }
    (Reference.bare (src.importSymbol i).kind i.target (src.range name))
  refine ⟨hn, ⟨?_, _, _, rfl, ?_⟩, ?_⟩
  · rw [hu, hq.resolver, ha, h.resolver]
  · rw [hu, hq.cursors, ha]
  · rw [hu, hq.steady.exits, ha]

/-- Some clauses of a use declaration, one after the other. -/
theorem InStep.useClauses {src : Source} {kind : SymbolKind} (hk : kind ≠ .method) {outer : String} {final : Symbol}
    {rest : List Cursor} (clauses : List Phrase) {t : DeclarationState} {s : ReferenceState}
    (h : InStep final rest t s)
    (hl : ((clauses.filterMap (src.importOfClause? kind outer)).foldl (DeclarationState.addImport src) t).Leads final) :
    InStep final rest ((clauses.filterMap (src.importOfClause? kind outer)).foldl (DeclarationState.addImport src) t)
        (clauses.foldl (ReferenceState.useClause src) s) ∧
      (clauses.foldl (ReferenceState.useClause src) s).frames.map (·.exit) = s.frames.map (·.exit) := by
  induction clauses generalizing t s with
  | nil => exact ⟨h, rfl⟩
  | cons clause clauses ih =>
    cases hi : src.importOfClause? kind outer clause with
    | none =>
      rw [List.filterMap_cons_none hi] at hl ⊢
      rw [List.foldl_cons, ReferenceState.useClause_none hi]
      exact ih h hl
    | some i =>
      rw [List.filterMap_cons_some hi] at hl ⊢
      rw [List.foldl_cons] at hl ⊢
      have hp := DeclarationState.addImport_progress src i h.ne_nil
      -- what the later clauses add comes after the symbol of this one
      have hpost := DeclarationState.addImports_progress src
        (clauses.filterMap (src.importOfClause? kind outer)) hp.ne_nil
      obtain ⟨-, hstep, hx⟩ := InStep.useClause hk hi h (hpost.leads hl)
      obtain ⟨hrest, hx'⟩ := ih hstep hl
      exact ⟨hrest, hx'.trans hx⟩

end CodeAtlas
