import CodeAtlas.Proofs.WaitingOutcomes

/-!
# References that get another type

An assignment, or a loop, gives a type to a variable, the one of its first outcome, and the same type to the reference
that was recorded there; the place of that reference comes from the outcome, which has waited since then.
`Document.retyped_is_assigned` says that it is the right one.  Whatever waits in a frame points to its own reference in
the scope that was the innermost one when the frame was pushed (`OpenSince`); an assignment changes the reference of the
variable that it assigns and no other (`ReferenceState.Retypes`); and all that is ever changed about a reference is its
type.
-/

namespace CodeAtlas

/-- From `s` to `s'` the variable `name` and one reference of the innermost scope get the same type.  The reference is
the one to which the outcome `target` points: an occurrence of the variable, in a child of `p`.  The other outcomes come
from later children. -/
inductive ReferenceState.Retypes (src : Source) (p : Phrase) (target : Outcome) (others : List Outcome) (name : String)
    (s s' : ReferenceState) : Prop
  | mk {node : Node} {nodes : List Node} {i : Nat} {r : Reference} {scope : ScopeTree} {below : List ScopeTree}
    {type : TypeText} (kind : p.kind.assigns = true) (children : (node :: nodes).Sublist p.children)
    (others_stem : List.Forall₂ (Outcome.Stems src scope) nodes others) (place : target.reference = some i)
    (scopes : s.scopes = scope :: below) (found : scope.references[i]? = some r) (occurs : r.Occurs src node name)
    (retyped : s'.scopes = { scope with references := scope.references.set i (r.withType type) } :: below)
    (locals : s'.locals = s.locals.setType name type) : Retypes src p target others name s s'

/-- Since moment `m`, when `p` was entered, there is a frame above so many others, and at moment `n` it still is there.
At first `top` was the innermost scope, the own one of `p` if it is a function; it has become `scope`. -/
structure OpenSince (src : Source) (w : Nat → Visitor.Walking ReferenceState) (height m n : Nat) (p : Phrase)
    (top scope : ScopeTree) : Prop where
  risen : Risen (fun j => (w j).state.frames.length) height m n
  phrase : ∃ inner outer, (w m).spine = p :: outer ∧ (w n).spine = inner ++ p :: outer
  scopes : ∃ inner below, (w m).state.scopes = top :: below ∧ (w n).state.scopes = inner ++ scope :: below
  own : p.kind.isCallable = true → top = ⟨src.range p, [], []⟩
  grows : top.Grows Reference.SameButType scope

/-! ### Rounds -/

namespace ReferenceState

section

variable {env : ReferenceInput} {w w' : Visitor.Walking ReferenceState}

theorem fits_moment (h : Fits env.source w) (n : Nat) : Fits env.source ((visitor env).moment w n) :=
  Visitor.moment_keeps h (fun _ _ h hround => fits_round h hround) n

theorem round_grows (h : Fits env.source w) (hround : (visitor env).Round w w') :
    StackGrows Reference.SameButType w.state.scopes w'.state.scopes := by
  refine round_stackGrows .refl h hround fun p f rest scope below _ _ suits hs waits => ?_
  obtain ⟨scope', hs', hg, -⟩ := (finish_finished env w.state p f rest).settles suits hs waits
  exact ⟨scope', hs', hg⟩

/-- Unless a phrase that assigns is left, no reference changes. -/
theorem round_keeps (h : Fits env.source w) (hround : (visitor env).Round w w')
    (hn : ∀ p f rest target others name, w.spine = p :: w'.spine → w.state.frames = f :: rest →
      ¬ Assigning f.transform f.outcomes target others name) :
    StackGrows Eq w.state.scopes w'.state.scopes := by
  refine round_stackGrows (fun _ => rfl) h hround fun p f rest scope below hp hf suits hs _ => ?_
  have hrecorded := (finish_finished env w.state p f rest).records fun target others name =>
    hn p f rest target others name hp hf
  change Recorded w.state.scopes _ at hrecorded
  rw [hs] at hrecorded
  exact hrecorded.grows fun _ => rfl

theorem round_retypes {p : Phrase} {f : ReferenceFrame} {rest : List ReferenceFrame} {target : Outcome}
    {others : List Outcome} {name : String} (h : Fits env.source w) (hround : (visitor env).Round w w')
    (hspine : w.spine = p :: w'.spine) (hf : w.state.frames = f :: rest)
    (ha : Assigning f.transform f.outcomes target others name) :
    Retypes env.source p target others name w.state w'.state := by
  obtain ⟨counts, hcursors, hseated⟩ := h
  obtain ⟨c, cursors, hc, hdone, hstate⟩ := hround.leaves hspine
  rw [hc] at hcursors
  obtain ⟨counts, rfl, -⟩ := eq_cursorsOf hcursors
  rw [hspine] at hseated
  obtain ⟨f', rest', scope, below, hf', suits, hs, ⟨ns, hns, hstems⟩, -, -⟩ := hseated.frame hdone
  obtain ⟨rfl, rfl⟩ := List.cons.inj (hf.symm.trans hf')
  rw [ha.outcomes] at hstems
  cases hstems with
  | @cons node _ nodes _ htarget hothers =>
    obtain ⟨i, r, hi, hr, hoccurs⟩ := htarget name ha.name
    have hkind : p.kind.assigns = true := suits.assigns ha.transform
    have hp : p.kind.isCallable = false := PhraseKind.not_callable_of_assigns hkind
    obtain ⟨type, hresult⟩ := (finish_finished env w.state p f rest).assigns ha
    have hfinished : (w.state.finished env p f rest).1.scopes =
        { scope with references := scope.references.set i (r.withType type) } :: below := by
      rw [hresult, hi]
      refine (scopes_changeType (s := { w.state with frames := rest }) hs i type).trans ?_
      rw [List.modify_eq_set_getElem?, hr]
      rfl
    have hscopes : w'.state.scopes = (w.state.finished env p f rest).1.scopes := by
      rw [hstate]
      exact (scopes_leave hf suits).trans (if_neg (Bool.eq_false_iff.1 hp))
    have hlocals : w'.state.locals = (w.state.finished env p f rest).1.locals := by
      rw [hstate]
      exact locals_leave hf suits hp
    rw [hresult] at hlocals
    exact .mk hkind hns hothers hi hs hr hoccurs (hscopes.trans hfinished) hlocals

/-! ### Moments -/

theorem Fits.length_frames (h : Fits env.source w) : w.state.frames.length = w.spine.length := by
  obtain ⟨_, _, hseated⟩ := h
  rw [← hseated.length_frames, List.length_map]

/-- Around more phrases there are more scopes. -/
theorem Fits.scopes_le (h : Fits env.source w) (h' : Fits env.source w') (hs : w.spine <:+ w'.spine) :
    w.state.scopes.length ≤ w'.state.scopes.length := by
  obtain ⟨_, _, hseated⟩ := h
  obtain ⟨_, _, hseated'⟩ := h'
  rw [hseated.length_scopes, hseated'.length_scopes]
  exact Nat.succ_le_succ (hs.sublist.countP_le)

/-- What waits in a frame points into the innermost of the scopes around which the phrases up to its own are open. -/
theorem Fits.waits {p : Phrase} {outer : List Phrase} {inner rest : List ReferenceFrame} {f : ReferenceFrame}
    (h : Fits env.source w) (hspine : p :: outer <:+ w.spine) (hf : w.state.frames = inner ++ f :: rest)
    (hlength : rest.length = outer.length) : ∃ scope below, scope :: below <:+ w.state.scopes ∧
      (scope :: below).length = (p :: outer).countP (·.kind.isCallable) + 1 ∧
      Waits env.source scope p.children f.outcomes := by
  have hframes := h.length_frames
  obtain ⟨counts, _, hseated⟩ := h
  obtain ⟨counts', scopes', hseated', hsuffix⟩ := hseated.suffix hspine
  have hdrop : (w.state.frames.map ReferenceFrame.armless).drop (w.spine.length - (p :: outer).length) =
      f.armless :: rest.map ReferenceFrame.armless := by
    have hinner : w.spine.length - (p :: outer).length = (inner.map ReferenceFrame.armless).length := by
      rw [← hframes, hf, List.length_append, List.length_cons, List.length_cons, hlength, Nat.add_sub_cancel,
        List.length_map]
    rw [hinner, hf, List.map_append, List.drop_left]
    rfl
  rw [hdrop] at hseated'
  have hscopes := hseated'.length_scopes
  cases hseated' with
  | cons suits next waits around =>
    obtain ⟨ns, hns, hstems⟩ := waits
    exact ⟨_, _, hsuffix, hscopes, ns, hns.trans (List.take_sublist _ _), hstems⟩

/-- While a phrase is open, the scope that was the innermost one at first stays and grows, above the same scopes. -/
theorem scope_kept {k m n : Nat} {top : ScopeTree} {below : List ScopeTree} (h : Fits env.source w)
    (hrisen : Risen (fun j => ((visitor env).moment w j).spine.length) k m n)
    (hm : ((visitor env).moment w m).state.scopes = top :: below) :
    ∃ inner scope, ((visitor env).moment w n).state.scopes = inner ++ scope :: below ∧
      top.Grows Reference.SameButType scope := by
  induction n, hrisen.le using Nat.le_induction with
  | base => exact ⟨[], top, hm, .refl .refl top⟩
  | succ n hle ih =>
    obtain ⟨inner, scope, hscopes, hg⟩ := ih (hrisen.until hle (Nat.le_succ n))
    have hround : StackGrows Reference.SameButType _ _ := round_grows (fits_moment h n) (Visitor.round_moment w n)
    have hopen : below.length < ((visitor env).moment w (n + 1)).state.scopes.length := by
      have hle := (fits_moment h m).scopes_le (fits_moment h (n + 1)) (Visitor.suffix_of_risen hrisen)
      rw [hm, List.length_cons] at hle
      exact hle
    obtain ⟨inner', scope', hscopes', hg'⟩ := hround.keeps .refl hscopes hopen
    exact ⟨inner', scope', hscopes', .trans .trans _ _ _ hg hg'⟩

theorem root_grows (h : Fits env.source w) {m n : Nat} (hle : m ≤ n) :
    ((visitor env).moment w m).state.root.Grows Reference.SameButType ((visitor env).moment w n).state.root := by
  induction n, hle using Nat.le_induction with
  | base => exact .refl .refl _
  | succ n _ ih =>
    have hround : StackGrows Reference.SameButType _ _ := round_grows (fits_moment h n) (Visitor.round_moment w n)
    exact .trans .trans _ _ _ ih (hround.root .refl)

end

/-- Every frame has been there since its phrase was entered, and what waits in it points into the scope of then. -/
theorem open_since {env : ReferenceInput} {root : Phrase} {s : ReferenceState} {n : Nat}
    {inner outer : List ReferenceFrame} {f : ReferenceFrame} (h : Fits env.source ((visitor env).start root s))
    (hf : ((visitor env).moment ((visitor env).start root s) n).state.frames = inner ++ f :: outer) :
    ∃ m p top scope,
      OpenSince env.source ((visitor env).moment ((visitor env).start root s)) outer.length m n p top scope ∧
      Waits env.source scope p.children f.outcomes := by
  let w : Nat → Visitor.Walking ReferenceState := (visitor env).moment ((visitor env).start root s)
  have hfits : ∀ j, Fits env.source (w j) := fits_moment h
  have hheight : (fun j => (w j).spine.length) = fun j => (w j).state.frames.length :=
    funext fun j => (hfits j).length_frames.symm
  have hopen : outer.length < (w n).spine.length := by
    rw [← (hfits n).length_frames, hf, List.length_append, List.length_cons]
    omega
  obtain ⟨m, hrisen⟩ : ∃ m, Risen (fun j => (w j).spine.length) outer.length m n :=
    exists_risen (Visitor.spine_start root s) Visitor.spine_moment_succ hopen
  obtain ⟨p, spine, s', hspine, henter⟩ := Visitor.entered_of_risen hrisen
  obtain ⟨_, _, hseated⟩ := hfits m
  obtain ⟨top, below, htop⟩ := hseated.exists_innermost
  obtain ⟨innerScopes, scope, hscopes, hg⟩ := scope_kept h hrisen htop
  have hsuffix : p :: spine <:+ (w n).spine := hspine ▸ Visitor.suffix_of_risen hrisen
  have hlength : (p :: spine).length = outer.length + 1 := hspine ▸ hrisen.reached
  obtain ⟨scope', below', hsuffix', hlength', hwaits⟩ := (hfits n).waits hsuffix hf (Nat.succ.inj hlength).symm
  obtain ⟨rfl, rfl⟩ : scope' = scope ∧ below' = below := by
    -- both are on the stack of scopes, above equally many
    have hsuffix : scope :: below <:+ (w n).state.scopes := ⟨innerScopes, hscopes.symm⟩
    have hcount : (scope' :: below').length = (scope :: below).length := by
      rw [hlength', ← hspine, ← hseated.length_scopes, htop]
      rfl
    exact List.cons.inj ((List.suffix_of_suffix_length_le hsuffix' hsuffix hcount.le).eq_of_length hcount)
  have hown : p.kind.isCallable = true → top = ⟨env.source.range p, [], []⟩ := by
    intro hp
    have hentry : Entry env.source s' p ((w m).state, true) := henter ▸ enter_entry env s' p spine
    obtain ⟨_, hs⟩ := hentry.own_scope rfl hp
    exact (List.cons.inj (htop.symm.trans hs)).1
  obtain ⟨front, hfront⟩ := hsuffix
  refine ⟨m, p, top, scope', ⟨hheight ▸ hrisen, ?_, ?_, hown, hg⟩, hwaits⟩
  · exact ⟨front, spine, hspine, hfront.symm⟩
  · exact ⟨innerScopes, below', htop, hscopes⟩

end ReferenceState

namespace Document

/-- The walk that reads the references of a document whose declarations are in `table`, after so many rounds. -/
def referenceMoment (d : Document) (table : SymbolTable) (pool : SymbolPool) (n : Nat) :
    Visitor.Walking ReferenceState :=
  let src := Source.ofDocument d
  let v := ReferenceState.visitor ⟨src, table.uri, pool⟩
  v.moment (v.start d.tree (ReferenceState.initial src table.root)) n

theorem fits_start (d : Document) (table : SymbolTable) (pool : SymbolPool) :
    ReferenceState.Fits (Source.ofDocument d) (d.referenceMoment table pool 0) :=
  ReferenceState.fits_start ⟨Source.ofDocument d, table.uri, pool⟩ d.tree rfl rfl

/-- Only the reference of a variable that is assigned gets another type.
* At each moment, an outcome of a variable that waits in a frame points to its own reference, in the scope that was the
  innermost one when the frame was pushed; for a function, this is the scope that it opened itself.
* When a phrase that assigns is left, the variable of its first outcome and the reference of just that occurrence get
  the same type.
* In any other round no recorded reference changes, and over all rounds nothing about one but its type.
* The state at the last moment is the one in which the walk over the document ends. -/
theorem retyped_is_assigned (d : Document) (table : SymbolTable) (pool : SymbolPool) :
    let src := Source.ofDocument d
    let w := d.referenceMoment table pool
    (∀ n inner f outer, (w n).state.frames = inner ++ f :: outer → ∃ m p top scope,
      OpenSince src w outer.length m n p top scope ∧ Waits src scope p.children f.outcomes) ∧
    (∀ n p f rest target others name, (w n).spine = p :: (w (n + 1)).spine → (w n).state.frames = f :: rest →
      ReferenceState.Assigning f.transform f.outcomes target others name →
      ReferenceState.Retypes src p target others name (w n).state (w (n + 1)).state) ∧
    (∀ n, (∀ p f rest target others name, (w n).spine = p :: (w (n + 1)).spine → (w n).state.frames = f :: rest →
      ¬ ReferenceState.Assigning f.transform f.outcomes target others name) →
      (w n).state.root.Grows Eq (w (n + 1)).state.root) ∧
    (∀ m n, m ≤ n → (w m).state.root.Grows Reference.SameButType (w n).state.root) ∧
    ∃ n, (∀ k, n ≤ k → w k = w n) ∧ (w n).state = ReferenceState.ofDocument d table pool := by
  intro src w
  let env : ReferenceInput := ⟨src, table.uri, pool⟩
  let v : Visitor ReferenceState := ReferenceState.visitor env
  have hstart : ReferenceState.Fits env.source (w 0) := d.fits_start table pool
  have hfits : ∀ n, ReferenceState.Fits env.source (w n) := ReferenceState.fits_moment hstart
  have hround : ∀ n, v.Round (w n) (w (n + 1)) := Visitor.round_moment _
  refine ⟨fun n inner f outer hf => ReferenceState.open_since hstart hf, ?_, ?_, ?_, ?_⟩
  · intro n p f rest target others name hspine hf ha
    exact ReferenceState.round_retypes (hfits n) (hround n) hspine hf ha
  · intro n hn
    exact (ReferenceState.round_keeps (hfits n) (hround n) hn).root fun _ => rfl
  · intro m n hle
    exact ReferenceState.root_grows hstart hle
  · exact v.exists_last_moment d.tree (ReferenceState.initial src table.root)

/-- An assignment in a closure that is assigned itself: `$x = fn() => $y = 1;`. -/
private def assignedClosure : Document :=
  ⟨"file:///a.php", "<?php $x = fn() => $y = 1;",
    ⟨.statementList, [.phrase .expressionStatement [
      .phrase .simpleAssignmentExpression [
        .phrase .simpleVariable [.token ⟨.variableName, 6, 2⟩], .token ⟨.equals, 9, 1⟩,
        .phrase .arrowFunctionCreationExpression [.token ⟨.fnKeyword, 11, 2⟩, .token ⟨.openParen, 13, 1⟩,
          .token ⟨.closeParen, 14, 1⟩, .token ⟨.fatArrow, 16, 2⟩,
          .phrase .simpleAssignmentExpression [.phrase .simpleVariable [.token ⟨.variableName, 19, 2⟩],
            .token ⟨.equals, 22, 1⟩, .token ⟨.integerLiteral, 24, 1⟩]]],
      .token ⟨.semicolon, 25, 1⟩]]⟩⟩

/-- While the closure is read, `$x` waits for its type.  It is in the first place of the file, as `$y` is in the first
place of the closure. -/
theorem retyped_is_assigned_closure :
    let src := Source.ofDocument assignedClosure
    let w := assignedClosure.referenceMoment (SymbolTable.ofDocument assignedClosure) (SymbolPool.empty {})
    (∃ inner f outer, (w 17).state.frames = inner ++ f :: outer ∧ (w 17).state.scopes.length = 2 ∧
      f.outcomes.map (·.variableName) = [some "$x"] ∧ ∃ m p top scope,
        OpenSince src w outer.length m 17 p top scope ∧ Waits src scope p.children f.outcomes) ∧
    (∃ p f rest target others, (w 19).spine = p :: (w 20).spine ∧ (w 19).state.frames = f :: rest ∧
      ReferenceState.Assigning f.transform f.outcomes target others "$x" ∧
      ReferenceState.Retypes src p target others "$x" (w 19).state (w 20).state) ∧
    (w 18).state.root.Grows Eq (w 19).state.root ∧
    (w 17).state.root.Grows Reference.SameButType (w 20).state.root := by
  intro src w
  obtain ⟨hwaits, hretypes, hkeeps, hgrows, -⟩ :=
    retyped_is_assigned assignedClosure (SymbolTable.ofDocument assignedClosure) (SymbolPool.empty {})
  have hwaiting : (w 17).state.frames.map (·.outcomes.map (·.variableName)) =
      [[some "$y", none], [], [some "$x"], [], []] := by decide +kernel
  have hassigned : (w 19).state.frames.map (fun f => (f.transform, f.outcomes.map (·.variableName))) =
      [(.assignment, [some "$x", none]), (.discard, []), (.discard, [])] := by decide +kernel
  have hclosure : (w 18).state.frames.map (·.transform.assigns) = [false, true, false, false] := by decide +kernel
  refine ⟨?_, ?_, ?_, ?_⟩
  · obtain ⟨a, _, hf, -, hrest⟩ := List.map_eq_cons_iff.1 hwaiting
    obtain ⟨b, _, rfl, -, hrest⟩ := List.map_eq_cons_iff.1 hrest
    obtain ⟨f, outer, rfl, hx, -⟩ := List.map_eq_cons_iff.1 hrest
    exact ⟨[a, b], f, outer, hf, by decide +kernel, hx, hwaits 17 [a, b] f outer hf⟩
  · obtain ⟨f, rest, hf, hassign, -⟩ := List.map_eq_cons_iff.1 hassigned
    obtain ⟨htransform, houtcomes⟩ := Prod.mk.inj hassign
    obtain ⟨target, others, houtcomes, hname, -⟩ := List.map_eq_cons_iff.1 houtcomes
    have ha : ReferenceState.Assigning f.transform f.outcomes target others "$x" :=
      ⟨by rw [htransform]; rfl, houtcomes, hname⟩
    obtain ⟨p, hspine⟩ : ∃ p, (w 19).spine = p :: (w 20).spine := ⟨_, rfl⟩
    exact ⟨p, f, rest, target, others, hspine, hf, ha, hretypes 19 p f rest target others "$x" hspine hf ha⟩
  · refine hkeeps 18 fun p f rest target others name _ hf ha => ?_
    rw [hf, List.map_cons] at hclosure
    exact nomatch (List.cons.inj hclosure).1.symm.trans ha.transform
  · exact hgrows 17 20 (by decide)

end Document

end CodeAtlas
