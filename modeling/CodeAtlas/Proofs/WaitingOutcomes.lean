import CodeAtlas.Proofs.LeavingSteps
import CodeAtlas.Proofs.Moments
import Mathlib.Data.List.Forall2

/-!
# Waiting outcomes

The outcome of a variable tells where its reference is, by a place among the references of the innermost scope.  It may
wait in a frame while other scopes are opened and closed, and it may be handed on by the phrases around it.  While the
walk goes on, the stacks of phrases, frames and scopes fit each other (`Seated`): the outcomes that wait in a frame come
from children of its phrase, in order, and those of variables point to their own references in the scope inside that
phrase (`Waits`).  Every round keeps that (`fits_round`).  An outcome of a variable never comes out of a function, since
a function neither is a variable nor hands one on, so its place is never taken for one in another scope.
-/

namespace CodeAtlas

/-! ### Occurrences -/

/-- The variable whose outcome the node may hand to the phrase around it: the node itself, or one that a node inside
hands on. -/
inductive Node.HandsOn : Node → Phrase → Prop
  | itself (children : List Node) : HandsOn (.phrase .simpleVariable children) ⟨.simpleVariable, children⟩
  | passed {kind : PhraseKind} {children : List Node} {n : Node} {q : Phrase} (h : kind.handsOn = true)
    (hn : n ∈ children) (hq : HandsOn n q) : HandsOn (.phrase kind children) q

theorem Node.HandsOn.not_callable {p q : Phrase} (h : p.toNode.HandsOn q) : p.kind.isCallable = false := by
  obtain ⟨kind, children⟩ := p
  cases h with
  | itself => rfl
  | passed h => exact PhraseKind.not_callable_of_handsOn h

/-- The reference is that of an occurrence of the variable `x`, the one that the node hands on. -/
structure Reference.Occurs (src : Source) (n : Node) (x : String) (r : Reference) : Prop where
  kind : r.kind = .var
  name : r.name = x
  written : ∃ q t, n.HandsOn q ∧ q.token? .variableName = some t ∧ src.text t = x ∧ r.range = src.tokenRange t

theorem Reference.Occurs.of_sameButType {src : Source} {n : Node} {x : String} {r r' : Reference}
    (h : r.Occurs src n x) (h' : r.SameButType r') : r'.Occurs src n x := by
  refine ⟨h'.kind.trans h.kind, h'.name.trans h.name, ?_⟩
  rw [h'.range]
  exact h.written

/-- If it is the outcome of a variable, then it points to a reference of the scope, which is that of the occurrence that
the node hands on. -/
def Outcome.Stems (src : Source) (scope : ScopeTree) (n : Node) (o : Outcome) : Prop :=
  ∀ x, o.variableName = some x → ∃ i r, o.reference = some i ∧ scope.references[i]? = some r ∧ r.Occurs src n x

/-- The outcomes stem from some of the nodes, in order. -/
def Waits (src : Source) (scope : ScopeTree) (nodes : List Node) (outcomes : List Outcome) : Prop :=
  ∃ ns : List Node, ns.Sublist nodes ∧ List.Forall₂ (Outcome.Stems src scope) ns outcomes

section

variable {src : Source} {scope scope' : ScopeTree} {n : Node} {o : Outcome} {nodes : List Node}
  {outcomes : List Outcome}

theorem Outcome.stems_of_unnamed (h : o.variableName = none) : o.Stems src scope n :=
  fun _ hx => nomatch h.symm.trans hx

theorem Outcome.Stems.grow (h : o.Stems src scope n) (hg : scope.Grows Reference.SameButType scope') :
    o.Stems src scope' n := by
  intro x hx
  obtain ⟨i, r, hi, hr, ho⟩ := h x hx
  obtain ⟨r', hr', hsame⟩ := hg.references.getElem? hr
  exact ⟨i, r', hi, hr', ho.of_sameButType hsame⟩

theorem Waits.nil : Waits src scope nodes [] :=
  ⟨[], List.nil_sublist nodes, .nil⟩

theorem Waits.grow (h : Waits src scope nodes outcomes) (hg : scope.Grows Reference.SameButType scope') :
    Waits src scope' nodes outcomes := by
  obtain ⟨ns, hns, ho⟩ := h
  exact ⟨ns, hns, ho.imp fun _ _ h => h.grow hg⟩

/-- One more node is done, and what it hands over waits behind the others. -/
theorem Waits.snoc {c : Nat} {given : Option Outcome} (h : Waits src scope (nodes.take c) outcomes)
    (hn : nodes[c]? = some n) (hgiven : ∀ o ∈ given, o.Stems src scope n) :
    Waits src scope (nodes.take (c + 1)) (outcomes ++ given.toList) := by
  obtain ⟨ns, hns, ho⟩ := h
  have htake : nodes.take (c + 1) = nodes.take c ++ [n] := by rw [List.take_add_one, hn, Option.toList_some]
  rw [htake]
  cases given with
  | none =>
    rw [Option.toList_none, List.append_nil]
    exact ⟨ns, hns.trans (List.sublist_append_left _ _), ho⟩
  | some o =>
    exact ⟨ns ++ [n], hns.append (List.Sublist.refl _), List.rel_append ho (.cons (hgiven o rfl) .nil)⟩

end

/-! ### Stacks that fit each other -/

/-- The scopes that are open around the phrase, where `scopes` are those inside it. -/
def Phrase.scopesAround (p : Phrase) (scopes : List ScopeTree) : List ScopeTree :=
  if p.kind.isCallable then scopes.tail else scopes

theorem Phrase.scopesAround_callable {p : Phrase} (hp : p.kind.isCallable = true) (scopes : List ScopeTree) :
    p.scopesAround scopes = scopes.tail :=
  if_pos hp

theorem Phrase.scopesAround_other {p : Phrase} (hp : p.kind.isCallable = false) (scopes : List ScopeTree) :
    p.scopesAround scopes = scopes :=
  if_neg (Bool.eq_false_iff.1 hp)

/-- The node is the next one inside the innermost phrase, if there is one. -/
def Node.IsNext (n : Node) : List Phrase → List Nat → Prop
  | p :: _, c :: _ => p.children[c]? = some n
  | _, _ => True

/-- One more child of the innermost phrase is done. -/
def countChild : List Nat → List Nat
  | [] => []
  | c :: counts => (c + 1) :: counts

/-- The open phrases, the numbers of their children that are done, their frames and the open scopes fit each other. -/
inductive Seated (src : Source) : List Phrase → List Nat → List ReferenceFrame → List ScopeTree → Prop
  | file (scope : ScopeTree) : Seated src [] [] [] [scope]
  | cons {p : Phrase} {spine : List Phrase} {c : Nat} {counts : List Nat} {f : ReferenceFrame}
    {frames : List ReferenceFrame} {scope : ScopeTree} {below : List ScopeTree} (suits : f.Suits p.kind)
    (next : p.toNode.IsNext spine counts) (waits : Waits src scope (p.children.take c) f.outcomes)
    (rest : Seated src spine counts frames (p.scopesAround (scope :: below))) :
    Seated src (p :: spine) (c :: counts) (f :: frames) (scope :: below)

namespace Seated

variable {src : Source} {spine : List Phrase} {counts : List Nat} {frames : List ReferenceFrame}
  {scope scope' : ScopeTree} {scopes below : List ScopeTree}

theorem exists_innermost (h : Seated src spine counts frames scopes) : ∃ scope below, scopes = scope :: below := by
  cases h with
  | file scope => exact ⟨scope, [], rfl⟩
  | cons => exact ⟨_, _, rfl⟩

theorem length_frames (h : Seated src spine counts frames scopes) : frames.length = spine.length := by
  induction h with
  | file => rfl
  | cons _ _ _ _ ih => rw [List.length_cons, List.length_cons, ih]

/-- There is one scope for each open function, and one for the file. -/
theorem length_scopes (h : Seated src spine counts frames scopes) :
    scopes.length = spine.countP (·.kind.isCallable) + 1 := by
  induction h with
  | file => rfl
  | @cons p _ _ _ _ _ scope below _ _ _ _ ih =>
    cases hp : p.kind.isCallable with
    | false =>
      rw [Phrase.scopesAround_other hp] at ih
      rw [List.countP_cons, hp]
      exact ih
    | true =>
      rw [Phrase.scopesAround_callable hp] at ih
      rw [List.countP_cons, hp, List.length_cons]
      exact congrArg (· + 1) ih

/-- Inside the innermost scope there is room to grow. -/
theorem grow (h : Seated src spine counts frames (scope :: below)) (hg : scope.Grows Reference.SameButType scope') :
    Seated src spine counts frames (scope' :: below) := by
  generalize hs : scope :: below = scopes at h
  induction h with
  | file =>
    cases hs
    exact .file scope'
  | @cons p _ _ _ _ _ _ _ suits next waits rest ih =>
    cases hs
    refine .cons suits next (waits.grow hg) ?_
    cases hp : p.kind.isCallable with
    | false =>
      rw [Phrase.scopesAround_other hp] at ih ⊢
      exact ih rfl
    | true =>
      rw [Phrase.scopesAround_callable hp] at rest ⊢
      exact rest

/-- A child of the innermost phrase is done, and hands over what stems from it. -/
theorem hand {n : Node} {given : Option Outcome} (h : Seated src spine counts frames (scope :: below))
    (next : n.IsNext spine counts) (hgiven : ∀ o ∈ given, o.Stems src scope n) :
    Seated src spine (countChild counts) (ReferenceFrame.hand given frames) (scope :: below) := by
  cases h with
  | file => exact .file scope
  | cons suits next' waits rest => exact .cons ⟨suits.1, suits.2, suits.3, suits.4⟩ next' (waits.snoc next hgiven) rest

/-- The outer phrases and their frames fit the outer scopes. -/
theorem suffix {spine' : List Phrase} (h : Seated src spine counts frames scopes) (hs : spine' <:+ spine) :
    ∃ counts' scopes', Seated src spine' counts' (frames.drop (spine.length - spine'.length)) scopes' ∧
      scopes' <:+ scopes := by
  induction h with
  | file scope =>
    obtain rfl := List.suffix_nil.1 hs
    exact ⟨[], [scope], .file scope, List.suffix_rfl⟩
  | @cons p spine c counts f frames scope below suits next waits rest ih =>
    rcases List.suffix_cons_iff.1 hs with rfl | hs
    · refine ⟨c :: counts, scope :: below, ?_, List.suffix_rfl⟩
      rw [Nat.sub_self]
      exact .cons suits next waits rest
    · obtain ⟨counts', scopes', hseated, hsuffix⟩ := ih hs
      refine ⟨counts', scopes', ?_, hsuffix.trans ?_⟩
      · rwa [List.length_cons, Nat.succ_sub hs.length_le, List.drop_succ_cons]
      · unfold Phrase.scopesAround
        split
        · exact List.suffix_cons scope below
        · exact List.suffix_rfl

end Seated

/-! ### Finishing a phrase -/

/-- What a phrase hands on stems from it, since it stems from a child. -/
theorem Waits.handedOn {src : Source} {scope : ScopeTree} {kind : PhraseKind} {children : List Node}
    {outcomes : List Outcome} (h : Waits src scope children outcomes) (hkind : kind.handsOn = true) :
    ∀ o ∈ outcomes.head?, o.Stems src scope (.phrase kind children) := by
  intro o ho x hx
  obtain ⟨ns, hns, hstems⟩ := h
  cases hstems with
  | nil => cases ho
  | cons hn _ =>
    obtain rfl := Option.some.inj ho
    obtain ⟨i, r, hi, hr, hname, hvar, q, t, hq, hwritten⟩ := hn x hx
    exact ⟨i, r, hi, hr, hname, hvar, q, t, .passed hkind (hns.subset List.mem_cons_self) hq, hwritten⟩

namespace ReferenceState

variable {src : Source} {s : ReferenceState} {scope : ScopeTree} {below : List ScopeTree} {p : Phrase}
  {f : ReferenceFrame} {result : ReferenceState × Option Outcome}

/-- A variable records its reference in the place that its outcome tells. -/
theorem recordTyped_settles (src : Source) {t : Token} {children : List Node} (hs : s.scopes = scope :: below)
    (ht : (Phrase.mk .simpleVariable children).token? .variableName = some t) (type : TypeText) :
    let r : Reference := (Reference.bare .var (src.text t) (src.tokenRange t)).withType type
    let scope' : ScopeTree := { scope with references := scope.references ++ [r] }
    let result := s.recordTyped (Reference.bare .var (src.text t) (src.tokenRange t)) type (some (src.text t))
    result.1.scopes = scope' :: below ∧
      ∀ o ∈ result.2, o.Stems src scope' (.phrase .simpleVariable children) := by
  intro r scope' result
  have hplace : s.nextPlace? = some scope.references.length := by
    unfold nextPlace?
    rw [hs]
    rfl
  constructor
  · unfold result recordTyped record
    rw [hs]
  · intro o ho x hx
    obtain rfl := Option.some.inj ho
    obtain rfl := Option.some.inj hx
    refine ⟨scope.references.length, r, hplace, List.getElem?_concat_length, rfl, rfl, ?_⟩
    exact ⟨_, t, .itself children, ht, rfl, rfl⟩

/-- What has been recorded stays, types aside, and the outcome of a variable points to its reference. -/
theorem Finish.settles (h : Finish src s p f.transform f.outcomes result) (suits : f.Suits p.kind)
    (hs : s.scopes = scope :: below) (waits : Waits src scope p.children f.outcomes) :
    ∃ scope', result.1.scopes = scope' :: below ∧ scope.Grows Reference.SameButType scope' ∧
      ∀ o ∈ result.2, o.Stems src scope' p.toNode := by
  obtain ⟨kind, children⟩ := p
  generalize ht : f.transform = transform at h
  generalize ho : f.outcomes = outcomes at h
  cases h with
  | @assigned target others name given type _ hgiven =>
    obtain ⟨scope', hs', hg⟩ := changeType_grows hs target.reference type
    exact ⟨scope', hs', hg, fun o ho => Outcome.stems_of_unnamed (hgiven o ho)⟩
  | @made t type ht' token =>
    obtain rfl : kind = .simpleVariable := suits.makes (ht.trans ht')
    obtain ⟨hs', hstems⟩ := recordTyped_settles src hs token type
    exact ⟨_, hs', .of_references .refl scope ((Prolongs.refl .refl scope.references).append _), hstems⟩
  | handedOn ht' =>
    rw [ho] at waits
    exact ⟨scope, hs, .refl .refl scope, waits.handedOn (suits.handsOn (ht.trans ht'))⟩
  | other _ hrecorded hgiven =>
    rw [hs] at hrecorded
    obtain ⟨scope', hs', hg⟩ := hrecorded.grows Reference.SameButType.refl
    exact ⟨scope', hs', hg, fun o ho => Outcome.stems_of_unnamed (hgiven o ho)⟩

end ReferenceState

/-! ### Rounds -/

namespace Seated

variable {src : Source} {spine : List Phrase} {counts : List Nat} {s s' : ReferenceState} {p : Phrase}

/-- A child is done that records references and hands over no variable. -/
theorem visited {n : Node} {given : Option Outcome}
    (h : Seated src spine counts (s.frames.map ReferenceFrame.armless) s.scopes) (next : n.IsNext spine counts)
    (hf : s'.frames.map ReferenceFrame.armless = ReferenceFrame.hand given (s.frames.map ReferenceFrame.armless))
    (hs : Recorded s.scopes s'.scopes) (hgiven : ∀ o ∈ given, o.variableName = none) :
    Seated src spine (countChild counts) (s'.frames.map ReferenceFrame.armless) s'.scopes := by
  obtain ⟨scope, below, hscopes⟩ := h.exists_innermost
  rw [hscopes] at h hs
  obtain ⟨scope', hscopes', hg⟩ := hs.grows Reference.SameButType.refl
  rw [hf, hscopes']
  exact (h.grow hg).hand next fun o ho => Outcome.stems_of_unnamed (hgiven o ho)

theorem entered {entry : ReferenceState × Bool}
    (h : Seated src spine counts (s.frames.map ReferenceFrame.armless) s.scopes) (next : p.toNode.IsNext spine counts)
    (he : ReferenceState.Entry src s p entry) (hentered : entry.2 = true) :
    Seated src (p :: spine) (0 :: counts) (entry.1.frames.map ReferenceFrame.armless) entry.1.scopes := by
  obtain ⟨scope, below, hscopes⟩ := h.exists_innermost
  rw [hscopes] at h
  have hgrown : ∀ {s₁ : ReferenceState}, s.Appends s₁ → ∃ scope', s₁.scopes = scope' :: below ∧
      Seated src spine counts (s₁.frames.map ReferenceFrame.armless) (scope' :: below) := by
    intro s₁ ha
    obtain ⟨scope', hscopes', hg⟩ := (hscopes ▸ ha.scopes).grows Reference.SameButType.refl
    exact ⟨scope', hscopes', ha.frames ▸ h.grow hg⟩
  cases he with
  | refused => cases hentered
  | @plain s₁ _ _ ha hp suits =>
    obtain ⟨scope', hs₁, hseated⟩ := hgrown ha
    change Seated src _ _ (_ :: s₁.frames.map ReferenceFrame.armless) s₁.scopes
    rw [hs₁]
    refine .cons (ReferenceFrame.suits_armless.2 suits) next .nil ?_
    rwa [Phrase.scopesAround_other hp]
  | @callable s₂ _ _ ho hp suits =>
    obtain ⟨s₁, ha, hf, hs₂⟩ := ho
    obtain ⟨scope', hs₁, hseated⟩ := hgrown ha
    change Seated src _ _ (_ :: s₂.frames.map ReferenceFrame.armless) s₂.scopes
    rw [hs₂, hs₁, hf]
    refine .cons (ReferenceFrame.suits_armless.2 suits) next .nil ?_
    rwa [Phrase.scopesAround_callable hp]

/-- The frame of the innermost phrase, once all its children are done. -/
theorem frame {c : Nat} (h : Seated src (p :: spine) (c :: counts) (s.frames.map ReferenceFrame.armless) s.scopes)
    (hdone : p.children[c]? = none) : ∃ f rest scope below, s.frames = f :: rest ∧ f.Suits p.kind ∧
      s.scopes = scope :: below ∧ Waits src scope p.children f.outcomes ∧ p.toNode.IsNext spine counts ∧
      Seated src spine counts (rest.map ReferenceFrame.armless) (p.scopesAround (scope :: below)) := by
  generalize hframes : s.frames.map ReferenceFrame.armless = frames at h
  generalize hscopes : s.scopes = scopes at h
  cases h with
  | cons suits next waits around =>
    obtain ⟨f, rest, hf, rfl, rfl⟩ := List.map_eq_cons_iff.1 hframes
    rw [List.take_of_length_le (List.getElem?_eq_none_iff.1 hdone)] at waits
    exact ⟨f, rest, _, _, hf, ReferenceFrame.suits_armless.1 suits, rfl, waits, next, around⟩

/-- The innermost phrase is left, once all its children are done. -/
theorem left {env : ReferenceInput} {c : Nat}
    (h : Seated env.source (p :: spine) (c :: counts) (s.frames.map ReferenceFrame.armless) s.scopes)
    (hdone : p.children[c]? = none) : Seated env.source spine (countChild counts)
      ((s.leave env p).frames.map ReferenceFrame.armless) (s.leave env p).scopes := by
  obtain ⟨f, rest, scope, below, hf, suits, hscopes, waits, next, around⟩ := h.frame hdone
  obtain ⟨scope', hs', hg, hgiven⟩ := (ReferenceState.finish_finished env s p f rest).settles suits hscopes waits
  rw [ReferenceState.frames_leave hf, ReferenceFrame.map_armless_hand, ReferenceState.scopes_leave hf suits]
  cases hp : p.kind.isCallable with
  | false =>
    rw [Phrase.scopesAround_other hp] at around
    rw [if_neg nofun, hs']
    exact (around.grow hg).hand next hgiven
  | true =>
    rw [Phrase.scopesAround_callable hp] at around
    obtain ⟨parent, below, rfl⟩ := around.exists_innermost
    rw [if_pos rfl, ReferenceState.scopes_closeScope hs']
    -- an outcome of a variable would come out of the function
    refine (around.grow ((ScopeTree.Grows.refl .refl parent).close scope')).hand next fun o ho x hx => ?_
    obtain ⟨-, -, -, -, -, -, q, -, hq, -⟩ := hgiven o ho x hx
    exact nomatch hp.symm.trans hq.not_callable

end Seated

/-- The numbers of the next children, where so many of them are done: inside an outer phrase one more is under way. -/
def cursorsOf : List Nat → List Nat
  | [] => []
  | c :: counts => c :: counts.map (· + 1)

theorem cursorsOf_countChild (counts : List Nat) : cursorsOf (countChild counts) = counts.map (· + 1) := by
  cases counts <;> rfl

theorem eq_cursorsOf {c : Nat} {cursors counts : List Nat} (h : c :: cursors = cursorsOf counts) :
    ∃ outer, counts = c :: outer ∧ cursors = outer.map (· + 1) := by
  cases counts with
  | nil => cases h
  | cons c' outer =>
    obtain ⟨rfl, rfl⟩ := List.cons.inj h
    exact ⟨outer, rfl, rfl⟩

namespace ReferenceState

/-- A walk under way whose stacks fit each other. -/
def Fits (src : Source) (w : Visitor.Walking ReferenceState) : Prop :=
  ∃ counts, w.cursors = cursorsOf counts ∧
    Seated src w.spine counts (w.state.frames.map ReferenceFrame.armless) w.state.scopes

section

variable {env : ReferenceInput} {w w' : Visitor.Walking ReferenceState}

theorem fits_round (h : Fits env.source w) (hround : (visitor env).Round w w') :
    Fits env.source w' := by
  obtain ⟨counts, hcursors, hseated⟩ := h
  cases hround with
  | rest => exact ⟨counts, hcursors, hseated⟩
  | @token p outer c _ s t child =>
    obtain ⟨counts, rfl, rfl⟩ := eq_cursorsOf hcursors
    obtain ⟨given, hgiven, hf, hs⟩ := token_hands env.source s t
    refine ⟨(c + 1) :: counts, rfl, hseated.visited child ?_ hs hgiven⟩
    rw [← ReferenceFrame.map_armless_hand, ← hf]
    rfl
  | @refused p q outer c _ s s' child enter =>
    obtain ⟨counts, rfl, rfl⟩ := eq_cursorsOf hcursors
    have hentry : Entry env.source s q (s', false) :=
      enter ▸ enter_entry env s q (p :: outer)
    obtain ⟨hf, hs⟩ := hentry.appends rfl
    refine ⟨(c + 1) :: counts, rfl, hseated.visited child ?_ hs unnamed_none⟩
    rw [ReferenceFrame.hand_none]
    exact hf
  | @entered p q outer c _ s s' child enter =>
    obtain ⟨counts, rfl, rfl⟩ := eq_cursorsOf hcursors
    have hentry : Entry env.source s q (s', true) :=
      enter ▸ enter_entry env s q (p :: outer)
    exact ⟨0 :: c :: counts, rfl, hseated.entered child hentry rfl⟩
  | @left p outer _ _ s child =>
    obtain ⟨counts, rfl, rfl⟩ := eq_cursorsOf hcursors
    exact ⟨countChild counts, (cursorsOf_countChild counts).symm, hseated.left child⟩

/-- The root is entered with no phrase around it. -/
theorem fits_start {s : ReferenceState} {scope : ScopeTree} (env : ReferenceInput) (root : Phrase) (hf : s.frames = [])
    (hs : s.scopes = [scope]) : Fits env.source ((visitor env).start root s) := by
  have hseated : Seated env.source [] [] (s.frames.map ReferenceFrame.armless) s.scopes := by
    rw [hf, hs]
    exact .file scope
  have hentry := enter_entry env s root []
  unfold Visitor.start
  split
  · rename_i s' he
    replace hentry : Entry env.source s root (s', false) := he ▸ hentry
    obtain ⟨hf', hs'⟩ := hentry.appends rfl
    refine ⟨[], rfl, hseated.visited (n := root.toNode) trivial ?_ hs' unnamed_none⟩
    rw [ReferenceFrame.hand_none]
    exact hf'
  · rename_i s' he
    replace hentry : Entry env.source s root (s', true) := he ▸ hentry
    exact ⟨[0], rfl, hseated.entered trivial hentry rfl⟩

/-- In a round the scopes grow, if those do in which a phrase is finished. -/
theorem round_stackGrows {R : Reference → Reference → Prop} (hR : ∀ r, R r r) (h : Fits env.source w)
    (hround : (visitor env).Round w w')
    (hfinish : ∀ p f rest scope below, w.spine = p :: w'.spine → w.state.frames = f :: rest → f.Suits p.kind →
      w.state.scopes = scope :: below → Waits env.source scope p.children f.outcomes →
      ∃ scope', (w.state.finished env p f rest).1.scopes = scope' :: below ∧ scope.Grows R scope') :
    StackGrows R w.state.scopes w'.state.scopes := by
  obtain ⟨counts, hcursors, hseated⟩ := h
  obtain ⟨scope, below, hscopes⟩ := hseated.exists_innermost
  rw [hscopes]
  cases hround with
  | rest =>
    rw [hscopes]
    exact .inner (.refl hR scope)
  | @token _ _ _ _ s t =>
    obtain ⟨_, _, _, hs⟩ := token_hands env.source s t
    exact (hscopes ▸ hs).stackGrows hR
  | @refused p q outer _ _ s s' _ enter =>
    have hentry : Entry env.source s q (s', false) :=
      enter ▸ enter_entry env s q (p :: outer)
    exact hentry.stackGrows hR hscopes
  | @entered p q outer _ _ s s' _ enter =>
    have hentry : Entry env.source s q (s', true) :=
      enter ▸ enter_entry env s q (p :: outer)
    exact hentry.stackGrows hR hscopes
  | @left p outer _ _ s child =>
    obtain ⟨counts, rfl, rfl⟩ := eq_cursorsOf hcursors
    obtain ⟨f, rest, scope, below, hf, suits, hs, waits, -, -⟩ := hseated.frame child
    obtain ⟨scope', hs', hg⟩ := hfinish p f rest scope below rfl hf suits hs waits
    rw [← hscopes, hs]
    exact leave_stackGrows hf suits hs' hg

end

end ReferenceState

end CodeAtlas
