import CodeAtlas.Proofs.Walk
import Mathlib.Data.List.Infix

/-!
# Moments of a walk

A walk in rounds has a first moment, when its root has been entered, and after each round a next one.  `round_moment`
lists what one round does; what every round keeps holds at every moment (`moment_keeps`), and the last moment is the end
of the whole traversal (`exists_last_moment`).

The stack of open phrases grows by one phrase at most in a round.  So each of them has a moment since when it is open
(`exists_risen`), and the phrases around it have been there all the time (`Risen.suffix`).
-/

namespace CodeAtlas

namespace Visitor

variable {σ : Type} (v : Visitor σ)

/-- The walk after the given number of rounds; it stays where it is when no round is left. -/
def moment (w : Walking σ) : Nat → Walking σ
  | 0 => w
  | n + 1 => (v.advance? (moment w n)).getD (moment w n)

/-- What one round does at the child where the innermost open phrase stands. -/
inductive Round : Walking σ → Walking σ → Prop
  | rest (w : Walking σ) : Round w w
  | token {p : Phrase} {outer : List Phrase} {c : Nat} {cursors : List Nat} {s : σ} {t : Token}
    (child : p.children[c]? = some (.token t)) :
    Round ⟨p :: outer, c :: cursors, s⟩ ⟨p :: outer, (c + 1) :: cursors, v.token s t (p :: outer)⟩
  | refused {p q : Phrase} {outer : List Phrase} {c : Nat} {cursors : List Nat} {s s' : σ}
    (child : p.children[c]? = some q.toNode) (enter : v.enter s q (p :: outer) = (s', false)) :
    Round ⟨p :: outer, c :: cursors, s⟩ ⟨p :: outer, (c + 1) :: cursors, s'⟩
  | entered {p q : Phrase} {outer : List Phrase} {c : Nat} {cursors : List Nat} {s s' : σ}
    (child : p.children[c]? = some q.toNode) (enter : v.enter s q (p :: outer) = (s', true)) :
    Round ⟨p :: outer, c :: cursors, s⟩ ⟨q :: p :: outer, 0 :: (c + 1) :: cursors, s'⟩
  | left {p : Phrase} {outer : List Phrase} {c : Nat} {cursors : List Nat} {s : σ}
    (child : p.children[c]? = none) :
    Round ⟨p :: outer, c :: cursors, s⟩ ⟨outer, cursors, v.leave s p outer⟩

section

variable {v} {w w' : Walking σ}

theorem round_of_advance (h : v.advance? w = some w') : v.Round w w' := by
  obtain ⟨spine, counts, s⟩ := w
  rcases spine with _ | ⟨p, outer⟩
  · cases h
  rcases counts with _ | ⟨c, cursors⟩
  · cases h
  cases hc : p.children[c]? with
  | none =>
    rw [advance_closed hc] at h
    cases h
    exact .left hc
  | some n =>
    cases n with
    | token t =>
      rw [advance_token hc] at h
      cases h
      exact .token hc
    | phrase kind children =>
      rcases he : v.enter s ⟨kind, children⟩ (p :: outer) with ⟨s', entered⟩
      cases entered with
      | false =>
        rw [advance_refused hc he] at h
        cases h
        exact .refused (q := ⟨kind, children⟩) hc he
      | true =>
        rw [advance_entered hc he] at h
        cases h
        exact .entered (q := ⟨kind, children⟩) hc he

theorem round_moment (w : Walking σ) (n : Nat) : v.Round (v.moment w n) (v.moment w (n + 1)) := by
  rw [moment]
  cases h : v.advance? (v.moment w n) with
  | none => exact .rest _
  | some w' => exact round_of_advance h

/-- What every round keeps holds at every moment. -/
theorem moment_keeps {inv : Walking σ → Prop} (hw : inv w) (step : ∀ w w', inv w → v.Round w w' → inv w') (n : Nat) :
    inv (v.moment w n) := by
  induction n with
  | zero => exact hw
  | succ n ih => exact step _ _ ih (round_moment w n)

theorem moment_advance (h : v.advance? w = some w') (n : Nat) : v.moment w (n + 1) = v.moment w' n := by
  induction n with
  | zero =>
    rw [moment, moment, moment, h]
    rfl
  | succ n ih => rw [moment, ih, moment]

theorem moment_stays {n : Nat} (h : v.advance? (v.moment w n) = none) {k : Nat} (hk : n ≤ k) :
    v.moment w k = v.moment w n := by
  induction k, hk using Nat.le_induction with
  | base => rfl
  | succ k _ ih =>
    rw [moment, ih, h]
    rfl

/-- There is a last moment, when the walk is in the state where it ends. -/
theorem exists_last_moment (root : Phrase) (s : σ) :
    ∃ n, (∀ k, n ≤ k → v.moment (v.start root s) k = v.moment (v.start root s) n) ∧
      (v.moment (v.start root s) n).state = v.traverse root s := by
  have hends : ∀ w r, v.Ends w r → ∃ n, v.advance? (v.moment w n) = none ∧ (v.moment w n).state = r := by
    intro w r h
    induction h with
    | stop h => exact ⟨0, h, rfl⟩
    | round h _ ih =>
      obtain ⟨n, hstop, hstate⟩ := ih
      refine ⟨n + 1, ?_⟩
      rw [moment_advance h]
      exact ⟨hstop, hstate⟩
  obtain ⟨n, hstop, hstate⟩ := hends _ _ (v.ends_start root s)
  rw [traverse_eq_walk]
  exact ⟨n, fun _ hk => moment_stays hstop hk, hstate⟩

/-- A round leaves the stack of open phrases as it is, or enters one phrase, or leaves one. -/
theorem Round.spine (h : v.Round w w') :
    w'.spine = w.spine ∨ (∃ p, w'.spine = p :: w.spine) ∨ ∃ p, w.spine = p :: w'.spine := by
  cases h with
  | rest => exact Or.inl rfl
  | token => exact Or.inl rfl
  | refused => exact Or.inl rfl
  | entered => exact Or.inr (Or.inl ⟨_, rfl⟩)
  | left => exact Or.inr (Or.inr ⟨_, rfl⟩)

/-- A round after which one phrase more is open enters that phrase. -/
theorem Round.enters {p : Phrase} (h : v.Round w w') (hspine : w'.spine = p :: w.spine) :
    v.enter w.state p w.spine = (w'.state, true) := by
  have hlength : w'.spine.length = w.spine.length + 1 := congrArg List.length hspine
  cases h with
  | entered _ enter =>
    obtain ⟨rfl, -⟩ := List.cons.inj hspine
    exact enter
  | rest | token | refused => exact absurd hlength (Nat.ne_of_lt (Nat.lt_succ_self _))
  | left =>
    simp only [List.length_cons] at hlength
    omega

/-- A round after which one phrase less is open leaves that phrase, once all its children are done. -/
theorem Round.leaves {p : Phrase} (h : v.Round w w') (hspine : w.spine = p :: w'.spine) :
    ∃ c cursors, w.cursors = c :: cursors ∧ p.children[c]? = none ∧ w'.state = v.leave w.state p w'.spine := by
  have hlength : w.spine.length = w'.spine.length + 1 := congrArg List.length hspine
  cases h with
  | left child =>
    obtain ⟨rfl, -⟩ := List.cons.inj hspine
    exact ⟨_, _, rfl, child, rfl⟩
  | rest | token | refused => exact absurd hlength (Nat.ne_of_lt (Nat.lt_succ_self _))
  | entered =>
    simp only [List.length_cons] at hlength
    omega

end

end Visitor

/-! ### Since when a phrase is open -/

/-- From moment `m` on, and at least until `n`, a height is above `k`, to which it rose in the round before. -/
structure Risen (height : Nat → Nat) (k m n : Nat) : Prop where
  le : m ≤ n
  reached : height m = k + 1
  before : ∀ j, j + 1 = m → height j = k
  above : ∀ j, m ≤ j → j ≤ n → k < height j

theorem Risen.until {height : Nat → Nat} {k m n n' : Nat} (h : Risen height k m n) (hle : m ≤ n') (hle' : n' ≤ n) :
    Risen height k m n' :=
  ⟨hle, h.reached, h.before, fun j hj hj' => h.above j hj (hj'.trans hle')⟩

/-- Where a height grows by steps of one, each level below it has been reached at some moment for the last time. -/
theorem exists_risen {height : Nat → Nat} (hstart : height 0 ≤ 1) (hstep : ∀ n, height (n + 1) ≤ height n + 1)
    {k n : Nat} (h : k < height n) : ∃ m, Risen height k m n := by
  induction n with
  | zero => exact ⟨0, Nat.le_refl _, by omega, nofun, fun j hj hj' => by rwa [Nat.le_zero.1 hj']⟩
  | succ n ih =>
    by_cases hk : k < height n
    · obtain ⟨m, hm⟩ := ih hk
      refine ⟨m, by have := hm.le; omega, hm.reached, hm.before, fun j hj hj' => ?_⟩
      rcases Nat.lt_or_eq_of_le hj' with hj' | rfl
      · exact hm.above j hj (Nat.le_of_lt_succ hj')
      · exact h
    · have hstep := hstep n
      refine ⟨n + 1, Nat.le_refl _, by omega, fun j hj => by obtain rfl := Nat.succ.inj hj; omega, fun j hj hj' => ?_⟩
      rwa [Nat.le_antisymm hj' hj]

namespace Visitor

variable {σ : Type} {v : Visitor σ} {w : Walking σ}

theorem spine_start (root : Phrase) (s : σ) : (v.start root s).spine.length ≤ 1 := by
  unfold start
  split
  · exact Nat.zero_le 1
  · exact Nat.le_refl 1

theorem spine_moment_succ (n : Nat) : (v.moment w (n + 1)).spine.length ≤ (v.moment w n).spine.length + 1 := by
  rcases (round_moment w n : v.Round _ _).spine with h | ⟨p, h⟩ | ⟨p, h⟩
  · rw [h]
    exact Nat.le_succ _
  · rw [h, List.length_cons]
  · rw [h, List.length_cons]
    exact (Nat.le_succ _).trans (Nat.le_succ _)

/-- While a phrase is open, it and the phrases around it stay on the stack. -/
theorem suffix_of_risen {k m n : Nat} (h : Risen (fun j => (v.moment w j).spine.length) k m n) :
    (v.moment w m).spine <:+ (v.moment w n).spine := by
  induction n, h.le using Nat.le_induction with
  | base => exact List.suffix_rfl
  | succ n hle ih =>
    have hsuffix := ih (h.until hle (Nat.le_succ n))
    rcases (round_moment w n : v.Round _ _).spine with hs | ⟨q, hs⟩ | ⟨q, hs⟩
    · exact hs ▸ hsuffix
    · rw [hs]
      exact hsuffix.trans (List.suffix_cons q _)
    · rw [hs] at hsuffix
      rcases List.suffix_cons_iff.1 hsuffix with he | hsuffix
      · -- the phrase that is left is further in, since the height stays above `k`
        have hn : k < (v.moment w (n + 1)).spine.length := h.above _ (hle.trans (Nat.le_succ n)) (Nat.le_refl _)
        have hreached : (v.moment w m).spine.length = k + 1 := h.reached
        rw [he, List.length_cons] at hreached
        omega
      · exact hsuffix

/-- Where the stack has just grown, its innermost phrase has just been entered. -/
theorem entered_of_risen {root : Phrase} {s : σ} {k m n : Nat}
    (h : Risen (fun j => (v.moment (v.start root s) j).spine.length) k m n) :
    ∃ p outer s', (v.moment (v.start root s) m).spine = p :: outer ∧
      v.enter s' p outer = ((v.moment (v.start root s) m).state, true) := by
  have hreached : (v.moment (v.start root s) m).spine.length = k + 1 := h.reached
  cases m with
  | zero =>
    unfold moment start at *
    split at hreached
    · cases hreached
    · rename_i enter
      exact ⟨root, [], s, rfl, enter⟩
  | succ m =>
    have hbefore : (v.moment (v.start root s) m).spine.length = k := h.before m rfl
    have hround : v.Round (v.moment (v.start root s) m) (v.moment (v.start root s) (m + 1)) := round_moment _ m
    rcases hround.spine with hs | ⟨p, hs⟩ | ⟨p, hs⟩
    · rw [hs] at hreached
      omega
    · exact ⟨p, _, _, hs, hround.enters hs⟩
    · rw [hs, List.length_cons] at hbefore
      omega

end Visitor

end CodeAtlas
