import CodeAtlas.Proofs.LowerCase
import CodeAtlas.Text.Cut
import Mathlib.Data.List.Infix
import Mathlib.Data.List.TakeWhile

/-!
# Lower case of parts of a text

Every character becomes lower case on its own, but for a capital sigma, which looks at the letters around it.  So the
start of a text may be lowered differently on its own, and is just when it breaks off after a capital sigma in the
middle of a word (`lower_prefix_iff`).  The last segment of a name is not affected, since no word goes on across a
separator (`lower_lastSegment`).
-/

namespace CodeAtlas.Text

theorem occursIn_iff {part cs : List Char} : occursIn part cs = true ↔ part <:+: cs := by
  induction cs with
  | nil => rw [occursIn, List.isEmpty_iff, List.infix_nil]
  | cons c cs ih => rw [occursIn, Bool.or_eq_true, List.isPrefixOf_iff_prefix, ih, List.infix_cons_iff]

/-! ### Words that go on -/

/-- Ignorable characters are passed over. -/
theorem meetsCased_append_of_ignorable {cs : List Char} (h : ∀ c ∈ cs, isCaseIgnorable c = true) (rest : List Char) :
    meetsCased (cs ++ rest) = meetsCased rest := by
  unfold meetsCased
  rw [List.dropWhile_append_of_pos h]

theorem meetsCased_of_ignorable {cs : List Char} (h : ∀ c ∈ cs, isCaseIgnorable c = true) : meetsCased cs = false := by
  rw [← List.append_nil cs, meetsCased_append_of_ignorable h]
  rfl

/-- The first character that cannot be ignored decides. -/
theorem meetsCased_append_of_not_ignorable {cs : List Char} (h : ¬ ∀ c ∈ cs, isCaseIgnorable c = true)
    (rest : List Char) : meetsCased (cs ++ rest) = meetsCased cs := by
  have hne : cs.dropWhile isCaseIgnorable ≠ [] := fun hnil => h (List.dropWhile_eq_nil_iff.1 hnil)
  obtain ⟨c, tail, hc⟩ := List.exists_cons_of_ne_nil hne
  unfold meetsCased
  rw [List.dropWhile_append, hc]
  rfl

/-- What follows changes a sigma at the end of a word into one inside of it. -/
theorem lowerSigma_append_eq_iff (before back rest : List Char) :
    lowerSigma before (back ++ rest) = lowerSigma before back ↔
      ¬ (meetsCased before = true ∧ (∀ c ∈ back, isCaseIgnorable c = true) ∧ meetsCased rest = true) := by
  by_cases hback : ∀ c ∈ back, isCaseIgnorable c = true
  · unfold lowerSigma
    rw [meetsCased_append_of_ignorable hback, meetsCased_of_ignorable hback]
    cases meetsCased before <;> cases meetsCased rest <;> simp
    exact hback
  · unfold lowerSigma
    rw [meetsCased_append_of_not_ignorable hback]
    exact ⟨fun _ h => hback h.2.1, fun _ => rfl⟩

/-! ### Lower case between texts -/

/-- The lower case of a list between the reversed text `before` and the text `after`. -/
def lowerBetween (before after : List Char) : List Char → List Char
  | [] => []
  | c :: cs =>
    (if c = 'Σ' then [lowerSigma before (cs ++ after)] else lowerChar c) ++ lowerBetween (c :: before) after cs

theorem lowerAfter_append (before cs after : List Char) :
    lowerAfter before (cs ++ after) = lowerBetween before after cs ++ lowerAfter (cs.reverse ++ before) after := by
  induction cs generalizing before with
  | nil => rfl
  | cons c cs ih =>
    rw [List.cons_append, lowerAfter, lowerBetween, ih, List.append_assoc, List.reverse_cons, List.append_assoc]
    rfl

theorem lowerAfter_eq_lowerBetween (before cs : List Char) : lowerAfter before cs = lowerBetween before [] cs := by
  have h := lowerAfter_append before cs []
  rwa [lowerAfter, List.append_nil, List.append_nil] at h

theorem length_lowerBetween (before after after' cs : List Char) :
    (lowerBetween before after cs).length = (lowerBetween before after' cs).length := by
  induction cs generalizing before with
  | nil => rfl
  | cons c cs ih =>
    rw [lowerBetween, lowerBetween, List.length_append, List.length_append, ih]
    split <;> rfl

/-! ### Starts of a text -/

/-- The text breaks off in the middle of a word, after a capital sigma and perhaps ignorable characters, while `rest`
goes on with a letter. -/
def BreaksAtSigma (cs rest : List Char) : Prop :=
  ∃ front back, cs = front ++ 'Σ' :: back ∧ meetsCased front.reverse = true ∧
    (∀ c ∈ back, isCaseIgnorable c = true) ∧ meetsCased rest = true

private theorem lowerBetween_eq_iff (before rest cs : List Char) :
    lowerBetween before rest cs = lowerBetween before [] cs ↔
      ∀ front back, cs = front ++ 'Σ' :: back → ¬ (meetsCased (front.reverse ++ before) = true ∧
        (∀ c ∈ back, isCaseIgnorable c = true) ∧ meetsCased rest = true) := by
  induction cs generalizing before with
  | nil => exact ⟨fun _ front back h => absurd h.symm (by simp), fun _ => rfl⟩
  | cons c cs ih =>
    have hsplit : lowerBetween before rest (c :: cs) = lowerBetween before [] (c :: cs) ↔
        (c = 'Σ' → lowerSigma before (cs ++ rest) = lowerSigma before cs) ∧
          lowerBetween (c :: before) rest cs = lowerBetween (c :: before) [] cs := by
      rw [lowerBetween, lowerBetween, List.append_nil]
      by_cases hc : c = 'Σ'
      · simp [hc]
      · simp [hc]
    rw [hsplit, lowerSigma_append_eq_iff, ih]
    constructor
    · -- the sigma is the first character or a later one
      rintro ⟨hfirst, hlater⟩ front back he
      cases front with
      | nil =>
        obtain ⟨rfl, rfl⟩ := List.cons.inj he
        exact hfirst rfl
      | cons d front =>
        obtain ⟨rfl, rfl⟩ := List.cons.inj he
        rw [List.reverse_cons, List.append_assoc]
        exact hlater front back rfl
    · intro h
      refine ⟨fun hc => h [] cs (by rw [hc]; rfl), fun front back he => ?_⟩
      have hfront := h (c :: front) back (by rw [he]; rfl)
      rwa [List.reverse_cons, List.append_assoc] at hfront

/-- The lower case of a text begins with that of a start of it, unless the start breaks off at a sigma. -/
theorem lower_prefix_iff (cs rest : List Char) :
    (lower (String.ofList cs)).toList <+: (lower (String.ofList (cs ++ rest))).toList ↔ ¬ BreaksAtSigma cs rest := by
  have hsame : lowerBetween [] rest cs = lowerBetween [] [] cs ↔ ¬ BreaksAtSigma cs rest := by
    rw [lowerBetween_eq_iff]
    constructor
    · rintro h ⟨front, back, he, hfront, hback, hrest⟩
      exact h front back he ⟨by rwa [List.append_nil], hback, hrest⟩
    · intro h front back he ⟨hfront, hback, hrest⟩
      rw [List.append_nil] at hfront
      exact h ⟨front, back, he, hfront, hback, hrest⟩
  unfold lower
  simp only [String.toList_ofList]
  rw [lowerAfter_append, lowerAfter_eq_lowerBetween, ← hsame]
  constructor
  · intro h
    exact (List.IsPrefix.eq_of_length (List.prefix_of_prefix_length_le h (List.prefix_append _ _)
      (le_of_eq (length_lowerBetween _ _ _ _))) (length_lowerBetween _ _ _ _)).symm
  · intro h
    rw [h]
    exact List.prefix_append _ _

/-! ### The last segment -/

/-- No word goes on across a separator. -/
private theorem lowerAfter_separator (xs before cs : List Char) :
    lowerAfter (xs ++ '\\' :: before) cs = lowerAfter xs cs := by
  induction cs generalizing xs with
  | nil => rfl
  | cons c cs ih =>
    have hcased : meetsCased (xs ++ '\\' :: before) = meetsCased xs := by
      by_cases hxs : ∀ x ∈ xs, isCaseIgnorable x = true
      · rw [meetsCased_append_of_ignorable hxs, meetsCased_of_ignorable hxs]
        have hstop : isCaseIgnorable '\\' = false := by decide
        unfold meetsCased
        rw [List.dropWhile_cons_of_neg (by simp [hstop])]
        show isCased '\\' = false
        decide +kernel
      · exact meetsCased_append_of_not_ignorable hxs _
    have hrest := ih (c :: xs)
    rw [List.cons_append] at hrest
    rw [lowerAfter, lowerAfter, hrest, lowerSigma, lowerSigma, hcased]

private theorem separator_not_mem_lowerAfter {before cs : List Char} (h : '\\' ∉ cs) : '\\' ∉ lowerAfter before cs := by
  induction cs generalizing before with
  | nil => exact List.not_mem_nil
  | cons c cs ih =>
    rw [List.mem_cons, not_or] at h
    rw [lowerAfter, List.mem_append, not_or]
    refine ⟨?_, ih h.2⟩
    split
    · rw [List.mem_singleton]
      unfold lowerSigma
      split <;> decide
    · exact fun hc => h.1 (eq_separator_of_mem_lowerChar hc).symm

private theorem lastSegment_of_not_mem {cs : List Char} (h : '\\' ∉ cs) :
    lastSegment (String.ofList cs) = String.ofList cs := by
  unfold lastSegment
  rw [String.toList_ofList, List.takeWhile_eq_self_iff.2, List.reverse_reverse]
  intro c hc
  rw [bne_iff_ne]
  rintro rfl
  exact h (List.mem_reverse.1 hc)

private theorem lastSegment_append {front cs : List Char} (h : '\\' ∉ cs) :
    lastSegment (String.ofList (front ++ '\\' :: cs)) = String.ofList cs := by
  unfold lastSegment
  rw [String.toList_ofList, List.reverse_append, List.reverse_cons, List.append_assoc, List.takeWhile_append_of_pos]
  · simp
  · intro c hc
    rw [bne_iff_ne]
    rintro rfl
    exact h (List.mem_reverse.1 hc)

/-- The last segment of a name, and what stands before it. -/
private theorem exists_lastSegment (cs : List Char) :
    '\\' ∉ cs ∨ ∃ front last, cs = front ++ '\\' :: last ∧ '\\' ∉ last := by
  by_cases h : '\\' ∈ cs
  · obtain ⟨last, front, he, hlast⟩ := List.eq_append_cons_of_mem (List.mem_reverse.2 h)
    refine Or.inr ⟨front.reverse, last.reverse, ?_, fun hm => hlast (List.mem_reverse.1 hm)⟩
    rw [← List.reverse_reverse cs, he]
    simp
  · exact Or.inl h

/-- The lower case of the last segment is the last segment of the lower case. -/
theorem lower_lastSegment (s : String) : lower (lastSegment s) = lastSegment (lower s) := by
  rw [← String.ofList_toList (s := s)]
  rcases exists_lastSegment s.toList with h | ⟨front, last, he, hlast⟩
  · rw [lastSegment_of_not_mem h]
    unfold lower
    rw [String.toList_ofList, lastSegment_of_not_mem (separator_not_mem_lowerAfter h)]
  · rw [he, lastSegment_append hlast]
    unfold lower
    have hcut : lowerAfter [] (front ++ '\\' :: last) =
        lowerBetween [] ('\\' :: last) front ++ '\\' :: lowerAfter [] last := by
      rw [lowerAfter_append, lowerAfter, List.append_nil]
      have hword := lowerAfter_separator [] front.reverse last
      rw [List.nil_append] at hword
      rw [hword]
      rfl
    rw [String.toList_ofList, String.toList_ofList, hcut, lastSegment_append (separator_not_mem_lowerAfter hlast)]

end CodeAtlas.Text
