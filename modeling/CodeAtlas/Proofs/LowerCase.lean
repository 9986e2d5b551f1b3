import CodeAtlas.Symbol.Kind
import CodeAtlas.Text.Case

/-!
# Lower case and names

Two facts about lower case let names be compared through it.  Lowering is idempotent (`lower_lower`): the tables never
move a letter to a place that is moved in turn, and what becomes of a capital sigma is moved no further.  And texts that
agree up to the case of ASCII letters have the same lower case (`lower_of_sameFolded`), since an ASCII letter has the
same influence on a sigma in either case.
-/

namespace CodeAtlas.Text

/-! ### What is moved -/

/-- All shifts of the lower case mapping, that of the ASCII letters first. -/
def shifts : List Shift :=
  ⟨⟨65, 90, 1⟩, 97⟩ :: lowerShifts

/-- Whether the run has no point among `low, low + step, …, high`, told by the ends or by parity. -/
def Run.misses (r : Run) (low high step : Nat) : Bool :=
  Nat.blt high r.first || Nat.blt r.last low || (r.step == 2 && step == 2 && (low + r.first) % 2 == 1)

/-- The step between the images of a run; for a single point any step will do. -/
def Shift.imageStep (s : Shift) : Nat :=
  if s.first = s.last then 2 else s.step

/-- Whether the images of the shifted run are outside of another run. -/
def Shift.avoids (s : Shift) (r : Run) : Bool :=
  r.misses s.target (s.target + (s.last - s.first)) s.imageStep

/-- The images of all runs are outside of all runs. -/
private theorem shifts_avoid : (shifts.all fun s => shifts.all fun t => s.avoids t.toRun) = true := by
  decide +kernel

/-- No run is shifted onto the one letter that becomes two. -/
private theorem shifts_avoid_single : (shifts.all fun s => s.avoids ⟨0x130, 0x130, 2⟩) = true := by
  decide +kernel

/-- No run is shifted onto the separator of names. -/
private theorem shifts_avoid_separator : (shifts.all fun s => s.avoids ⟨92, 92, 2⟩) = true := by
  decide +kernel

private theorem contains_image {s : Shift} {r : Run} {m : Nat} (h : s.avoids r = true) (hm : s.contains m = true) :
    r.contains (s.target + (m - s.first)) = false := by
  unfold Run.contains at hm ⊢
  unfold Shift.avoids Run.misses Shift.imageStep at h
  simp only [Bool.and_eq_true, decide_eq_true_eq, beq_iff_eq] at hm
  obtain ⟨⟨hfirst, hlast⟩, hstep⟩ := hm
  simp only [Bool.or_eq_true, Bool.and_eq_true, Nat.blt_eq, beq_iff_eq] at h
  rcases h with (h | h) | ⟨⟨hr, hs⟩, hparity⟩
  · have hlow : ¬ r.first ≤ s.target + (m - s.first) := by omega
    simp [hlow]
  · have hhigh : ¬ s.target + (m - s.first) ≤ r.last := by omega
    simp [hhigh]
  · -- the image has the parity of the target, and the run has the other one
    have heven : (m - s.first) % 2 = 0 := by
      split at hs
      · omega
      · rwa [hs] at hstep
    rw [hr]
    by_cases hge : r.first ≤ s.target + (m - s.first)
    · have hodd : (s.target + (m - s.first) - r.first) % 2 ≠ 0 := by omega
      simp [hodd]
    · simp [hge]

/-- The lower case mapping leaves the code point as it is. -/
structure Unmoved (n : Nat) : Prop where
  single : n ≠ 0x130
  shifted : ∀ s ∈ shifts, s.contains n = false

theorem unmoved_image {s : Shift} (hs : s ∈ shifts) {m : Nat} (hm : s.contains m = true) :
    Unmoved (s.target + (m - s.first)) := by
  constructor
  · intro he
    have h := contains_image (List.all_eq_true.1 shifts_avoid_single s hs) hm
    rw [he] at h
    exact absurd h (by decide)
  · intro t ht
    have h := List.all_eq_true.1 (List.all_eq_true.1 shifts_avoid s hs) t ht
    exact contains_image h hm

/-! ### Characters -/

private theorem isAsciiUpper_iff (c : Char) : ('A' ≤ c ∧ c ≤ 'Z') ↔ 65 ≤ c.toNat ∧ c.toNat ≤ 90 :=
  Iff.rfl

private theorem toNat_ofNat {n : Nat} (h : n.isValidChar) : (Char.ofNat n).toNat = n := by
  unfold Char.ofNat
  rw [dif_pos h]
  rfl

theorem lowerChar_of_unmoved {c : Char} (h : Unmoved c.toNat) : lowerChar c = [c] := by
  unfold lowerChar
  split
  · unfold asciiLowerChar
    rw [if_neg]
    rw [isAsciiUpper_iff]
    have := h.shifted _ (List.mem_cons_self : (⟨⟨65, 90, 1⟩, 97⟩ : Shift) ∈ shifts)
    simp [Run.contains, Nat.mod_one] at this
    omega
  · rw [if_neg h.single]
    have hnone : lowerShifts.find? (·.contains c.toNat) = none := by
      rw [List.find?_eq_none]
      intro s hs
      simp [h.shifted s (List.mem_cons_of_mem _ hs)]
    rw [hnone]

private theorem lowerChar_ofNat_image {s : Shift} (hs : s ∈ shifts) {m : Nat} (hm : s.contains m = true) :
    lowerChar (Char.ofNat (s.target + (m - s.first))) = [Char.ofNat (s.target + (m - s.first))] := by
  by_cases hv : (s.target + (m - s.first)).isValidChar
  · apply lowerChar_of_unmoved
    rw [toNat_ofNat hv]
    exact unmoved_image hs hm
  · have hzero : Char.ofNat (s.target + (m - s.first)) = Char.ofNat 0 := by
      unfold Char.ofNat
      rw [dif_neg hv]
      rfl
    rw [hzero]
    rfl

/-- A character is left as it is, is the one letter that becomes two, or is shifted with a run. -/
private theorem lowerChar_cases (c : Char) : lowerChar c = [c] ∨ lowerChar c = ['i', Char.ofNat 0x307] ∨
    ∃ s ∈ shifts, s.contains c.toNat = true ∧ lowerChar c = [Char.ofNat (s.target + (c.toNat - s.first))] := by
  unfold lowerChar
  split
  · unfold asciiLowerChar
    split
    · rename_i hup
      rw [isAsciiUpper_iff] at hup
      refine Or.inr (Or.inr ⟨⟨⟨65, 90, 1⟩, 97⟩, List.mem_cons_self, ?_, ?_⟩)
      · simp [Run.contains, Nat.mod_one]
        omega
      · show [Char.ofNat (c.toNat + 32)] = [Char.ofNat (97 + (c.toNat - 65))]
        congr 2
        omega
    · exact Or.inl rfl
  · split
    · exact Or.inr (Or.inl rfl)
    · split
      · rename_i s hfind
        have hs : s.contains c.toNat = true := by simpa using List.find?_some hfind
        exact Or.inr (Or.inr ⟨s, List.mem_cons_of_mem _ (List.mem_of_find?_eq_some hfind), hs, rfl⟩)
      · exact Or.inl rfl

/-- What a character becomes in lower case is lower case already. -/
theorem lowerChar_fixed {c x : Char} (hx : x ∈ lowerChar c) : lowerChar x = [x] := by
  rcases lowerChar_cases c with hc | hc | ⟨s, hs, hm, hc⟩
  · rw [hc, List.mem_singleton] at hx
    rw [hx, hc]
  · rw [hc] at hx
    simp only [List.mem_cons, List.not_mem_nil, or_false] at hx
    rcases hx with rfl | rfl
    · rfl
    · decide +kernel
  · rw [hc, List.mem_singleton] at hx
    rw [hx]
    exact lowerChar_ofNat_image hs hm

/-- No other character becomes a separator of names. -/
theorem eq_separator_of_mem_lowerChar {c : Char} (h : '\\' ∈ lowerChar c) : c = '\\' := by
  rcases lowerChar_cases c with hc | hc | ⟨s, hs, hm, hc⟩
  · rw [hc, List.mem_singleton] at h
    exact h.symm
  · rw [hc] at h
    exact absurd h (by decide)
  · rw [hc, List.mem_singleton] at h
    have havoid := contains_image (List.all_eq_true.1 shifts_avoid_separator s hs) hm
    by_cases hv : (s.target + (c.toNat - s.first)).isValidChar
    · have himage := congrArg Char.toNat h
      rw [toNat_ofNat hv] at himage
      rw [← himage] at havoid
      exact absurd havoid (by decide)
    · unfold Char.ofNat at h
      rw [dif_neg hv] at h
      exact absurd h (by decide)

/-! ### Lowering twice -/

/-- A text without capital letters is its own lower case. -/
private theorem lowerAfter_of_fixed (before : List Char) {cs : List Char} (h : ∀ c ∈ cs, lowerChar c = [c]) :
    lowerAfter before cs = cs := by
  induction cs generalizing before with
  | nil => rfl
  | cons c cs ih =>
    have hc := h c List.mem_cons_self
    have hsigma : c ≠ 'Σ' := by
      rintro rfl
      revert hc
      decide +kernel
    rw [lowerAfter, if_neg hsigma, hc, ih _ fun x hx => h x (List.mem_cons_of_mem c hx)]
    rfl

private theorem lowerSigma_fixed (before after : List Char) :
    lowerChar (lowerSigma before after) = [lowerSigma before after] := by
  unfold lowerSigma
  split <;> decide +kernel

private theorem lowerAfter_fixed (before cs : List Char) : ∀ x ∈ lowerAfter before cs, lowerChar x = [x] := by
  induction cs generalizing before with
  | nil => exact nofun
  | cons c cs ih =>
    intro x hx
    rw [lowerAfter] at hx
    rcases List.mem_append.1 hx with hx | hx
    · split at hx
      · rw [List.mem_singleton.1 hx]
        exact lowerSigma_fixed before cs
      · exact lowerChar_fixed hx
    · exact ih _ x hx

/-- No character is moved by the lower case mapping. -/
def IsLower (s : String) : Prop :=
  ∀ c ∈ s.toList, lowerChar c = [c]

theorem isLower_lower (s : String) : IsLower (lower s) := by
  unfold IsLower lower
  rw [String.toList_ofList]
  exact lowerAfter_fixed [] s.toList

theorem IsLower.lower_eq {s : String} (h : IsLower s) : lower s = s := by
  unfold lower
  rw [lowerAfter_of_fixed [] h, String.ofList_toList]

/-- The lower case of a text is in lower case. -/
theorem lower_lower (s : String) : lower (lower s) = lower s :=
  (isLower_lower s).lower_eq

/-! ### ASCII case -/

theorem sameFolded_iff {a b : String} : sameFolded a b = true ↔ asciiLower a = asciiLower b := by
  unfold sameFolded asciiLower
  rw [beq_iff_eq, String.ofList_inj]

/-- Whatever holds of each capital ASCII letter and the small one beside it. -/
theorem asciiLowerChar_induction {P : Char → Char → Prop} (hself : ∀ c, P c c)
    (hupper : ∀ n < 26, P (Char.ofNat (65 + n)) (Char.ofNat (97 + n))) (c : Char) : P c (asciiLowerChar c) := by
  unfold asciiLowerChar
  split
  · rename_i h
    rw [isAsciiUpper_iff] at h
    have hP := hupper (c.toNat - 65) (by omega)
    have hc : 65 + (c.toNat - 65) = c.toNat := by omega
    have hlow : 97 + (c.toNat - 65) = c.toNat + 32 := by omega
    rw [hc, hlow, Char.ofNat_toNat] at hP
    exact hP
  · exact hself c

theorem asciiLowerChar_eq_iff {c : Char} (hc : c.isAlpha = false) (d : Char) : asciiLowerChar d = c ↔ d = c := by
  have hletters : ∀ n < 26, (Char.ofNat (65 + n)).isAlpha = true ∧ (Char.ofNat (97 + n)).isAlpha = true := by decide
  refine asciiLowerChar_induction (P := fun d d' => d' = c ↔ d = c) (fun _ => Iff.rfl) (fun n hn => ?_) d
  obtain ⟨hupper, hlower⟩ := hletters n hn
  constructor <;> rintro rfl
  · exact absurd (hc.symm.trans hlower) Bool.false_ne_true
  · exact absurd (hc.symm.trans hupper) Bool.false_ne_true

/-- Characters that are no letters stay where they are. -/
theorem mem_asciiLower_iff {c : Char} (hc : c.isAlpha = false) {s : String} :
    c ∈ (asciiLower s).toList ↔ c ∈ s.toList := by
  unfold asciiLower
  rw [String.toList_ofList, List.mem_map]
  simp only [asciiLowerChar_eq_iff hc, exists_eq_right]

private theorem lowerChar_asciiLowerChar (c : Char) : lowerChar (asciiLowerChar c) = lowerChar c :=
  asciiLowerChar_induction (P := fun c d => lowerChar d = lowerChar c) (fun _ => rfl) (by decide) c

private theorem isCased_asciiLowerChar (c : Char) : isCased (asciiLowerChar c) = isCased c :=
  asciiLowerChar_induction (P := fun c d => isCased d = isCased c) (fun _ => rfl) (by decide) c

private theorem isCaseIgnorable_asciiLowerChar (c : Char) : isCaseIgnorable (asciiLowerChar c) = isCaseIgnorable c :=
  asciiLowerChar_induction (P := fun c d => isCaseIgnorable d = isCaseIgnorable c) (fun _ => rfl) (by decide) c

private theorem asciiLowerChar_eq_sigma (c : Char) : asciiLowerChar c = 'Σ' ↔ c = 'Σ' :=
  asciiLowerChar_induction (P := fun c d => d = 'Σ' ↔ c = 'Σ') (fun _ => Iff.rfl) (by decide) c

private theorem meetsCased_map (cs : List Char) : meetsCased (cs.map asciiLowerChar) = meetsCased cs := by
  induction cs with
  | nil => rfl
  | cons c cs ih =>
    unfold meetsCased at ih ⊢
    rw [List.map_cons, List.dropWhile_cons, List.dropWhile_cons, isCaseIgnorable_asciiLowerChar]
    by_cases hc : isCaseIgnorable c = true
    · rw [if_pos hc, if_pos hc]
      exact ih
    · rw [if_neg hc, if_neg hc]
      exact isCased_asciiLowerChar c

private theorem lowerAfter_map (before cs : List Char) :
    lowerAfter (before.map asciiLowerChar) (cs.map asciiLowerChar) = lowerAfter before cs := by
  induction cs generalizing before with
  | nil => rfl
  | cons c cs ih =>
    have hrest := ih (c :: before)
    rw [List.map_cons] at hrest ⊢
    rw [lowerAfter, lowerAfter, hrest, lowerChar_asciiLowerChar]
    simp only [asciiLowerChar_eq_sigma, lowerSigma, meetsCased_map]

/-- Texts that agree up to the case of ASCII letters have the same lower case. -/
theorem lower_of_sameFolded {a b : String} (h : sameFolded a b = true) : lower a = lower b := by
  have hfold : a.toList.map asciiLowerChar = b.toList.map asciiLowerChar := beq_iff_eq.1 h
  have ha := lowerAfter_map [] a.toList
  have hb := lowerAfter_map [] b.toList
  rw [hfold] at ha
  unfold lower
  rw [← ha, ← hb]

/-- Equal names of any kind have the same lower case. -/
theorem lower_of_sameNames {kind : SymbolKind} {a b : String} (h : kind.sameNames a b = true) : lower a = lower b := by
  unfold SymbolKind.sameNames at h
  split at h
  · rw [beq_iff_eq.1 h]
  · exact lower_of_sameFolded h

end CodeAtlas.Text
