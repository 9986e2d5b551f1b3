import Mathlib.Data.List.Induction
import Mathlib.Data.List.Nodup
import Mathlib.Data.List.Sort

/-!
# Lists with keys

The tables and the references of a workspace are lists in which each element has a uri of its own.  Such a list is
looked through by key, and the answer does not depend on its order (`find?_perm`).  Nor does what its elements contribute
to a longer list, where at most one of them contributes something (`flatMap_perm`).  A selection of its elements can be
sorted by sorting their keys (`mergeSort_keys`).  Any list becomes one with keys when the repetitions of each key are
dropped (`eraseDupsBy_spec`).
-/

namespace CodeAtlas.Keyed

variable {α β : Type} {key : α → String} {l l' : List α}

/-! ### Looking up -/

theorem find?_eq_some {κ : Type} [BEq κ] [LawfulBEq κ] {key : α → κ} (h : (l.map key).Nodup) {a : α} (ha : a ∈ l) :
    l.find? (key · == key a) = some a := by
  cases hf : l.find? (key · == key a) with
  | none =>
    rw [List.find?_eq_none] at hf
    exact absurd (beq_self_eq_true (key a)) (hf a ha)
  | some b =>
    have hkey : key b = key a := by simpa using List.find?_some hf
    rw [List.inj_on_of_nodup_map h (List.mem_of_find?_eq_some hf) ha hkey]

theorem find?_eq_none {k : String} : l.find? (key · == k) = none ↔ ∀ a ∈ l, key a ≠ k := by
  simp [List.find?_eq_none]

theorem isSome_find? {k : String} : (l.find? (key · == k)).isSome = true ↔ k ∈ l.map key := by
  simp [List.find?_isSome]

/-- The answer for a key after the elements with another key, or the same, are taken away. -/
theorem find?_filter (k k' : String) :
    (l.filter (key · != k)).find? (key · == k') = if k = k' then none else l.find? (key · == k') := by
  rw [List.find?_filter]
  split
  · rename_i hk
    rw [List.find?_eq_none]
    intro a _
    simp [hk]
  · rename_i hk
    congr 1
    funext a
    by_cases ha : key a = k'
    · simp [ha, Ne.symm hk]
    · simp [ha]

/-- The answer for a key after an element has taken the place of those with its key. -/
theorem find?_replace (a : α) (k : String) :
    (l.filter (key · != key a) ++ [a]).find? (key · == k) = if key a = k then some a else l.find? (key · == k) := by
  rw [List.find?_append, find?_filter]
  by_cases hk : key a = k
  · simp [hk]
  · simp [hk]

theorem nodup_replace (h : (l.map key).Nodup) (a : α) : ((l.filter (key · != key a) ++ [a]).map key).Nodup := by
  rw [List.map_append]
  refine List.nodup_append.2 ⟨h.sublist (List.filter_sublist.map _), List.nodup_singleton _, ?_⟩
  intro k hk k' hk' he
  obtain ⟨b, hb, rfl⟩ := List.mem_map.1 hk
  have hne := (List.mem_filter.1 hb).2
  rw [he, List.mem_singleton.1 hk'] at hne
  simp at hne

theorem find?_perm (h : l.Perm l') (hn : (l.map key).Nodup) (k : String) :
    l.find? (key · == k) = l'.find? (key · == k) := by
  have hn' : (l'.map key).Nodup := (h.map key).nodup_iff.1 hn
  cases hf : l.find? (key · == k) with
  | none =>
    have hnone := find?_eq_none.1 hf
    exact (find?_eq_none.2 fun a ha => hnone a (h.symm.subset ha)).symm
  | some a =>
    have hkey : key a = k := by simpa using List.find?_some hf
    rw [← hkey]
    exact (find?_eq_some hn' (h.subset (List.mem_of_find?_eq_some hf))).symm

/-- Lists that answer alike have the same elements. -/
theorem perm_of_find?_eq (hn : (l.map key).Nodup) (hn' : (l'.map key).Nodup)
    (h : ∀ k, l.find? (key · == k) = l'.find? (key · == k)) : l.Perm l' := by
  have hmem : ∀ {l : List α}, (l.map key).Nodup → ∀ a, a ∈ l ↔ l.find? (key · == key a) = some a :=
    fun hn a => ⟨fun ha => find?_eq_some hn ha, fun hf => List.mem_of_find?_eq_some hf⟩
  rw [List.perm_ext_iff_of_nodup (List.Nodup.of_map key hn) (List.Nodup.of_map key hn')]
  intro a
  rw [hmem hn, hmem hn', h]

/-! ### Selecting -/

/-- Elements that contribute nothing can be left out. -/
theorem flatMap_filter {f g : α → List β} {p : α → Bool} (h : ∀ a ∈ l, g a = if p a then f a else []) :
    l.flatMap g = (l.filter p).flatMap f := by
  induction l with
  | nil => rfl
  | cons a l ih =>
    rw [List.flatMap_cons, h a List.mem_cons_self, ih fun b hb => h b (List.mem_cons_of_mem a hb), List.filter_cons]
    split
    · rw [List.flatMap_cons]
    · rfl

/-- Where at most one element contributes something, the order does not matter. -/
theorem flatMap_perm (h : l.Perm l') {f : α → List β} (hone : l.Pairwise fun a b => f a = [] ∨ f b = []) :
    l.flatMap f = l'.flatMap f := by
  induction h with
  | nil => rfl
  | cons a _ ih => rw [List.flatMap_cons, List.flatMap_cons, ih (List.pairwise_cons.1 hone).2]
  | swap a b l =>
    have hab := (List.pairwise_cons.1 hone).1 a List.mem_cons_self
    simp only [List.flatMap_cons]
    rcases hab with hb | ha
    · simp [hb]
    · simp [ha]
  | trans h₁ _ ih₁ ih₂ => exact (ih₁ hone).trans (ih₂ ((h₁.pairwise_iff fun hab => hab.symm).1 hone))

/-- What is left when repeated values of `f` are dropped: elements of the list, with different values, and one for each
value. -/
theorem eraseDupsBy_spec [BEq β] [LawfulBEq β] (f : α → β) : ∀ l : List α,
    (l.eraseDupsBy fun a b => f a == f b) ⊆ l ∧
      (l.eraseDupsBy fun a b => f a == f b).Pairwise (fun a b => f a ≠ f b) ∧
      ∀ a ∈ l, ∃ b ∈ l.eraseDupsBy fun a b => f a == f b, f b = f a
  | [] => ⟨nofun, .nil, nofun⟩
  | a :: l => by
    obtain ⟨hsub, hpair, hall⟩ := eraseDupsBy_spec f (l.filter fun b => (f b == f a) = false)
    rw [List.eraseDupsBy_cons]
    refine ⟨?_, ?_, ?_⟩
    · intro b hb
      rcases List.mem_cons.1 hb with rfl | hb
      · exact List.mem_cons_self
      · exact List.mem_cons_of_mem a (List.mem_of_mem_filter (hsub hb))
    · refine List.pairwise_cons.2 ⟨fun b hb he => ?_, hpair⟩
      have hne := (List.mem_filter.1 (hsub hb)).2
      simp [he] at hne
    · intro b hb
      by_cases he : f a = f b
      · exact ⟨a, List.mem_cons_self, he⟩
      · rcases List.mem_cons.1 hb with rfl | hb
        · exact absurd rfl he
        · obtain ⟨c, hc, hcb⟩ := hall b (List.mem_filter.2 ⟨hb, by simpa using Ne.symm he⟩)
          exact ⟨c, List.mem_cons_of_mem a hc, hcb⟩
termination_by l => l.length
decreasing_by exact Nat.lt_succ_of_le (List.length_filter_le _ _)

theorem nodup_eraseDups [BEq α] [LawfulBEq α] (l : List α) : l.eraseDups.Nodup :=
  (eraseDupsBy_spec id l).2.1

/-- One more element at the end is kept unless it has occurred before. -/
theorem eraseDups_concat [BEq α] [LawfulBEq α] (l : List α) (a : α) :
    (l ++ [a]).eraseDups = if a ∈ l then l.eraseDups else l.eraseDups ++ [a] := by
  rw [List.eraseDups_append]
  by_cases ha : a ∈ l <;> simp [List.removeAll, List.eraseDups_cons, ha]

/-- Values that repeat can be dropped before a function is applied, or only afterwards. -/
theorem eraseDups_map_eraseDups [BEq α] [LawfulBEq α] [BEq β] [LawfulBEq β] (f : α → β) (l : List α) :
    (l.eraseDups.map f).eraseDups = (l.map f).eraseDups := by
  induction l using List.reverseRecOn with
  | nil => rfl
  | append_singleton l a ih =>
    have hmem : f a ∈ l.eraseDups.map f ↔ f a ∈ l.map f := by
      simp only [List.mem_map, List.mem_eraseDups]
    rw [eraseDups_concat, List.map_append, List.map_singleton, eraseDups_concat (l.map f)]
    split
    · rename_i ha
      rw [ih, if_pos (List.mem_map_of_mem ha)]
    · rw [List.map_append, List.map_singleton, eraseDups_concat, ih]
      simp only [hmem]

/-! ### Sorting -/

private theorem pairwise_mergeSort_key (key : α → String) (l : List α) :
    (l.mergeSort fun a b => decide (key a ≤ key b)).Pairwise fun a b => key a ≤ key b := by
  have hsorted : (l.mergeSort fun a b => decide (key a ≤ key b)).Pairwise fun a b => decide (key a ≤ key b) = true := by
    apply List.pairwise_mergeSort
    · intro a b c hab hbc
      exact decide_eq_true (String.le_trans (of_decide_eq_true hab) (of_decide_eq_true hbc))
    · intro a b
      simpa using String.le_total (key a) (key b)
  exact hsorted.imp of_decide_eq_true

/-- Sorted lists of texts are equal just when the lists have the same elements, each as often. -/
theorem mergeSort_eq_iff_perm {l l' : List String} :
    (l.mergeSort fun a b => decide (a ≤ b)) = (l'.mergeSort fun a b => decide (a ≤ b)) ↔ l.Perm l' := by
  have hl := List.mergeSort_perm l fun a b => decide (a ≤ b)
  have hl' := List.mergeSort_perm l' fun a b => decide (a ≤ b)
  constructor
  · intro h
    exact hl.symm.trans (h ▸ hl')
  · intro h
    exact List.Perm.eq_of_pairwise (fun a b _ _ hab hba => String.le_antisymm hab hba) (pairwise_mergeSort_key id l)
      (pairwise_mergeSort_key id l') (hl.trans (h.trans hl'.symm))

/-- Sorting the keys of some elements is picking the elements out of the sorted list. -/
theorem mergeSort_keys (hn : (l.map key).Nodup) (p : α → Bool) {keys : List String} (hk : keys.Nodup)
    (hmem : ∀ k, k ∈ keys ↔ ∃ a ∈ l, p a = true ∧ key a = k) :
    (keys.mergeSort fun a b => decide (a ≤ b)) =
      ((l.mergeSort fun a b => decide (key a ≤ key b)).filter p).map key := by
  have hperm := List.mergeSort_perm l fun a b => decide (key a ≤ key b)
  have hpick : (((l.mergeSort fun a b => decide (key a ≤ key b)).filter p).map key).Nodup :=
    ((hperm.map key).nodup_iff.2 hn).sublist (List.filter_sublist.map key)
  have hsorted := pairwise_mergeSort_key id keys
  have hpicked : (((l.mergeSort fun a b => decide (key a ≤ key b)).filter p).map key).Pairwise (· ≤ ·) := by
    rw [List.pairwise_map]
    exact (pairwise_mergeSort_key key l).filter p
  have hsame : (keys.mergeSort fun a b => decide (a ≤ b)).Perm
      (((l.mergeSort fun a b => decide (key a ≤ key b)).filter p).map key) := by
    refine (List.mergeSort_perm keys _).trans ((List.perm_ext_iff_of_nodup hk hpick).2 fun k => ?_)
    simp [hmem, hperm.mem_iff, and_assoc]
  exact List.Perm.eq_of_pairwise (fun a b _ _ hab hba => String.le_antisymm hab hba) hsorted hpicked hsame

end CodeAtlas.Keyed
