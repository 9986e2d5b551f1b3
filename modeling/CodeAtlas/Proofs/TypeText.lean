import CodeAtlas.TypeText
import Mathlib.Data.List.Perm.Subperm

/-!
# Types as sets of parts

Membership in the types that the operations on types build, and that their parts are distinct.  For such types,
equality as sets is equality up to the order of the parts (`sameParts_iff_perm`).
-/

namespace CodeAtlas.TypeText

@[simp] theorem mem_insert {t : TypeText} {a part : String} :
    part ∈ (t.insert a).parts ↔ part ∈ t.parts ∨ part = a := by
  unfold insert
  split
  · rename_i h
    constructor
    · exact Or.inl
    · rintro (h' | rfl)
      · exact h'
      · exact h
  · simp

@[simp] theorem mem_insertAll {t : TypeText} {parts : List String} {part : String} :
    part ∈ (t.insertAll parts).parts ↔ part ∈ t.parts ∨ part ∈ parts := by
  unfold insertAll
  induction parts generalizing t with
  | nil => simp
  | cons a parts ih =>
    rw [List.foldl_cons, ih, mem_insert, List.mem_cons]
    exact or_assoc

@[simp] theorem mem_merge {a b : TypeText} {part : String} :
    part ∈ (a.merge b).parts ↔ part ∈ a.parts ∨ part ∈ b.parts := by
  unfold merge
  exact mem_insertAll

/-! ### Distinct parts -/

theorem nodup_insert {t : TypeText} (h : t.parts.Nodup) (part : String) : (t.insert part).parts.Nodup := by
  unfold insert
  split
  · exact h
  · rename_i hnew
    rw [List.nodup_append]
    refine ⟨h, List.pairwise_singleton _ part, fun a ha b hb hab => ?_⟩
    rw [List.mem_singleton] at hb
    exact hnew (hb ▸ hab ▸ ha)

theorem nodup_insertAll {t : TypeText} (h : t.parts.Nodup) (parts : List String) : (t.insertAll parts).parts.Nodup := by
  unfold insertAll
  induction parts generalizing t with
  | nil => exact h
  | cons part parts ih => exact ih (nodup_insert h part)

theorem nodup_empty : empty.parts.Nodup :=
  List.nodup_nil

theorem nodup_ofText (text : String) : (ofText text).parts.Nodup :=
  nodup_insertAll nodup_empty _

theorem nodup_merge {a : TypeText} (h : a.parts.Nodup) (b : TypeText) : (a.merge b).parts.Nodup :=
  nodup_insertAll h _

theorem nodup_array (t : TypeText) : t.array.parts.Nodup := by
  unfold array
  split
  · exact nodup_empty
  · exact List.pairwise_singleton _ _
  · exact List.pairwise_singleton _ _

theorem nodup_mapLeaves (f : String → String) (t : TypeText) : (t.mapLeaves f).parts.Nodup :=
  nodup_insertAll nodup_empty _

/-- New parts that are distinct are added as they are. -/
theorem insertAll_of_nodup {t : TypeText} {parts : List String} (h : (t.parts ++ parts).Nodup) :
    t.insertAll parts = ⟨t.parts ++ parts⟩ := by
  unfold insertAll
  induction parts generalizing t with
  | nil => rw [List.append_nil]; rfl
  | cons part parts ih =>
    have hnew : part ∉ t.parts := fun hmem =>
      (List.nodup_append.1 h).2.2 part hmem part List.mem_cons_self rfl
    have hinsert : t.insert part = ⟨t.parts ++ [part]⟩ := by
      unfold insert
      rw [if_neg hnew]
    rw [List.foldl_cons, hinsert, ih (by rwa [List.append_assoc]), List.append_assoc]
    rfl

/-- Equal lengths and one inclusion are enough for the same parts, if no part repeats. -/
theorem sameParts_iff_perm {a b : TypeText} (ha : a.parts.Nodup) : a.sameParts b = true ↔ a.parts.Perm b.parts := by
  unfold sameParts
  rw [Bool.and_eq_true, beq_iff_eq, List.all_eq_true]
  constructor
  · rintro ⟨hlen, hsub⟩
    have hsubperm : a.parts.Subperm b.parts :=
      List.subperm_of_subset ha fun part hpart => by simpa using hsub part hpart
    exact hsubperm.perm_of_length_le (Nat.le_of_eq hlen.symm)
  · intro h
    exact ⟨h.length_eq, fun part hpart => by simpa using h.subset hpart⟩

theorem length_insertAll_le (t : TypeText) (parts : List String) :
    (t.insertAll parts).parts.length ≤ t.parts.length + parts.length := by
  have hinsert : ∀ (t : TypeText) (part : String), (t.insert part).parts.length ≤ t.parts.length + 1 := by
    intro t part
    unfold insert
    split
    · exact Nat.le_succ _
    · rw [List.length_append]
      exact Nat.le_refl _
  unfold insertAll
  induction parts generalizing t with
  | nil => exact Nat.le_refl _
  | cons part parts ih =>
    have hstep := hinsert t part
    have hrest := ih (t.insert part)
    rw [List.foldl_cons, List.length_cons]
    omega

end CodeAtlas.TypeText
