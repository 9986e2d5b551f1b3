import CodeAtlas.Proofs.Keyed
import CodeAtlas.Proofs.TypeText

/-!
# Unions of types

The operations on types, in any composition and on any texts, build types with distinct parts (`Built.nodup`).  Among
these, equality as sets is what it says, and the sorted parts tell two types apart just when it does.  The union appends
the new parts of the second type to the first (`parts_merge`), so it is a join: `BuiltType.union_laws`.
-/

namespace CodeAtlas

namespace TypeText

/-! ### Adding parts -/

theorem insertAll_append (t : TypeText) (l m : List String) : t.insertAll (l ++ m) = (t.insertAll l).insertAll m :=
  List.foldl_append

/-- Parts that are read in without any before them are kept at their first occurrence. -/
theorem parts_insertAll_empty (l : List String) : (empty.insertAll l).parts = l.eraseDups := by
  induction l using List.reverseRecOn with
  | nil => rfl
  | append_singleton l part ih =>
    have hstep : empty.insertAll (l ++ [part]) = (empty.insertAll l).insert part := insertAll_append empty l [part]
    rw [hstep, Keyed.eraseDups_concat, insert, ih]
    simp only [List.mem_eraseDups]
    split
    · exact ih
    · rfl

theorem parts_insertAll_of_nodup {l : List String} (h : l.Nodup) (t : TypeText) :
    (t.insertAll l).parts = t.parts ++ l.filter (· ∉ t.parts) := by
  induction l generalizing t with
  | nil => exact (List.append_nil _).symm
  | cons part l ih =>
    obtain ⟨hpart, hl⟩ := List.nodup_cons.1 h
    rw [show t.insertAll (part :: l) = (t.insert part).insertAll l from rfl, ih hl, insert]
    split
    · rename_i hmem
      rw [List.filter_cons_of_neg (by simpa using hmem)]
    · rename_i hnew
      -- what comes later is not the part that has just been added
      have hrest : l.filter (· ∉ t.parts ++ [part]) = l.filter (· ∉ t.parts) := by
        refine List.filter_congr fun x hx => ?_
        have hne : x ≠ part := ne_of_mem_of_not_mem hx hpart
        simp [hne]
      rw [List.filter_cons_of_pos (by simpa using hnew), hrest, List.append_assoc]
      rfl

/-- The union has the parts of the first type, and then the new ones of the second. -/
theorem parts_merge {b : TypeText} (h : b.parts.Nodup) (a : TypeText) :
    (a.merge b).parts = a.parts ++ b.parts.filter (· ∉ a.parts) :=
  parts_insertAll_of_nodup h a

/-- Parts that are there already can be left out. -/
theorem insertAll_filter {t : TypeText} {known : List String} (h : known ⊆ t.parts) (l : List String) :
    t.insertAll (l.filter (· ∉ known)) = t.insertAll l := by
  induction l generalizing t with
  | nil => rfl
  | cons part l ih =>
    have hgrow : known ⊆ (t.insert part).parts := fun x hx => mem_insert.2 (Or.inl (h hx))
    show _ = (t.insert part).insertAll l
    by_cases hmem : part ∈ known
    · have hsame : t.insert part = t := if_pos (h hmem)
      rw [List.filter_cons_of_neg (by simpa using hmem), ih h, hsame]
    · rw [List.filter_cons_of_pos (by simpa using hmem), ← ih hgrow]
      rfl

theorem merge_self (a : TypeText) : a.merge a = a := by
  have h : a.insertAll (a.parts.filter (· ∉ a.parts)) = a.insertAll a.parts :=
    insertAll_filter (List.Subset.refl a.parts) a.parts
  rw [List.filter_eq_nil_iff.2 fun part hpart => by simpa using hpart] at h
  exact h.symm

theorem empty_merge {a : TypeText} (h : a.parts.Nodup) : empty.merge a = a :=
  insertAll_of_nodup h

/-- The union is associative, and so is the order of its parts. -/
theorem merge_assoc {c : TypeText} (h : c.parts.Nodup) (a b : TypeText) :
    (a.merge b).merge c = a.merge (b.merge c) := by
  have hknown : b.parts ⊆ (a.insertAll b.parts).parts := fun x hx => mem_insertAll.2 (Or.inr hx)
  calc (a.merge b).merge c
    _ = (a.insertAll b.parts).insertAll (c.parts.filter (· ∉ b.parts)) := (insertAll_filter hknown c.parts).symm
    _ = a.insertAll (b.parts ++ c.parts.filter (· ∉ b.parts)) := (insertAll_append a _ _).symm
    _ = a.merge (b.merge c) := by
      rw [← parts_merge h]
      rfl

/-! ### Types that are built -/

/-- The types that the operations build. -/
inductive Built : TypeText → Prop
  | ofText (text : String) : Built (ofText text)
  | empty : Built empty
  | merge {a b : TypeText} (ha : Built a) (hb : Built b) : Built (a.merge b)
  | array {t : TypeText} (h : Built t) : Built t.array
  | element {t : TypeText} (h : Built t) : Built t.element
  | resolve {t : TypeText} (h : Built t) (r : Resolver) : Built (t.resolve r)
  | resolveDeferred {t : TypeText} (h : Built t) (r : Resolver) : Built (t.resolveDeferred r)
  | withSelf {t : TypeText} (h : Built t) (cls : String) : Built (t.withSelf cls)

theorem Built.nodup {t : TypeText} (h : Built t) : t.parts.Nodup := by
  induction h with
  | ofText text => exact nodup_ofText text
  | empty => exact nodup_empty
  | merge _ _ ha _ => exact nodup_merge ha _
  | array => exact nodup_array _
  | element => exact nodup_insertAll nodup_empty _
  | resolve => exact nodup_mapLeaves _ _
  | resolveDeferred => exact nodup_mapLeaves _ _
  | withSelf => exact nodup_mapLeaves _ _

theorem sortedParts_eq_iff_perm {a b : TypeText} : a.sortedParts = b.sortedParts ↔ a.parts.Perm b.parts :=
  Keyed.mergeSort_eq_iff_perm

end TypeText

/-- A type that the operations on types have built. -/
structure BuiltType where
  type : TypeText
  built : type.Built

namespace BuiltType

def parts (a : BuiltType) : List String :=
  a.type.parts

def empty : BuiltType :=
  ⟨.empty, .empty⟩

def merge (a b : BuiltType) : BuiltType :=
  ⟨a.type.merge b.type, .merge a.built b.built⟩

/-- The comparison of types finds no difference. -/
def Same (a b : BuiltType) : Prop :=
  a.type.sameParts b.type = true

variable {a b c : BuiltType}

theorem nodup (a : BuiltType) : a.parts.Nodup :=
  a.built.nodup

theorem same_iff_perm : a.Same b ↔ a.parts.Perm b.parts :=
  TypeText.sameParts_iff_perm a.nodup

/-- The comparison is that of sets. -/
theorem same_iff : a.Same b ↔ ∀ part, part ∈ a.parts ↔ part ∈ b.parts := by
  rw [same_iff_perm, List.perm_ext_iff_of_nodup a.nodup b.nodup]

theorem same_equivalence : Equivalence Same where
  refl _ := same_iff_perm.2 (List.Perm.refl _)
  symm h := same_iff_perm.2 (same_iff_perm.1 h).symm
  trans h h' := same_iff_perm.2 ((same_iff_perm.1 h).trans (same_iff_perm.1 h'))

theorem mem_merge {part : String} : part ∈ (a.merge b).parts ↔ part ∈ a.parts ∨ part ∈ b.parts :=
  TypeText.mem_merge

theorem Same.merge {a a' b b' : BuiltType} (ha : a.Same a') (hb : b.Same b') : (a.merge b).Same (a'.merge b') := by
  refine same_iff.2 fun part => ?_
  rw [mem_merge, mem_merge, same_iff.1 ha part, same_iff.1 hb part]

theorem merge_comm (a b : BuiltType) : (a.merge b).Same (b.merge a) := by
  refine same_iff.2 fun part => ?_
  rw [mem_merge, mem_merge, or_comm]

/-- Whatever texts and operations they come from, types have distinct parts.  They are the same just when they have
the same set of parts, which is an equivalence, and just when their sorted parts agree.  Under it the union is a
commutative, associative and idempotent operation with the empty type as identity; and it keeps the order in which
parts first occur, so that all but commutativity hold for the lists of parts as well. -/
theorem union_laws :
    (∀ a : BuiltType, a.parts.Nodup) ∧
      (Equivalence Same ∧ ∀ a b : BuiltType, a.Same b ↔ ∀ part, part ∈ a.parts ↔ part ∈ b.parts) ∧
      (∀ a b : BuiltType, a.Same b ↔ a.type.sortedParts = b.type.sortedParts) ∧
      (∀ a a' b b' : BuiltType, a.Same a' → b.Same b' → (a.merge b).Same (a'.merge b')) ∧
      (∀ a b : BuiltType, (a.merge b).Same (b.merge a)) ∧
      (∀ a b c : BuiltType, (a.merge b).merge c = a.merge (b.merge c)) ∧
      (∀ a : BuiltType, a.merge a = a ∧ a.merge empty = a ∧ empty.merge a = a) ∧
      ∀ a b : BuiltType, (a.merge b).parts = a.parts ++ b.parts.filter (· ∉ a.parts) := by
  have htype : ∀ {a b : BuiltType}, a.type = b.type → a = b := by
    rintro ⟨_, _⟩ ⟨_, _⟩ rfl
    rfl
  refine ⟨nodup, ⟨same_equivalence, fun a b => same_iff⟩, fun a b => ?_, fun a a' b b' => Same.merge, merge_comm,
    fun a b c => ?_, fun a => ⟨?_, rfl, ?_⟩, fun a b => ?_⟩
  · exact same_iff_perm.trans TypeText.sortedParts_eq_iff_perm.symm
  · exact htype (TypeText.merge_assoc c.nodup a.type b.type)
  · exact htype (TypeText.merge_self a.type)
  · exact htype (TypeText.empty_merge a.nodup)
  · exact TypeText.parts_merge b.nodup a.type

end BuiltType

end CodeAtlas
