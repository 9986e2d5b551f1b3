import CodeAtlas.Proofs.NameMap
import Mathlib.Data.List.TakeWhile

/-!
# Ranges of sorted lists

A range of a sorted list is found by its two ends.  Where the elements before the lower key come first, and so do those
that are not after the upper key, each end is looked for in a list that is parted there (`rangeParted`), and the range
has all elements between the keys (`range_eq_filter`).  The texts that begin with a given one stand together in the
order of texts (`compareStart_lt_of_le`, `compareStart_gt_of_le`), so elements whose keys begin with a text are found in
this way (`range_start_eq_filter`), and among them the nodes of a name map (`startingWith_eq_filter`).
-/

namespace CodeAtlas

namespace Search

variable {α : Type}

/-! ### Parting a list -/

theorem take_partitionPoint (p : α → Bool) (l : List α) : l.take (partitionPoint p l) = l.takeWhile p :=
  (List.prefix_iff_eq_take.1 (List.takeWhile_prefix p)).symm

theorem drop_partitionPoint (p : α → Bool) (l : List α) : l.drop (partitionPoint p l) = l.dropWhile p := by
  have h : l.take (partitionPoint p l) ++ l.drop (partitionPoint p l) = l.takeWhile p ++ l.dropWhile p := by
    rw [List.take_append_drop, List.takeWhile_append_dropWhile]
  rw [take_partitionPoint] at h
  exact List.append_cancel_left h

/-- The elements with the property come first. -/
def Parted (p : α → Bool) (l : List α) : Prop :=
  l.Pairwise fun a b => p b = true → p a = true

/-- Where the elements with a property come first, they are those up to the first one without it. -/
theorem takeWhile_eq_filter {p : α → Bool} {l : List α} (h : Parted p l) :
    l.takeWhile p = l.filter p := by
  induction l with
  | nil => rfl
  | cons a l ih =>
    obtain ⟨hfirst, hrest⟩ := List.pairwise_cons.1 h
    by_cases ha : p a = true
    · rw [List.takeWhile_cons_of_pos ha, List.filter_cons_of_pos ha, ih hrest]
    · have hnone : (a :: l).filter p = [] := by
        rw [List.filter_eq_nil_iff]
        intro b hb hp
        rcases List.mem_cons.1 hb with rfl | hb
        · exact ha hp
        · exact ha (hfirst b hb hp)
      rw [List.takeWhile_cons_of_neg ha, hnone]

/-- Where the elements with a property come first, those without it are what is left after them. -/
theorem dropWhile_eq_filter {p : α → Bool} {l : List α} (h : Parted p l) :
    l.dropWhile p = l.filter (!p ·) := by
  induction l with
  | nil => rfl
  | cons a l ih =>
    obtain ⟨hfirst, hrest⟩ := List.pairwise_cons.1 h
    by_cases ha : p a = true
    · rw [List.dropWhile_cons_of_pos ha, List.filter_cons_of_neg (by simp [ha]), ih hrest]
    · have hall : (a :: l).filter (!p ·) = a :: l := by
        rw [List.filter_eq_self]
        intro b hb
        rcases List.mem_cons.1 hb with rfl | hb
        · simpa using ha
        · simpa using fun hp => ha (hfirst b hb hp)
      rw [List.dropWhile_cons_of_neg ha, hall]

section

variable {lower upper : α → Ordering} {l : List α}

theorem parted_before (h : l.Pairwise fun a b => lower b = .lt → lower a = .lt) : Parted (lower · == .lt) l :=
  h.imp fun h hb => beq_iff_eq.2 (h (beq_iff_eq.1 hb))

theorem parted_notAfter (h : l.Pairwise fun a b => upper a = .gt → upper b = .gt) : Parted (upper · != .gt) l := by
  refine h.imp fun h hb => ?_
  rw [bne_iff_ne] at hb ⊢
  exact fun ha => hb (h ha)

/-- Both lists in which a range looks for one of its ends are parted there. -/
structure RangeParted (lower upper : α → Ordering) (l : List α) : Prop where
  first : Parted (lower · == .lt) l
  last : Parted (upper · != .gt) (l.drop (partitionPoint (lower · == .lt) l))

theorem rangeParted (hlower : l.Pairwise fun a b => lower b = .lt → lower a = .lt)
    (hupper : l.Pairwise fun a b => upper a = .gt → upper b = .gt) : RangeParted lower upper l :=
  ⟨parted_before hlower, (parted_notAfter hupper).sublist (List.drop_sublist _ l)⟩

/-- A range has all elements that are neither before the lower key nor after the upper one. -/
theorem range_eq_filter (hlower : l.Pairwise fun a b => lower b = .lt → lower a = .lt)
    (hupper : l.Pairwise fun a b => upper a = .gt → upper b = .gt) :
    range lower upper l = l.filter fun a => lower a != .lt && upper a != .gt := by
  have hl := parted_before hlower
  have hu : Parted (upper · != .gt) (l.filter fun a => !(lower a == .lt)) :=
    parted_notAfter (hupper.filter _)
  unfold range
  rw [drop_partitionPoint, dropWhile_eq_filter hl]
  show List.take _ _ = _
  rw [take_partitionPoint, takeWhile_eq_filter hu, List.filter_filter]
  apply List.filter_congr
  intro a _
  rw [Bool.and_comm]
  rfl

end

end Search

/-! ### Texts with a given start -/

namespace Text

theorem beginsWith_iff {s start : String} : beginsWith s start = true ↔ start.toList <+: s.toList :=
  List.isPrefixOf_iff_prefix

theorem le_of_prefix {s start : String} (h : start.toList <+: s.toList) : start ≤ s :=
  not_lt.1 fun hlt => absurd (String.lt_iff_toList_lt.1 hlt) (List.not_lt.2 h.le)

/-- Between a text and its continuations there are only continuations. -/
private theorem prefix_of_between {p a t : List Char} (hp : ¬ a < p) (ha : ¬ p ++ t < a) : p <+: a := by
  induction p generalizing a with
  | nil => exact List.nil_prefix
  | cons c p ih =>
    cases a with
    | nil => exact absurd (List.nil_lt_cons c p) hp
    | cons d a =>
      rw [List.cons_append] at ha
      rw [List.cons_lt_cons_iff, not_or] at hp ha
      obtain rfl : c = d := le_antisymm (not_lt.1 hp.1) (not_lt.1 ha.1)
      exact List.cons_prefix_cons.2 ⟨rfl, ih (fun h => hp.2 ⟨rfl, h⟩) fun h => ha.2 ⟨rfl, h⟩⟩

theorem prefix_of_le_of_le {start s s' : String} (hs : start ≤ s) (hs' : s ≤ s') (h : start.toList <+: s'.toList) :
    start.toList <+: s.toList := by
  obtain ⟨t, ht⟩ := h
  refine prefix_of_between (t := t) ?_ ?_
  · exact fun hlt => not_lt.2 hs (String.lt_iff_toList_lt.2 hlt)
  · rw [ht]
    exact fun hlt => not_lt.2 hs' (String.lt_iff_toList_lt.2 hlt)

end Text

namespace Search

theorem compareStart_eq_iff {s start : String} : compareStart s start = .eq ↔ start.toList <+: s.toList := by
  unfold compareStart
  split
  · rename_i h
    exact ⟨fun _ => Text.beginsWith_iff.1 h, fun _ => rfl⟩
  · rename_i h
    rw [Text.beginsWith_iff] at h
    refine ⟨fun he => ?_, fun hp => absurd hp h⟩
    obtain rfl := compare_eq_iff_eq.1 he
    exact List.prefix_rfl

theorem compareStart_lt_iff {s start : String} : compareStart s start = .lt ↔ s < start := by
  unfold compareStart
  split
  · rename_i h
    have hle := Text.le_of_prefix (Text.beginsWith_iff.1 h)
    exact ⟨nofun, fun hlt => absurd hlt (not_lt.2 hle)⟩
  · exact compare_lt_iff_lt

theorem compareStart_gt_iff {s start : String} :
    compareStart s start = .gt ↔ start < s ∧ ¬ start.toList <+: s.toList := by
  unfold compareStart
  split
  · rename_i h
    exact ⟨nofun, fun hs => absurd (Text.beginsWith_iff.1 h) hs.2⟩
  · rename_i h
    rw [Text.beginsWith_iff] at h
    exact compare_gt_iff_gt.trans ⟨fun hlt => ⟨hlt, h⟩, And.left⟩

/-- What stands before a text that is before all continuations of `start` is before them too. -/
theorem compareStart_lt_of_le {s s' start : String} (h : s ≤ s') (hs : compareStart s' start = .lt) :
    compareStart s start = .lt :=
  compareStart_lt_iff.2 (lt_of_le_of_lt h (compareStart_lt_iff.1 hs))

/-- What stands after a text that is after all continuations of `start` is after them too. -/
theorem compareStart_gt_of_le {s s' start : String} (h : s ≤ s') (hs : compareStart s start = .gt) :
    compareStart s' start = .gt := by
  obtain ⟨hlt, hp⟩ := compareStart_gt_iff.1 hs
  exact compareStart_gt_iff.2 ⟨lt_of_lt_of_le hlt h, fun hp' => hp (Text.prefix_of_le_of_le (le_of_lt hlt) h hp')⟩

section

variable {α : Type} {key : α → String} {l : List α}

theorem pairwise_start_lt (h : l.Pairwise fun a b => key a ≤ key b) (start : String) :
    l.Pairwise fun a b => compareStart (key b) start = .lt → compareStart (key a) start = .lt :=
  h.imp compareStart_lt_of_le

theorem pairwise_start_gt (h : l.Pairwise fun a b => key a ≤ key b) (start : String) :
    l.Pairwise fun a b => compareStart (key a) start = .gt → compareStart (key b) start = .gt :=
  h.imp compareStart_gt_of_le

theorem rangeParted_start (h : l.Pairwise fun a b => key a ≤ key b) (start : String) :
    RangeParted (fun a => compareStart (key a) start) (fun a => compareStart (key a) start) l :=
  rangeParted (pairwise_start_lt h start) (pairwise_start_gt h start)

/-- The elements between the two ends of a start are those whose key begins with it. -/
theorem range_start_eq_filter (h : l.Pairwise fun a b => key a ≤ key b) (start : String) :
    range (fun a => compareStart (key a) start) (fun a => compareStart (key a) start) l =
      l.filter fun a => Text.beginsWith (key a) start := by
  rw [range_eq_filter (pairwise_start_lt h start) (pairwise_start_gt h start)]
  apply List.filter_congr
  intro a _
  rw [Bool.eq_iff_iff, Text.beginsWith_iff, ← compareStart_eq_iff]
  cases compareStart (key a) start <;> decide

end

end Search

theorem NameMap.WellFormed.pairwise_le {α : Type} {nodes : List (NameNode α)} (h : WellFormed nodes) :
    nodes.Pairwise fun a b => a.key ≤ b.key :=
  h.sorted.imp le_of_lt

/-- The nodes that a start is looked up to are those whose key begins with its lower case. -/
theorem NameMap.startingWith_eq_filter {α : Type} {ix : NameMap α} (h : WellFormed ix.nodes) (start : String) :
    ix.startingWith start = ix.nodes.filter fun node => Text.beginsWith node.key (Text.lower start) :=
  Search.range_start_eq_filter h.pairwise_le (Text.lower start)

end CodeAtlas
