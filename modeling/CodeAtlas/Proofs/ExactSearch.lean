import CodeAtlas.Proofs.SortedSearch

/-!
# Searching sorted texts

A search finds an element just when it is exact (`isSome_find?`).  In a sorted list of texts, which may have
repetitions, the place of a key is the number of smaller texts (`search_sorted`), and the key is found there just when
it is in the list (`find?_sorted`).  The range of a start has the texts that begin with it, and the range between two
keys has the texts from the one to the other (`range_between`).  Each of these searches looks for a place only in lists
that are parted there.
-/

namespace CodeAtlas.Search

section

variable {α : Type} {l : List α}

/-- Where the elements with a property come first, the list is parted at their number. -/
theorem partitionPoint_eq_countP {p : α → Bool} (h : Parted p l) : partitionPoint p l = l.countP p := by
  unfold partitionPoint
  rw [takeWhile_eq_filter h, List.countP_eq_length_filter]

theorem isSome_find? (order : α → Ordering) (l : List α) : (find? order l).isSome = (search order l).2 := by
  unfold find? search
  dsimp only
  cases hplace : l[partitionPoint (fun a => order a == .lt) l]? with
  | none => rfl
  | some a => cases h : order a == .eq <;> simp [h, hplace]

/-- Where the elements after the key come last, the first element that equals the key is found. -/
theorem find?_eq_find? {order : α → Ordering} (h : l.Pairwise fun a b => order a = .gt → order b = .gt) :
    find? order l = l.find? fun a => order a == .eq := by
  induction l with
  | nil => rfl
  | cons a l ih =>
    obtain ⟨hfirst, hrest⟩ := List.pairwise_cons.1 h
    rw [find?_cons, List.find?_cons]
    cases ha : order a with
    | lt => exact ih hrest
    | eq => rfl
    | gt =>
      symm
      show l.find? _ = none
      rw [List.find?_eq_none]
      intro b hb
      rw [hfirst b hb ha]
      decide

end

section

variable {l : List String} (h : l.Pairwise (· ≤ ·))

include h

theorem pairwise_compare_lt (key : String) : l.Pairwise fun a b => compare b key = .lt → compare a key = .lt :=
  h.imp fun hab hb => compare_lt_iff_lt.2 (lt_of_le_of_lt hab (compare_lt_iff_lt.1 hb))

theorem pairwise_compare_gt (key : String) : l.Pairwise fun a b => compare a key = .gt → compare b key = .gt :=
  h.imp fun hab ha => compare_gt_iff_gt.2 (lt_of_lt_of_le (compare_gt_iff_gt.1 ha) hab)

theorem find?_sorted (key : String) : find? (compare · key) l = if key ∈ l then some key else none := by
  rw [find?_eq_find? (pairwise_compare_gt h key)]
  split
  · rename_i hmem
    obtain ⟨s, hs⟩ : ∃ s, l.find? (fun s => compare s key == .eq) = some s := by
      rw [← Option.isSome_iff_exists, List.find?_isSome]
      exact ⟨key, hmem, by rw [compare_eq_iff_eq.2 rfl]; rfl⟩
    have heq : compare s key = .eq := by simpa using List.find?_some hs
    rw [hs, compare_eq_iff_eq.1 heq]
  · rename_i hmem
    rw [List.find?_eq_none]
    intro s hs heq
    have hkey : s = key := compare_eq_iff_eq.1 (by simpa using heq)
    exact hmem (hkey ▸ hs)

/-- The place of a key is the number of smaller texts, and the key is there if it is in the list. -/
theorem search_sorted (key : String) :
    search (compare · key) l = (l.countP fun s => s < key, decide (key ∈ l)) := by
  have hrank : (search (compare · key) l).1 = l.countP fun s => s < key := by
    show partitionPoint _ l = _
    rw [partitionPoint_eq_countP (parted_before (pairwise_compare_lt h key))]
    apply List.countP_congr
    intro s _
    rw [beq_iff_eq, compare_lt_iff_lt, decide_eq_true_iff]
  have hexact : (search (compare · key) l).2 = decide (key ∈ l) := by
    rw [← isSome_find?, find?_sorted h]
    by_cases hmem : key ∈ l <;> simp [hmem]
  exact Prod.ext hrank hexact

/-- The range between two keys, which is empty where the lower key is the greater one. -/
theorem range_between (low high : String) :
    range (compare · low) (compare · high) l = l.filter fun s => low ≤ s && s ≤ high := by
  rw [range_eq_filter (pairwise_compare_lt h low) (pairwise_compare_gt h high)]
  apply List.filter_congr
  intro s _
  rw [Bool.eq_iff_iff]
  simp only [Bool.and_eq_true, bne_iff_ne, ne_eq, compare_lt_iff_lt, compare_gt_iff_gt, not_lt, decide_eq_true_eq]

end

/-- In a sorted list of texts the searches are exact for every key, every start and every two keys: the place of a key is
the number of smaller texts, it is found just when it is in the list, and the ranges have just the texts that begin with
the start, and just those that lie between the keys.  The lists in which a place is looked for are parted there. -/
theorem searches_exact {l : List String} (h : l.Pairwise (· ≤ ·)) :
    (∀ key, Parted (compare · key == .lt) l ∧
      search (compare · key) l = (l.countP fun s => s < key, decide (key ∈ l)) ∧
      (find? (compare · key) l).isSome = (search (compare · key) l).2 ∧
      find? (compare · key) l = if key ∈ l then some key else none) ∧
    (∀ start, RangeParted (compareStart · start) (compareStart · start) l ∧
      range (compareStart · start) (compareStart · start) l = l.filter (Text.beginsWith · start)) ∧
    ∀ low high, RangeParted (compare · low) (compare · high) l ∧
      range (compare · low) (compare · high) l = l.filter fun s => low ≤ s && s ≤ high := by
  refine ⟨fun key => ?_, fun start => ?_, fun low high => ?_⟩
  · exact ⟨parted_before (pairwise_compare_lt h key), search_sorted h key, isSome_find? _ l, find?_sorted h key⟩
  · exact ⟨rangeParted_start h start, range_start_eq_filter h start⟩
  · exact ⟨rangeParted (pairwise_compare_lt h low) (pairwise_compare_gt h high), range_between h low high⟩

/-- A text that stands twice is found, and counts twice among those that begin with a shorter one. -/
theorem searches_exact_repeated :
    let words := ["ab", "abc", "abd", "abd", "b"]
    words.Pairwise (· ≤ ·) ∧ search (compare · "abd") words = (2, true) ∧ find? (compare · "abe") words = none ∧
      range (compareStart · "ab") (compareStart · "ab") words = ["ab", "abc", "abd", "abd"] ∧
      range (compare · "b") (compare · "ab") words = [] := by
  intro words
  have hsorted : words.Pairwise (· ≤ ·) := by decide
  obtain ⟨hkeys, hstarts, hbetween⟩ := searches_exact hsorted
  refine ⟨hsorted, ?_, ?_, ?_, ?_⟩
  · exact (hkeys "abd").2.1.trans (by decide)
  · exact (hkeys "abe").2.2.2.trans (by decide)
  · exact (hstarts "ab").2.trans (by decide)
  · exact (hbetween "b" "ab").2.trans (by decide)

end CodeAtlas.Search
