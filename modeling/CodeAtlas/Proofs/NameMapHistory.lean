import CodeAtlas.Proofs.SortedSearch
import Mathlib.Algebra.BigOperators.Group.List.Lemmas

/-!
# The history of a name map

Items are added to a name map under their names, items of a name are removed by a property, and the whole map is
cleared.  Of all that only the live items matter, which are the items added that no later step drops (`liveItems`):
under each key are the live items that were added under it (`itemsAt_run`), so each answer of the map can be told from
them (`answers_run`).
-/

namespace CodeAtlas

/-- One change of a name map. -/
inductive NameMapStep (α : Type) where
  | add (name : String) (item : α)
  | remove (name : String) (p : α → Bool)
  | clear

namespace NameMapStep

variable {α : Type}

/-- Whether the step leaves an item under a key in place. -/
def keeps (key : String) (item : α) : NameMapStep α → Bool
  | .add _ _ => true
  | .remove name p => !(Text.lower name == key && p item)
  | .clear => false

/-- What the step puts under a key. -/
def added (key : String) : NameMapStep α → List α
  | .add name item => if Text.lower name = key then [item] else []
  | .remove _ _ | .clear => []

end NameMapStep

namespace NameMap

variable {α : Type}

def step (ix : NameMap α) : NameMapStep α → NameMap α
  | .add name item => ix.add name item
  | .remove name p => (ix.remove name p).1
  | .clear => ix.clear

/-- The name map after some changes of an empty one. -/
def run (steps : List (NameMapStep α)) : NameMap α :=
  steps.foldl step empty

/-- The items added, each with the lower case of its name, that every later step leaves in place. -/
def liveItems : List (NameMapStep α) → List (String × α)
  | [] => []
  | .add name item :: later =>
    (if later.all (·.keeps (Text.lower name) item) then [(Text.lower name, item)] else []) ++ liveItems later
  | .remove _ _ :: later => liveItems later
  | .clear :: later => liveItems later

/-- The live items under a key, in the order in which they were added. -/
def liveUnder (key : String) (steps : List (NameMapStep α)) : List α :=
  ((liveItems steps).filter (·.1 == key)).map (·.2)

/-! ### What the nodes hold -/

theorem WellFormed.step {ix : NameMap α} (h : WellFormed ix.nodes) (st : NameMapStep α) :
    WellFormed (ix.step st).nodes := by
  cases st with
  | add name item => exact h.add name item
  | remove name p => exact h.remove name p
  | clear => exact .nil

/-- A step keeps items under a key, and may add one behind them. -/
theorem itemsAt_step {ix : NameMap α} (h : WellFormed ix.nodes) (st : NameMapStep α) (k : String) :
    itemsAt k (ix.step st).nodes =
      (itemsAt k ix.nodes).filter (fun a => st.keeps k a) ++ st.added k := by
  cases st with
  | add name item => simp [step, itemsAt_add h, NameMapStep.keeps, NameMapStep.added]
  | remove name p =>
    rw [step, itemsAt_remove h]
    by_cases hk : Text.lower name = k
    · simp [NameMapStep.keeps, NameMapStep.added, hk]
    · simp [NameMapStep.keeps, NameMapStep.added, hk, beq_eq_false_iff_ne.2 hk]
  | clear => simp [step, clear, itemsAt, NameMapStep.keeps, NameMapStep.added]

theorem liveUnder_cons (k : String) (st : NameMapStep α) (later : List (NameMapStep α)) :
    liveUnder k (st :: later) = (st.added k).filter (fun a => later.all (·.keeps k a)) ++ liveUnder k later := by
  cases st with
  | add name item =>
    unfold liveUnder NameMapStep.added
    rw [liveItems, List.filter_append, List.map_append]
    congr 1
    by_cases hk : Text.lower name = k
    · subst hk
      by_cases hall : later.all (·.keeps (Text.lower name) item) = true <;> simp [hall]
    · by_cases hall : later.all (·.keeps (Text.lower name) item) = true <;> simp [hall, hk]
  | remove name p => rfl
  | clear => rfl

theorem itemsAt_foldl (steps : List (NameMapStep α)) {ix : NameMap α} (h : WellFormed ix.nodes) :
    WellFormed (steps.foldl step ix).nodes ∧
      ∀ k, itemsAt k (steps.foldl step ix).nodes =
        (itemsAt k ix.nodes).filter (fun a => steps.all (·.keeps k a)) ++ liveUnder k steps := by
  induction steps generalizing ix with
  | nil => exact ⟨h, fun k => by simp [liveUnder, liveItems]⟩
  | cons st later ih =>
    obtain ⟨hw, hi⟩ := ih (h.step st)
    refine ⟨hw, fun k => ?_⟩
    rw [List.foldl_cons, hi, itemsAt_step h, liveUnder_cons, List.filter_append, List.filter_filter, List.append_assoc]
    congr 2
    funext a
    rw [List.all_cons, Bool.and_comm]

/-- After any changes the nodes are well formed, and under each key are its live items. -/
theorem itemsAt_run (steps : List (NameMapStep α)) :
    WellFormed (run steps).nodes ∧ ∀ k, itemsAt k (run steps).nodes = liveUnder k steps := by
  have hempty : WellFormed (empty : NameMap α).nodes := .nil
  obtain ⟨hw, hi⟩ := itemsAt_foldl steps hempty
  exact ⟨hw, fun k => (hi k).trans (List.nil_append _)⟩

/-! ### Counting -/

/-- A removal tells how many items it drops. -/
theorem count_remove {ix : NameMap α} (h : WellFormed ix.nodes) (name : String) (p : α → Bool) :
    (ix.remove name p).2 = (itemsAt (Text.lower name) ix.nodes).countP p := by
  rw [remove_eq]
  generalize Text.lower name = key
  obtain ⟨nodes⟩ := ix
  dsimp only at h ⊢
  induction nodes with
  | nil => rfl
  | cons node rest ih =>
    rw [dropItems, itemsAt_cons]
    cases hc : compare node.key key with
    | lt =>
      have hk : node.key < key := compare_lt_iff_lt.1 hc
      rw [if_neg (ne_of_lt hk)]
      exact ih h.tail
    | eq =>
      have hk : node.key = key := compare_eq_iff_eq.1 hc
      rw [if_pos hk, h.itemsAt_tail (le_of_eq hk.symm), List.append_nil]
      have hcount := List.length_eq_countP_add_countP p (l := node.items)
      have hkept : (node.items.filter (!p ·)).length = node.items.countP (fun a => ¬ p a = true) := by
        rw [List.countP_eq_length_filter]
        simp
      dsimp only
      omega
    | gt =>
      have hk : key < node.key := compare_gt_iff_gt.1 hc
      rw [if_neg (ne_of_gt hk), h.itemsAt_tail (le_of_lt hk)]
      rfl

theorem mem_keys_run (steps : List (NameMapStep α)) (k : String) :
    k ∈ (run steps).keys ↔ k ∈ (liveItems steps).map (·.1) := by
  obtain ⟨hw, hi⟩ := itemsAt_run steps
  show k ∈ (run steps).nodes.map (·.key) ↔ _
  rw [hw.mem_keys, hi, liveUnder]
  simp

/-- The keys are those of the live items, each once. -/
theorem keys_perm (steps : List (NameMapStep α)) :
    (run steps).keys.Perm ((liveItems steps).map (·.1)).dedup := by
  have hsorted : (run steps).keys.Pairwise (· < ·) := List.pairwise_map.2 (itemsAt_run steps).1.sorted
  rw [List.perm_ext_iff_of_nodup (hsorted.imp ne_of_lt) (List.nodup_dedup _)]
  intro k
  rw [mem_keys_run, List.mem_dedup]

theorem itemCount_run (steps : List (NameMapStep α)) : (run steps).itemCount = (liveItems steps).length := by
  obtain ⟨hw, hi⟩ := itemsAt_run steps
  have hnode : ∀ node ∈ (run steps).nodes, node.items.length = ((liveItems steps).map (·.1)).count node.key := by
    intro node hnode
    rw [← hw.itemsAt_of_mem hnode, hi, liveUnder, List.length_map, List.count_eq_countP, List.countP_map,
      List.countP_eq_length_filter]
    rfl
  calc (run steps).itemCount
      = ((run steps).nodes.map fun node => node.items.length).sum := List.length_flatMap
    _ = ((run steps).keys.map ((liveItems steps).map (·.1)).count).sum := by
        rw [keys, List.map_map]
        congr 1
        exact List.map_congr_left hnode
    _ = (((liveItems steps).map (·.1)).dedup.map ((liveItems steps).map (·.1)).count).sum :=
        ((keys_perm steps).map _).sum_eq
    _ = (liveItems steps).length := by
        rw [List.sum_map_count_dedup_eq_length, List.length_map]

/-- After any changes the nodes increase strictly by key, none is empty, and there is one for each key of a live item,
with the live items under that key in the order in which they were added.  So these are found under a name, those among
them with a property are removed and counted, the nodes for a start are those whose key begins with it, and the map
counts the keys and the live items.  The nodes are parted wherever a place among them is looked for. -/
theorem answers_run (steps : List (NameMapStep α)) :
    (run steps).nodes.Pairwise (fun a b => a.key < b.key) ∧
    (∀ node ∈ (run steps).nodes, node.items ≠ [] ∧ node.items = liveUnder node.key steps) ∧
    (∀ k, k ∈ (run steps).keys ↔ k ∈ (liveItems steps).map (·.1)) ∧
    (∀ name, (run steps).find name = liveUnder (Text.lower name) steps) ∧
    (∀ name p, ((run steps).remove name p).2 = (liveUnder (Text.lower name) steps).countP p) ∧
    (∀ start, (run steps).startingWith start =
      (run steps).nodes.filter fun node => Text.beginsWith node.key (Text.lower start)) ∧
    (run steps).size = ((liveItems steps).map (·.1)).dedup.length ∧
    (run steps).itemCount = (liveItems steps).length ∧
    ∀ key, Search.Parted (fun node => compare node.key key == .lt) (run steps).nodes ∧
      Search.RangeParted (fun node => Search.compareStart node.key key) (fun node => Search.compareStart node.key key)
        (run steps).nodes := by
  obtain ⟨hw, hi⟩ := itemsAt_run steps
  refine ⟨hw.sorted, fun node hnode => ⟨hw.nonempty node hnode, ?_⟩, mem_keys_run steps, fun name => ?_,
    fun name p => ?_, fun start => startingWith_eq_filter hw start, ?_, itemCount_run steps, fun key => ⟨?_, ?_⟩⟩
  · rw [← hw.itemsAt_of_mem hnode, hi]
  · rw [find_eq_itemsAt hw, hi]
  · rw [count_remove hw, hi]
  · rw [← (keys_perm steps).length_eq, keys, List.length_map]
    rfl
  · exact Search.parted_before (hw.sorted.imp fun hlt hb =>
      compare_lt_iff_lt.2 (hlt.trans (compare_lt_iff_lt.1 hb)))
  · exact Search.rangeParted_start hw.pairwise_le key

end NameMap

end CodeAtlas
