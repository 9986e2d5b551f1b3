import CodeAtlas.Index.NameMap
import Mathlib.Data.List.Perm.Basic
import Mathlib.Data.String.Basic
import Mathlib.Order.Compare

/-!
# The index of items by name as a map

Adding and removing search for the place of a key and change the nodes there, which is the same as to go along the nodes
up to that place (`nodes_add`, `remove_eq`).  A name map is well formed when its keys increase strictly and no node is
empty.  Both operations keep it so, and change the items under one key only (`itemsAt_add`, `itemsAt_remove`), which are
those that a look-up finds (`find_eq_itemsAt`).  Since well-formed maps with the same items under every key are equal (`ext_itemsAt`), this
determines the nodes as well; and if the items under every key are the same up to their order, then so are all items
(`items_perm`).
-/

namespace CodeAtlas.Search

variable {α : Type}

/-- A search goes past an element before the key, and ends at any other one. -/
theorem search_cons (order : α → Ordering) (a : α) (l : List α) :
    search order (a :: l) = match order a with
      | .lt => ((search order l).1 + 1, (search order l).2)
      | .eq => (0, true)
      | .gt => (0, false) := by
  unfold search partitionPoint
  rw [List.takeWhile_cons]
  cases h : order a <;> simp [h]

theorem find?_cons (order : α → Ordering) (a : α) (l : List α) :
    find? order (a :: l) = match order a with
      | .lt => find? order l
      | .eq => some a
      | .gt => none := by
  unfold find?
  rw [search_cons]
  cases order a with
  | lt => rcases search order l with ⟨rank, _ | _⟩ <;> rfl
  | eq => rfl
  | gt => rfl

end CodeAtlas.Search

namespace CodeAtlas.NameMap

variable {α : Type}

/-! ### Along the nodes -/

/-- Adds an item under a key, going along the nodes. -/
def insertNode (key : String) (item : α) : List (NameNode α) → List (NameNode α)
  | [] => [⟨key, [item]⟩]
  | node :: rest =>
    match compare node.key key with
    | .lt => node :: insertNode key item rest
    | .eq => ⟨node.key, node.items ++ [item]⟩ :: rest
    | .gt => ⟨key, [item]⟩ :: node :: rest

/-- Drops the items of a key that satisfy `p`, going along the nodes, and counts them. -/
def dropItems (key : String) (p : α → Bool) : List (NameNode α) → List (NameNode α) × Nat
  | [] => ([], 0)
  | node :: rest =>
    match compare node.key key with
    | .lt => (node :: (dropItems key p rest).1, (dropItems key p rest).2)
    | .eq =>
      let kept := node.items.filter (!p ·)
      (if kept.isEmpty then rest else ⟨node.key, kept⟩ :: rest, node.items.length - kept.length)
    | .gt => (node :: rest, 0)

theorem nodes_add (ix : NameMap α) (name : String) (item : α) :
    (ix.add name item).nodes = insertNode (Text.lower name) item ix.nodes := by
  obtain ⟨nodes⟩ := ix
  unfold add searchKey
  generalize Text.lower name = key
  dsimp only
  induction nodes with
  | nil => rfl
  | cons node rest ih =>
    rw [Search.search_cons, insertNode]
    cases compare node.key key with
    | lt =>
      dsimp only
      rw [← ih]
      generalize Search.search _ rest = found
      obtain ⟨rank, _ | _⟩ := found <;> rfl
    | eq => rfl
    | gt => rfl

theorem remove_eq (ix : NameMap α) (name : String) (p : α → Bool) :
    ix.remove name p = (⟨(dropItems (Text.lower name) p ix.nodes).1⟩, (dropItems (Text.lower name) p ix.nodes).2) := by
  obtain ⟨nodes⟩ := ix
  unfold remove searchKey
  generalize Text.lower name = key
  dsimp only
  induction nodes with
  | nil => rfl
  | cons node rest ih =>
    rw [Search.search_cons, dropItems]
    cases compare node.key key with
    | lt =>
      dsimp only at ih ⊢
      have hnodes := congrArg (·.1.nodes) ih
      have hcount := congrArg Prod.snd ih
      dsimp only at hnodes hcount
      rw [← hnodes, ← hcount]
      generalize Search.search _ rest = found
      obtain ⟨rank, _ | _⟩ := found
      · rfl
      · dsimp only
        rw [List.getElem?_cons_succ]
        cases rest[rank]? with
        | none => rfl
        | some found =>
          dsimp only
          split <;> rfl
    | eq => rfl
    | gt => rfl

/-! ### Well-formed nodes -/

/-- The keys increase strictly and no node is empty. -/
structure WellFormed (nodes : List (NameNode α)) : Prop where
  sorted : nodes.Pairwise fun a b => a.key < b.key
  nonempty : ∀ node ∈ nodes, node.items ≠ []

/-- The items under a key. -/
def itemsAt (k : String) (nodes : List (NameNode α)) : List α :=
  nodes.flatMap fun node => if node.key = k then node.items else []

theorem itemsAt_cons (k : String) (node : NameNode α) (rest : List (NameNode α)) :
    itemsAt k (node :: rest) = (if node.key = k then node.items else []) ++ itemsAt k rest :=
  List.flatMap_cons

theorem itemsAt_eq_nil {k : String} {nodes : List (NameNode α)} (h : ∀ node ∈ nodes, node.key ≠ k) :
    itemsAt k nodes = [] := by
  unfold itemsAt
  rw [List.flatMap_eq_nil_iff]
  intro node hnode
  rw [if_neg (h node hnode)]

theorem mem_itemsAt {k : String} {nodes : List (NameNode α)} {a : α} :
    a ∈ itemsAt k nodes ↔ ∃ node ∈ nodes, node.key = k ∧ a ∈ node.items := by
  unfold itemsAt
  rw [List.mem_flatMap]
  constructor
  · rintro ⟨node, hnode, ha⟩
    split at ha
    · exact ⟨node, hnode, ‹_›, ha⟩
    · exact nomatch ha
  · rintro ⟨node, hnode, hk, ha⟩
    exact ⟨node, hnode, by rwa [if_pos hk]⟩

namespace WellFormed

theorem nil : WellFormed ([] : List (NameNode α)) :=
  ⟨.nil, nofun⟩

theorem tail {node : NameNode α} {rest : List (NameNode α)} (h : WellFormed (node :: rest)) : WellFormed rest :=
  ⟨(List.pairwise_cons.1 h.sorted).2, fun n hn => h.nonempty n (List.mem_cons_of_mem node hn)⟩

/-- Nothing is under a key that is not greater than the first one, except in the first node. -/
theorem itemsAt_tail {node : NameNode α} {rest : List (NameNode α)} (h : WellFormed (node :: rest)) {k : String}
    (hk : k ≤ node.key) : itemsAt k rest = [] :=
  itemsAt_eq_nil fun n hn he => absurd ((List.pairwise_cons.1 h.sorted).1 n hn) (not_lt.2 (he ▸ hk))

theorem itemsAt_head {node : NameNode α} {rest : List (NameNode α)} (h : WellFormed (node :: rest)) :
    itemsAt node.key (node :: rest) = node.items := by
  rw [itemsAt_cons, if_pos rfl, h.itemsAt_tail (le_refl _), List.append_nil]

theorem cons {node : NameNode α} {rest : List (NameNode α)} (h : WellFormed rest) (hi : node.items ≠ [])
    (hk : ∀ n ∈ rest, node.key < n.key) : WellFormed (node :: rest) := by
  refine ⟨List.pairwise_cons.2 ⟨hk, h.sorted⟩, fun n hn => ?_⟩
  rcases List.mem_cons.1 hn with rfl | hn
  · exact hi
  · exact h.nonempty n hn

end WellFormed

/-! ### Adding -/

/-- The keys after an item has been added are the old ones and its own. -/
private theorem key_of_mem_insertNode {key : String} {item : α} {nodes : List (NameNode α)} {n : NameNode α}
    (hn : n ∈ insertNode key item nodes) : n.key = key ∨ ∃ m ∈ nodes, m.key = n.key := by
  induction nodes with
  | nil =>
    rw [insertNode, List.mem_singleton] at hn
    rw [hn]
    exact Or.inl rfl
  | cons node rest ih =>
    rw [insertNode] at hn
    split at hn
    · rcases List.mem_cons.1 hn with rfl | hn
      · exact Or.inr ⟨n, List.mem_cons_self, rfl⟩
      · rcases ih hn with h | ⟨m, hm, h⟩
        · exact Or.inl h
        · exact Or.inr ⟨m, List.mem_cons_of_mem node hm, h⟩
    · rcases List.mem_cons.1 hn with rfl | hn
      · exact Or.inr ⟨node, List.mem_cons_self, rfl⟩
      · exact Or.inr ⟨n, List.mem_cons_of_mem node hn, rfl⟩
    · rcases List.mem_cons.1 hn with rfl | hn
      · exact Or.inl rfl
      · exact Or.inr ⟨n, hn, rfl⟩

theorem WellFormed.insertNode {nodes : List (NameNode α)} (h : WellFormed nodes) (key : String) (item : α) :
    WellFormed (insertNode key item nodes) := by
  induction nodes with
  | nil => exact WellFormed.nil.cons (List.cons_ne_nil item []) nofun
  | cons node rest ih =>
    obtain ⟨hlt, -⟩ := List.pairwise_cons.1 h.sorted
    rw [NameMap.insertNode]
    split
    · rename_i hc
      have hk : node.key < key := compare_lt_iff_lt.1 hc
      refine (ih h.tail).cons (h.nonempty node List.mem_cons_self) fun n hn => ?_
      rcases key_of_mem_insertNode hn with hn | ⟨m, hm, hn⟩
      · rwa [hn]
      · rw [← hn]
        exact hlt m hm
    · exact h.tail.cons (List.append_ne_nil_of_right_ne_nil _ (List.cons_ne_nil item [])) hlt
    · rename_i hc
      have hk : key < node.key := compare_gt_iff_gt.1 hc
      refine h.cons (List.cons_ne_nil item []) fun n hn => ?_
      rcases List.mem_cons.1 hn with rfl | hn
      · exact hk
      · exact hk.trans (hlt n hn)

theorem itemsAt_insertNode {nodes : List (NameNode α)} (h : WellFormed nodes) (key : String) (item : α) (k : String) :
    itemsAt k (insertNode key item nodes) = itemsAt k nodes ++ if key = k then [item] else [] := by
  induction nodes with
  | nil =>
    rw [insertNode, itemsAt_cons]
    exact List.append_nil _
  | cons node rest ih =>
    rw [insertNode]
    split
    · rw [itemsAt_cons, ih h.tail, itemsAt_cons, List.append_assoc]
    · rename_i hc
      have hk : node.key = key := compare_eq_iff_eq.1 hc
      rw [itemsAt_cons, itemsAt_cons]
      by_cases he : key = k
      · have hrest := h.itemsAt_tail (le_of_eq (he.symm.trans hk.symm))
        rw [if_pos (hk.trans he), if_pos (hk.trans he), if_pos he, hrest, List.append_nil, List.append_nil]
      · have hne : ¬ node.key = k := fun h => he (hk.symm.trans h)
        rw [if_neg hne, if_neg hne, if_neg he, List.append_nil]
    · rename_i hc
      have hk : key < node.key := compare_gt_iff_gt.1 hc
      rw [itemsAt_cons]
      by_cases he : key = k
      · subst he
        rw [if_pos rfl, itemsAt_cons, if_neg (ne_of_gt hk), h.itemsAt_tail (le_of_lt hk)]
        rfl
      · rw [if_neg he, List.append_nil, List.nil_append]

theorem WellFormed.add {ix : NameMap α} (h : WellFormed ix.nodes) (name : String) (item : α) :
    WellFormed (ix.add name item).nodes := by
  rw [nodes_add]
  exact h.insertNode (Text.lower name) item

theorem itemsAt_add {ix : NameMap α} (h : WellFormed ix.nodes) (name : String) (item : α) (k : String) :
    itemsAt k (ix.add name item).nodes = itemsAt k ix.nodes ++ if Text.lower name = k then [item] else [] := by
  rw [nodes_add]
  exact itemsAt_insertNode h (Text.lower name) item k

/-! ### Removing -/

private theorem key_of_mem_dropItems {key : String} {p : α → Bool} {nodes : List (NameNode α)} {n : NameNode α}
    (hn : n ∈ (dropItems key p nodes).1) : ∃ m ∈ nodes, m.key = n.key := by
  induction nodes with
  | nil => exact nomatch hn
  | cons node rest ih =>
    rw [dropItems] at hn
    split at hn
    · rcases List.mem_cons.1 hn with rfl | hn
      · exact ⟨n, List.mem_cons_self, rfl⟩
      · obtain ⟨m, hm, h⟩ := ih hn
        exact ⟨m, List.mem_cons_of_mem node hm, h⟩
    · simp only at hn
      split at hn
      · exact ⟨n, List.mem_cons_of_mem node hn, rfl⟩
      · rcases List.mem_cons.1 hn with rfl | hn
        · exact ⟨node, List.mem_cons_self, rfl⟩
        · exact ⟨n, List.mem_cons_of_mem node hn, rfl⟩
    · exact ⟨n, hn, rfl⟩

theorem WellFormed.dropItems {nodes : List (NameNode α)} (h : WellFormed nodes) (key : String) (p : α → Bool) :
    WellFormed (dropItems key p nodes).1 := by
  induction nodes with
  | nil => exact h
  | cons node rest ih =>
    obtain ⟨hlt, -⟩ := List.pairwise_cons.1 h.sorted
    rw [NameMap.dropItems]
    split
    · refine (ih h.tail).cons (h.nonempty node List.mem_cons_self) fun n hn => ?_
      obtain ⟨m, hm, hn⟩ := key_of_mem_dropItems hn
      rw [← hn]
      exact hlt m hm
    · simp only
      split
      · exact h.tail
      · rename_i hkept
        exact h.tail.cons (fun he => hkept (List.isEmpty_iff.2 he)) hlt
    · exact h

theorem itemsAt_dropItems {nodes : List (NameNode α)} (h : WellFormed nodes) (key : String) (p : α → Bool)
    (k : String) : itemsAt k (dropItems key p nodes).1 =
      if key = k then (itemsAt k nodes).filter (!p ·) else itemsAt k nodes := by
  induction nodes with
  | nil =>
    rw [dropItems]
    split <;> rfl
  | cons node rest ih =>
    rw [dropItems]
    split
    · rename_i hc
      have hk : node.key < key := compare_lt_iff_lt.1 hc
      simp only
      rw [itemsAt_cons, ih h.tail, itemsAt_cons]
      by_cases he : key = k
      · have hne : ¬ node.key = k := fun hn => ne_of_lt hk (hn.trans he.symm)
        rw [if_pos he, if_pos he, if_neg hne]
        rfl
      · rw [if_neg he, if_neg he]
    · rename_i hc
      have hk : node.key = key := compare_eq_iff_eq.1 hc
      -- an empty node and a missing one have the same items
      have hkept : itemsAt k (if (node.items.filter (!p ·)).isEmpty then rest
          else ⟨node.key, node.items.filter (!p ·)⟩ :: rest) =
          (if node.key = k then node.items.filter (!p ·) else []) ++ itemsAt k rest := by
        split
        · rename_i hempty
          rw [List.isEmpty_iff.1 hempty, ite_self]
          rfl
        · rw [itemsAt_cons]
      simp only
      rw [hkept, itemsAt_cons, hk]
      by_cases he : key = k
      · have hrest := h.itemsAt_tail (le_of_eq (he.symm.trans hk.symm))
        rw [if_pos he, if_pos he, if_pos he, hrest, List.append_nil, List.append_nil]
      · rw [if_neg he, if_neg he, if_neg he]
    · rename_i hc
      have hk : key < node.key := compare_gt_iff_gt.1 hc
      by_cases he : key = k
      · subst he
        rw [if_pos rfl, itemsAt_cons, if_neg (ne_of_gt hk), h.itemsAt_tail (le_of_lt hk)]
        rfl
      · rw [if_neg he]

theorem WellFormed.remove {ix : NameMap α} (h : WellFormed ix.nodes) (name : String) (p : α → Bool) :
    WellFormed (ix.remove name p).1.nodes := by
  rw [remove_eq]
  exact h.dropItems (Text.lower name) p

theorem itemsAt_remove {ix : NameMap α} (h : WellFormed ix.nodes) (name : String) (p : α → Bool) (k : String) :
    itemsAt k (ix.remove name p).1.nodes =
      if Text.lower name = k then (itemsAt k ix.nodes).filter (!p ·) else itemsAt k ix.nodes := by
  rw [remove_eq]
  exact itemsAt_dropItems h (Text.lower name) p k

/-! ### Many keys at once -/

/-- One item under each of some keys. -/
theorem addAll_spec (item : α) (keys : List String) {ix : NameMap α} (h : WellFormed ix.nodes) :
    WellFormed (keys.foldl (fun ix key => ix.add key item) ix).nodes ∧
      ∀ k, itemsAt k (keys.foldl (fun ix key => ix.add key item) ix).nodes =
        itemsAt k ix.nodes ++ (keys.filter fun key => Text.lower key == k).map fun _ => item := by
  induction keys generalizing ix with
  | nil => exact ⟨h, fun k => (List.append_nil _).symm⟩
  | cons key keys ih =>
    obtain ⟨hw, hi⟩ := ih (h.add key item)
    refine ⟨hw, fun k => ?_⟩
    rw [List.foldl_cons, hi, itemsAt_add h, List.append_assoc, List.filter_cons]
    by_cases hk : Text.lower key = k
    · rw [if_pos hk, if_pos (beq_iff_eq.2 hk)]
      rfl
    · rw [if_neg hk, if_neg (fun hb => hk (beq_iff_eq.1 hb))]
      rfl

/-- Dropping items under each of some keys. -/
theorem removeAll_spec (p : α → Bool) (keys : List String) {ix : NameMap α} (h : WellFormed ix.nodes) :
    WellFormed (keys.foldl (fun ix key => (ix.remove key p).1) ix).nodes ∧
      ∀ k, itemsAt k (keys.foldl (fun ix key => (ix.remove key p).1) ix).nodes =
        if ∃ key ∈ keys, Text.lower key = k then (itemsAt k ix.nodes).filter (!p ·) else itemsAt k ix.nodes := by
  induction keys generalizing ix with
  | nil => exact ⟨h, fun k => by simp⟩
  | cons key keys ih =>
    obtain ⟨hw, hi⟩ := ih (h.remove key p)
    refine ⟨hw, fun k => ?_⟩
    rw [List.foldl_cons, hi, itemsAt_remove h]
    by_cases hk : Text.lower key = k
    · have hex : ∃ key' ∈ key :: keys, Text.lower key' = k := ⟨key, List.mem_cons_self, hk⟩
      rw [if_pos hk, if_pos hex, List.filter_filter]
      simp only [Bool.and_self, ite_self]
    · rw [if_neg hk]
      have hiff : (∃ key' ∈ key :: keys, Text.lower key' = k) ↔ ∃ key' ∈ keys, Text.lower key' = k := by
        constructor
        · rintro ⟨key', hmem, hk'⟩
          rcases List.mem_cons.1 hmem with rfl | hmem
          · exact absurd hk' hk
          · exact ⟨key', hmem, hk'⟩
        · rintro ⟨key', hmem, hk'⟩
          exact ⟨key', List.mem_cons_of_mem key hmem, hk'⟩
      simp only [hiff]

/-! ### Looking up -/

private theorem find?_nodes {nodes : List (NameNode α)} (h : WellFormed nodes) (k : String) :
    (match Search.find? (fun node => compare node.key k) nodes with
      | some node => node.items
      | none => []) = itemsAt k nodes := by
  induction nodes with
  | nil => rfl
  | cons node rest ih =>
    rw [Search.find?_cons, itemsAt_cons]
    rcases lt_trichotomy node.key k with hk | hk | hk
    · rw [compare_lt_iff_lt.2 hk, if_neg (ne_of_lt hk)]
      exact ih h.tail
    · rw [compare_eq_iff_eq.2 hk, if_pos hk, h.itemsAt_tail (le_of_eq hk.symm), List.append_nil]
    · rw [compare_gt_iff_gt.2 hk, if_neg (ne_of_gt hk), h.itemsAt_tail (le_of_lt hk)]
      rfl

/-- Looking up a name gives the items under its lower case. -/
theorem find_eq_itemsAt {ix : NameMap α} (h : WellFormed ix.nodes) (name : String) :
    ix.find name = itemsAt (Text.lower name) ix.nodes :=
  find?_nodes h (Text.lower name)

/-! ### Extensionality -/

private theorem head_key_le {a b : NameNode α} {as bs : List (NameNode α)} (ha : WellFormed (a :: as))
    (hb : WellFormed (b :: bs)) (h : ∀ k, itemsAt k (a :: as) = itemsAt k (b :: bs)) : b.key ≤ a.key := by
  by_contra hlt
  have hlt : a.key < b.key := not_le.1 hlt
  have hnil : itemsAt a.key (b :: bs) = [] := by
    rw [itemsAt_cons, if_neg (ne_of_gt hlt), hb.itemsAt_tail (le_of_lt hlt)]
    rfl
  rw [← h, ha.itemsAt_head] at hnil
  exact ha.nonempty a List.mem_cons_self hnil

/-- Well-formed nodes are determined by the items under each key. -/
theorem ext_itemsAt {as bs : List (NameNode α)} (ha : WellFormed as) (hb : WellFormed bs)
    (h : ∀ k, itemsAt k as = itemsAt k bs) : as = bs := by
  induction as generalizing bs with
  | nil =>
    cases bs with
    | nil => rfl
    | cons b bs => exact absurd ((h b.key).trans hb.itemsAt_head).symm (hb.nonempty b List.mem_cons_self)
  | cons a as ih =>
    cases bs with
    | nil => exact absurd (ha.itemsAt_head.symm.trans (h a.key)) (ha.nonempty a List.mem_cons_self)
    | cons b bs =>
      have hkey : a.key = b.key := le_antisymm (head_key_le hb ha fun k => (h k).symm) (head_key_le ha hb h)
      have hitems : a.items = b.items := by
        have := h a.key
        rw [ha.itemsAt_head, hkey, hb.itemsAt_head] at this
        exact this
      have hnode : a = b := by
        cases a
        cases b
        cases hkey
        cases hitems
        rfl
      subst hnode
      rw [ih ha.tail hb.tail]
      intro k
      have hk := h k
      rw [itemsAt_cons, itemsAt_cons] at hk
      exact List.append_cancel_left hk

/-! ### All items -/

theorem WellFormed.itemsAt_of_mem {nodes : List (NameNode α)} (h : WellFormed nodes) {node : NameNode α}
    (hn : node ∈ nodes) : itemsAt node.key nodes = node.items := by
  induction nodes with
  | nil => exact nomatch hn
  | cons first rest ih =>
    rcases List.mem_cons.1 hn with rfl | hn
    · exact h.itemsAt_head
    · have hlt := (List.pairwise_cons.1 h.sorted).1 node hn
      rw [itemsAt_cons, if_neg (ne_of_lt hlt), ih h.tail hn]
      rfl

/-- There is a node for a key just when there is an item. -/
theorem WellFormed.mem_keys {nodes : List (NameNode α)} (h : WellFormed nodes) {k : String} :
    k ∈ nodes.map (·.key) ↔ itemsAt k nodes ≠ [] := by
  constructor
  · intro hk
    obtain ⟨node, hnode, rfl⟩ := List.mem_map.1 hk
    rw [h.itemsAt_of_mem hnode]
    exact h.nonempty node hnode
  · intro hi
    obtain ⟨a, ha⟩ := List.exists_mem_of_ne_nil _ hi
    obtain ⟨node, hnode, hk, -⟩ := mem_itemsAt.1 ha
    exact List.mem_map.2 ⟨node, hnode, hk⟩

private theorem items_eq_flatMap {nodes : List (NameNode α)} (h : WellFormed nodes) :
    nodes.flatMap (·.items) = (nodes.map (·.key)).flatMap fun k => itemsAt k nodes := by
  rw [List.flatMap_map]
  exact List.flatMap_congr fun node hnode => (h.itemsAt_of_mem hnode).symm

/-- Well-formed nodes that have the same items under each key, up to their order, have the same items. -/
theorem items_perm {β : Type} (f : α → β) {as bs : List (NameNode α)} (ha : WellFormed as) (hb : WellFormed bs)
    (h : ∀ k, ((itemsAt k as).map f).Perm ((itemsAt k bs).map f)) :
    ((as.flatMap (·.items)).map f).Perm ((bs.flatMap (·.items)).map f) := by
  have hnil : ∀ k, itemsAt k as = [] ↔ itemsAt k bs = [] := by
    intro k
    rw [← List.map_eq_nil_iff (f := f), ← List.map_eq_nil_iff (f := f) (l := itemsAt k bs)]
    constructor
    · intro hk
      exact List.perm_nil.1 (hk ▸ (h k).symm)
    · intro hk
      exact List.perm_nil.1 (hk ▸ h k)
  have hsorted : ∀ {nodes : List (NameNode α)}, WellFormed nodes → (nodes.map (·.key)).Pairwise (· < ·) :=
    fun hn => List.pairwise_map.2 hn.sorted
  have hnodup : ∀ {nodes : List (NameNode α)}, WellFormed nodes → (nodes.map (·.key)).Nodup :=
    fun hn => (hsorted hn).imp ne_of_lt
  have hkeys : (as.map (·.key)).Perm (bs.map (·.key)) := by
    rw [List.perm_ext_iff_of_nodup (hnodup ha) (hnodup hb)]
    intro k
    rw [ha.mem_keys, hb.mem_keys, ne_eq, hnil k]
  rw [items_eq_flatMap ha, items_eq_flatMap hb, List.map_flatMap, List.map_flatMap]
  exact hkeys.flatMap fun k _ => h k

end CodeAtlas.NameMap
