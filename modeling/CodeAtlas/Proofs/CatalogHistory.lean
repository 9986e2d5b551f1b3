import CodeAtlas.Proofs.CatalogLookup

/-!
# The history of a catalog

Symbols are added to a catalog and removed from it by their identities; a symbol may be added several times, and removed
while it is absent.  Of all that only the live entries matter, which are the additions that no removal of the same
symbol follows (`liveEntries`): a catalog stands for them (`lists_run`), so its nodes can be told from them.  Adding
symbols that are not live and removing them again therefore leaves no trace (`liveEntries_restored`).
-/

namespace CodeAtlas

/-- One change of a catalog. -/
inductive CatalogStep (ι : Type) where
  | add (id : ι)
  | remove (id : ι)
  deriving DecidableEq

namespace Catalog

variable {ι : Type}

/-! ### Nodes without numbers -/

/-- The identities that are filed under each key. -/
def listing (ix : Catalog ι) : List (NameNode ι) :=
  ix.names.nodes.map fun node => ⟨node.key, node.items.map (·.id)⟩

private theorem itemsAt_listing (ix : Catalog ι) (k : String) :
    NameMap.itemsAt k ix.listing = (NameMap.itemsAt k ix.names.nodes).map (·.id) := by
  unfold listing NameMap.itemsAt
  rw [List.flatMap_map, List.map_flatMap]
  apply List.flatMap_congr
  intro node _
  by_cases hk : node.key = k <;> simp [hk]

private theorem wellFormed_listing {ix : Catalog ι} (h : NameMap.WellFormed ix.names.nodes) :
    NameMap.WellFormed ix.listing := by
  refine ⟨List.pairwise_map.2 h.sorted, fun node hnode => ?_⟩
  obtain ⟨node, hmem, rfl⟩ := List.mem_map.1 hnode
  simpa using h.nonempty node hmem

/-! ### Changes -/

variable [DecidableEq ι] (symbolOf : ι → Symbol)

/-- What a change does, where `symbolOf` gives the symbol with an identity. -/
def step (ix : Catalog ι) : CatalogStep ι → Catalog ι
  | .add id => ix.add id (symbolOf id)
  | .remove id => ix.remove id (symbolOf id)

/-- The catalog after some changes of an empty one. -/
def run (fuzzyMin : Nat) (steps : List (CatalogStep ι)) : Catalog ι :=
  steps.foldl (step symbolOf) (empty fuzzyMin)

/-- The additions that no removal of the same symbol follows, with all additions numbered from `n` on. -/
def liveEntries (n : Nat) : List (CatalogStep ι) → List (CatalogEntry ι)
  | [] => []
  | .add id :: steps =>
    (if .remove id ∈ steps then [] else [⟨n, id, symbolOf id⟩]) ++ liveEntries (n + 1) steps
  | .remove _ :: steps => liveEntries n steps

/-! ### What a catalog stands for -/

/-- Changes take out the entries of the symbols that they remove, and put in the additions that stay. -/
theorem Lists.foldl_step {ix : Catalog ι} {entries : List (CatalogEntry ι)} (h : ix.Lists entries)
    (hs : ∀ e ∈ entries, e.symbol = symbolOf e.id) (steps : List (CatalogStep ι)) :
    (steps.foldl (step symbolOf) ix).Lists
      ((entries.filter fun e => decide (.remove e.id ∉ steps)) ++ liveEntries symbolOf ix.next steps) := by
  induction steps generalizing ix entries with
  | nil => simpa [liveEntries] using h
  | cons first steps ih =>
    cases first with
    | add id =>
      have hnew : ∀ e ∈ entries ++ [⟨ix.next, id, symbolOf id⟩], e.symbol = symbolOf e.id := by
        intro e he
        rcases List.mem_append.1 he with he | he
        · exact hs e he
        · rw [List.mem_singleton.1 he]
      have hrest := ih (h.add id (symbolOf id)) hnew
      rw [List.filter_append, List.append_assoc] at hrest
      have hone : ([⟨ix.next, id, symbolOf id⟩] : List (CatalogEntry ι)).filter
          (fun e => decide (.remove e.id ∉ steps)) =
            if .remove id ∈ steps then [] else [⟨ix.next, id, symbolOf id⟩] := by
        by_cases hid : CatalogStep.remove id ∈ steps <;> simp [hid]
      have hkept : (entries.filter fun e => decide (.remove e.id ∉ CatalogStep.add id :: steps)) =
          entries.filter fun e => decide (.remove e.id ∉ steps) := by
        simp
      rw [hone] at hrest
      rw [hkept, liveEntries]
      exact hrest
    | remove id =>
      have hid : ∀ e ∈ entries, e.id = id → e.symbol = symbolOf id := by
        intro e he heq
        rw [hs e he, heq]
      have hrest := ih (h.remove hid) fun e he => hs e (List.mem_of_mem_filter he)
      rw [List.filter_filter] at hrest
      have hkept : (entries.filter fun e => decide (.remove e.id ∉ CatalogStep.remove id :: steps)) =
          entries.filter fun e => decide (.remove e.id ∉ steps) && !e.id == id := by
        apply List.filter_congr
        intro e _
        by_cases he : e.id = id <;> simp [he]
      rw [hkept]
      exact hrest

/-- After any changes a catalog stands for its live entries. -/
theorem lists_run (fuzzyMin : Nat) (steps : List (CatalogStep ι)) :
    (run symbolOf fuzzyMin steps).Lists (liveEntries symbolOf 0 steps) :=
  (empty_lists fuzzyMin).foldl_step symbolOf nofun steps

theorem symbol_of_live {n : Nat} {steps : List (CatalogStep ι)} {e : CatalogEntry ι}
    (he : e ∈ liveEntries symbolOf n steps) : e.symbol = symbolOf e.id := by
  induction steps generalizing n with
  | nil => exact nomatch he
  | cons first steps ih =>
    cases first with
    | add id =>
      rw [liveEntries] at he
      rcases List.mem_append.1 he with he | he
      · split at he
        · exact nomatch he
        · rw [List.mem_singleton.1 he]
      · exact ih he
    | remove id => exact ih he

/-! ### Later changes -/

/-- Later changes take out entries of the symbols that they remove, and number their own additions further on. -/
theorem liveEntries_append (n : Nat) (steps later : List (CatalogStep ι)) :
    ∃ m, liveEntries symbolOf n (steps ++ later) =
      ((liveEntries symbolOf n steps).filter fun e => decide (.remove e.id ∉ later)) ++
        liveEntries symbolOf m later := by
  induction steps generalizing n with
  | nil => exact ⟨n, rfl⟩
  | cons first steps ih =>
    cases first with
    | add id =>
      obtain ⟨m, hm⟩ := ih (n + 1)
      refine ⟨m, ?_⟩
      rw [List.cons_append, liveEntries, liveEntries, hm, List.filter_append, List.append_assoc]
      congr 1
      by_cases hs : CatalogStep.remove id ∈ steps <;> by_cases hl : CatalogStep.remove id ∈ later <;> simp [hs, hl]
    | remove id => exact ih n

/-- Nothing is live of symbols that are all removed later. -/
theorem liveEntries_removed (n : Nat) {added removed : List ι} (h : added ⊆ removed) :
    liveEntries symbolOf n (added.map .add ++ removed.map .remove) = [] := by
  induction added generalizing n with
  | nil =>
    rw [List.map_nil, List.nil_append]
    clear h
    induction removed with
    | nil => rfl
    | cons id removed ih => exact ih
  | cons id added ih =>
    obtain ⟨hid, hadded⟩ := List.cons_subset.1 h
    have hmem : CatalogStep.remove id ∈ added.map .add ++ removed.map .remove :=
      List.mem_append_right _ (List.mem_map_of_mem hid)
    rw [List.map_cons, List.cons_append, liveEntries, if_pos hmem, ih _ hadded]
    rfl

/-- Adding symbols and removing them again, none of which is live, leaves the live entries as they are. -/
theorem liveEntries_restored (n : Nat) (steps : List (CatalogStep ι)) {added removed : List ι} (h : added ⊆ removed)
    (hnew : ∀ id ∈ removed, id ∉ (liveEntries symbolOf n steps).map (·.id)) :
    liveEntries symbolOf n (steps ++ (added.map .add ++ removed.map .remove)) = liveEntries symbolOf n steps := by
  obtain ⟨m, hm⟩ := liveEntries_append symbolOf n steps (added.map .add ++ removed.map .remove)
  rw [hm, liveEntries_removed symbolOf m h, List.append_nil, List.filter_eq_self]
  intro e he
  have hid : e.id ∉ removed := fun hmem => hnew e.id hmem (List.mem_map_of_mem he)
  simpa using hid

/-! ### Live symbols and nodes -/

/-- Under each key are the live symbols that have it. -/
theorem itemsAt_listing_run (fuzzyMin : Nat) (steps : List (CatalogStep ι)) (k : String) :
    NameMap.itemsAt k (run symbolOf fuzzyMin steps).listing =
      ((liveEntries symbolOf 0 steps).map (·.id)).filter fun id => decide (k ∈ (symbolOf id).keys) := by
  rw [itemsAt_listing, (lists_run symbolOf fuzzyMin steps).itemsAt_eq_filter, List.filter_map]
  congr 1
  apply List.filter_congr
  intro e he
  rw [symbol_of_live symbolOf he]
  rfl

/-- The same symbols, live in the same order, are filed in the same way. -/
theorem listing_run_congr (fuzzyMin : Nat) {steps steps' : List (CatalogStep ι)}
    (h : (liveEntries symbolOf 0 steps').map (·.id) = (liveEntries symbolOf 0 steps).map (·.id)) :
    (run symbolOf fuzzyMin steps').listing = (run symbolOf fuzzyMin steps).listing := by
  refine NameMap.ext_itemsAt (wellFormed_listing (lists_run symbolOf fuzzyMin steps').wellFormed)
    (wellFormed_listing (lists_run symbolOf fuzzyMin steps).wellFormed) fun k => ?_
  rw [itemsAt_listing_run, itemsAt_listing_run, h]

/-- After any changes the nodes increase strictly by key, none is empty, and under each key are the live entries whose
symbols have the key, each once and in the order of their numbers.  So the nodes depend on the live entries only, and
without the numbers on the live symbols only; and to add symbols that are not live and remove them again, in any order,
restores the nodes. -/
theorem nodes_run (fuzzyMin : Nat) (steps : List (CatalogStep ι)) :
    (run symbolOf fuzzyMin steps).names.nodes.Pairwise (fun a b => a.key < b.key) ∧
    (∀ node ∈ (run symbolOf fuzzyMin steps).names.nodes, node.items ≠ []) ∧
    (∀ k, NameMap.itemsAt k (run symbolOf fuzzyMin steps).names.nodes =
      (liveEntries symbolOf 0 steps).filter fun e => decide (k ∈ e.symbol.keys)) ∧
    (liveEntries symbolOf 0 steps).Pairwise (fun a b => a.sequence < b.sequence) ∧
    (∀ steps', liveEntries symbolOf 0 steps' = liveEntries symbolOf 0 steps →
      (run symbolOf fuzzyMin steps').names.nodes = (run symbolOf fuzzyMin steps).names.nodes) ∧
    (∀ steps', (liveEntries symbolOf 0 steps').map (·.id) = (liveEntries symbolOf 0 steps).map (·.id) →
      (run symbolOf fuzzyMin steps').listing = (run symbolOf fuzzyMin steps).listing) ∧
    ∀ added removed : List ι, (∀ id, id ∈ removed ↔ id ∈ added) →
      (∀ id ∈ added, id ∉ (liveEntries symbolOf 0 steps).map (·.id)) →
      (run symbolOf fuzzyMin (steps ++ (added.map .add ++ removed.map .remove))).names.nodes =
        (run symbolOf fuzzyMin steps).names.nodes := by
  have hlists := lists_run symbolOf fuzzyMin
  have hsame : ∀ steps', liveEntries symbolOf 0 steps' = liveEntries symbolOf 0 steps →
      (run symbolOf fuzzyMin steps').names.nodes = (run symbolOf fuzzyMin steps).names.nodes := by
    intro steps' hlive
    have hlists' := hlists steps'
    rw [hlive] at hlists'
    rw [(hlists steps).names_eq hlists']
  refine ⟨(hlists steps).wellFormed.sorted, (hlists steps).wellFormed.nonempty, (hlists steps).itemsAt_eq_filter,
    (hlists steps).ordered, hsame, fun steps' => listing_run_congr symbolOf fuzzyMin, ?_⟩
  intro added removed hmem hnew
  exact hsame _ (liveEntries_restored symbolOf 0 steps (fun id => (hmem id).2) fun id hid => hnew id ((hmem id).1 hid))

end Catalog

end CodeAtlas
