import CodeAtlas.Proofs.CatalogEntries
import CodeAtlas.Proofs.ListedSymbols
import Mathlib.Algebra.Ring.Nat

/-!
# The history of a pool

After any sequence of additions and removals a pool is the one that its present tables call for: its count is their
number of symbols, and its catalog stands for their indexable symbols, table after table in the order of addition.
Removing recomputes which symbols to take out; that these are the ones that were put in is part of what each step keeps
(`Consistent`).
-/

namespace CodeAtlas

/-- One change of a pool. -/
inductive PoolStep where
  | add (t : SymbolTable)
  | remove (uri : String)

namespace SymbolPool

/-- A rejected addition leaves the pool as it is. -/
def step (s : SymbolPool) : PoolStep → SymbolPool
  | .add t => (s.add? t).getD s
  | .remove uri => s.remove uri

/-- The pool after some changes of an empty one. -/
def run (settings : Settings) (steps : List PoolStep) : SymbolPool :=
  steps.foldl step (empty settings)

/-- The tables that are present after one more change, in the order of their addition. -/
def presentAfter (tables : List SymbolTable) : PoolStep → List SymbolTable
  | .add t => if t.uri ∈ tables.map (·.uri) then tables else tables ++ [t]
  | .remove uri => tables.filter (·.uri != uri)

def present (steps : List PoolStep) : List SymbolTable :=
  steps.foldl presentAfter []

/-- The pool is the one that its tables call for. -/
structure Consistent (s : SymbolPool) : Prop where
  uris : (s.tables.map (·.uri)).Nodup
  count : s.symbolCount = (s.tables.map (·.symbolCount)).sum
  catalog : ∃ entries, s.catalog.Lists entries ∧
    entries.map (fun e => (e.id, e.symbol)) = s.tables.flatMap (·.listed s.listMembers)

theorem empty_consistent (settings : Settings) : (empty settings).Consistent :=
  ⟨.nil, rfl, [], Catalog.empty_lists settings.fuzzyMin, rfl⟩

theorem knowsDocument_iff (s : SymbolPool) (uri : String) :
    s.knowsDocument uri = true ↔ uri ∈ s.tables.map (·.uri) := by
  unfold knowsDocument
  rw [List.any_eq_true, List.mem_map]
  simp only [beq_iff_eq]

/-! ### Identities -/

/-- Listed symbols carry the uri of their table. -/
private theorem uri_of_listed {members : Bool} {t : SymbolTable} {x : SymbolId × Symbol} (h : x ∈ t.listed members) :
    x.1.1 = t.uri := by
  obtain ⟨_, -, rfl⟩ := List.mem_map.1 h
  rfl

/-- The identities of the listed symbols of a table are different. -/
private theorem listed_ids_nodup (members : Bool) (t : SymbolTable) : ((t.listed members).map (·.1)).Nodup := by
  unfold SymbolTable.listed
  rw [List.map_map]
  have hsnd : ((Symbol.listedInAll members .file t.root.children).zipIdx.map Prod.snd).Nodup := by
    rw [List.zipIdx_map_snd]
    exact List.nodup_range'
  have hmap := hsnd.map (f := fun n => (t.uri, n)) fun a b h => (Prod.mk.inj h).2
  rwa [List.map_map] at hmap

/-- Tables with the same uri are the same. -/
private theorem table_of_uri {tables : List SymbolTable} (h : (tables.map (·.uri)).Nodup) {t u : SymbolTable}
    (ht : t ∈ tables) (hu : u ∈ tables) (he : u.uri = t.uri) : u = t :=
  List.inj_on_of_nodup_map h hu ht he

/-- A symbol that is listed in a table is the only one with its identity. -/
private theorem symbol_of_id {members : Bool} {tables : List SymbolTable} (h : (tables.map (·.uri)).Nodup)
    {t : SymbolTable} (ht : t ∈ tables) {x y : SymbolId × Symbol} (hx : x ∈ t.listed members)
    (hy : y ∈ tables.flatMap (·.listed members)) (he : y.1 = x.1) : y.2 = x.2 := by
  obtain ⟨u, hu, hy⟩ := List.mem_flatMap.1 hy
  have huri : u.uri = t.uri := by rw [← uri_of_listed hx, ← uri_of_listed hy, he]
  obtain rfl := table_of_uri h ht hu huri
  exact congrArg Prod.snd (List.inj_on_of_nodup_map (listed_ids_nodup members u) hy hx he)

/-! ### Adding -/

theorem add_eq_none_iff (s : SymbolPool) (t : SymbolTable) : s.add? t = none ↔ t.uri ∈ s.tables.map (·.uri) := by
  unfold add?
  rw [← knowsDocument_iff]
  split
  · rename_i h
    exact ⟨fun _ => h, fun _ => rfl⟩
  · rename_i h
    exact ⟨nofun, fun h' => absurd h' h⟩

/-- A successful addition. -/
theorem add_eq_some {s s' : SymbolPool} {t : SymbolTable} (hs : s.add? t = some s') :
    t.uri ∉ s.tables.map (·.uri) ∧ s' = { s with
      tables := s.tables ++ [t]
      catalog := (t.listed s.listMembers).foldl (fun c (id, symbol) => c.add id symbol) s.catalog
      symbolCount := s.symbolCount + t.symbolCount } := by
  constructor
  · intro hmem
    rw [(add_eq_none_iff s t).2 hmem] at hs
    cases hs
  · unfold add? at hs
    split at hs
    · cases hs
    · exact (Option.some.inj hs).symm

theorem Consistent.add {s s' : SymbolPool} {t : SymbolTable} (h : s.Consistent) (hs : s.add? t = some s') :
    s'.Consistent := by
  obtain ⟨hnew, rfl⟩ := add_eq_some hs
  obtain ⟨entries, hl, he⟩ := h.catalog
  obtain ⟨new, hmap, hl'⟩ := hl.addAll (t.listed s.listMembers)
  refine ⟨?_, ?_, entries ++ new, hl', ?_⟩
  · rw [List.map_append]
    refine List.nodup_append.2 ⟨h.uris, List.nodup_singleton _, ?_⟩
    intro a ha b hb hab
    rw [hab, List.mem_singleton.1 hb] at ha
    exact hnew ha
  · show s.symbolCount + t.symbolCount = _
    rw [List.map_append, List.sum_append, h.count]
    rfl
  · rw [List.map_append, he, hmap, List.flatMap_append, List.flatMap_singleton]

/-! ### Removing -/

/-- Taking out the symbols of a table leaves those of the other tables. -/
private theorem filter_listed {members : Bool} {tables : List SymbolTable} (h : (tables.map (·.uri)).Nodup)
    {t : SymbolTable} (ht : t ∈ tables) :
    (tables.flatMap (·.listed members)).filter (fun x => !(t.listed members).any (·.1 == x.1)) =
      (tables.filter (·.uri != t.uri)).flatMap (·.listed members) := by
  rw [List.filter_flatMap]
  -- uris tell tables apart, so an identity of `t` is found in no other table
  refine Keyed.flatMap_filter fun u hu => ?_
  by_cases huri : u.uri = t.uri
  · obtain rfl := table_of_uri h ht hu huri
    rw [if_neg (by simp), List.filter_eq_nil_iff]
    intro x hx hno
    rw [Bool.not_eq_true', List.any_eq_false] at hno
    exact hno x hx (beq_self_eq_true x.1)
  · rw [if_pos (bne_iff_ne.2 huri), List.filter_eq_self]
    intro x hx
    rw [Bool.not_eq_true', List.any_eq_false]
    intro y hy he
    have he : y.1 = x.1 := beq_iff_eq.1 he
    exact huri (by rw [← uri_of_listed hx, ← uri_of_listed hy, he])

private theorem sum_filter_uri {tables : List SymbolTable} (h : (tables.map (·.uri)).Nodup) {t : SymbolTable}
    (ht : t ∈ tables) : (tables.map (·.symbolCount)).sum =
      ((tables.filter (·.uri != t.uri)).map (·.symbolCount)).sum + t.symbolCount := by
  induction tables with
  | nil => exact nomatch ht
  | cons u tables ih =>
    rw [List.map_cons, List.nodup_cons] at h
    rw [List.map_cons, List.sum_cons, List.filter_cons]
    rcases List.mem_cons.1 ht with rfl | ht
    · have hall : tables.filter (·.uri != t.uri) = tables := by
        rw [List.filter_eq_self]
        intro u hu
        exact bne_iff_ne.2 fun he => h.1 (he ▸ List.mem_map_of_mem hu)
      rw [if_neg (by simp), hall, Nat.add_comm]
    · have hne : u.uri ≠ t.uri := fun he => h.1 (he ▸ List.mem_map_of_mem ht)
      rw [if_pos (bne_iff_ne.2 hne), ih h.2 ht, List.map_cons, List.sum_cons, Nat.add_assoc]

/-- Removing a table that is there. -/
private theorem remove_eq {s : SymbolPool} (h : (s.tables.map (·.uri)).Nodup) {t : SymbolTable} (ht : t ∈ s.tables) :
    s.remove t.uri = { s with
      tables := s.tables.filter (·.uri != t.uri)
      catalog := (t.listed s.listMembers).foldl (fun c (id, symbol) => c.remove id symbol) s.catalog
      symbolCount := s.symbolCount - t.symbolCount } := by
  have hfind : s.table? t.uri = some t := Keyed.find?_eq_some h ht
  unfold remove
  rw [hfind]

/-- A uri that is not there. -/
private theorem remove_of_not_mem {s : SymbolPool} {uri : String} (h : uri ∉ s.tables.map (·.uri)) :
    s.remove uri = s ∧ s.tables.filter (·.uri != uri) = s.tables := by
  have hne : ∀ t ∈ s.tables, t.uri ≠ uri := fun t ht he => h (he ▸ List.mem_map_of_mem ht)
  constructor
  · have hfind : s.table? uri = none := Keyed.find?_eq_none.2 hne
    unfold remove
    rw [hfind]
  · rw [List.filter_eq_self]
    intro t ht
    exact bne_iff_ne.2 (hne t ht)

theorem tables_remove (s : SymbolPool) (uri : String) : (s.remove uri).tables = s.tables.filter (·.uri != uri) := by
  unfold remove
  split
  · rename_i hnone
    refine (List.filter_eq_self.2 fun t ht => ?_).symm
    simpa using Keyed.find?_eq_none.1 hnone t ht
  · rfl

/-- What the catalog stands for after a table has been taken out. -/
private theorem removed_catalog {s : SymbolPool} (h : (s.tables.map (·.uri)).Nodup) {t : SymbolTable}
    (ht : t ∈ s.tables) {entries : List (CatalogEntry SymbolId)} (hl : s.catalog.Lists entries)
    (he : entries.map (fun e => (e.id, e.symbol)) = s.tables.flatMap (·.listed s.listMembers)) :
    ((t.listed s.listMembers).foldl (fun c (id, symbol) => c.remove id symbol) s.catalog).Lists
        (entries.filter fun e => !(t.listed s.listMembers).any (·.1 == e.id)) ∧
      (entries.filter fun e => !(t.listed s.listMembers).any (·.1 == e.id)).map (fun e => (e.id, e.symbol)) =
        (s.tables.filter (·.uri != t.uri)).flatMap (·.listed s.listMembers) := by
  constructor
  · refine hl.removeAll fun x hx e hmem hid => ?_
    have hy : (e.id, e.symbol) ∈ s.tables.flatMap (·.listed s.listMembers) := by
      rw [← he]
      exact List.mem_map_of_mem hmem
    exact symbol_of_id h ht hx hy hid
  · rw [← filter_listed h ht, ← he, List.filter_map]
    rfl

theorem Consistent.remove {s : SymbolPool} (h : s.Consistent) (uri : String) : (s.remove uri).Consistent := by
  by_cases hmem : uri ∈ s.tables.map (·.uri)
  · obtain ⟨t, ht, rfl⟩ := List.mem_map.1 hmem
    obtain ⟨entries, hl, he⟩ := h.catalog
    obtain ⟨hl', he'⟩ := removed_catalog h.uris ht hl he
    rw [remove_eq h.uris ht]
    refine ⟨?_, ?_, _, hl', he'⟩
    · exact h.uris.sublist (List.filter_sublist.map _)
    · show s.symbolCount - t.symbolCount = _
      rw [h.count, sum_filter_uri h.uris ht, Nat.add_sub_cancel]
  · rw [(remove_of_not_mem hmem).1]
    exact h

private theorem foldl_add_fuzzyMin (added : List (SymbolId × Symbol)) (c : Catalog SymbolId) :
    (added.foldl (fun c (id, symbol) => c.add id symbol) c).fuzzyMin = c.fuzzyMin := by
  induction added generalizing c with
  | nil => rfl
  | cons a added ih => exact ih _

private theorem foldl_remove_settings (removed : List (SymbolId × Symbol)) (c : Catalog SymbolId) :
    (removed.foldl (fun c (id, symbol) => c.remove id symbol) c).fuzzyMin = c.fuzzyMin ∧
      (removed.foldl (fun c (id, symbol) => c.remove id symbol) c).next = c.next := by
  induction removed generalizing c with
  | nil => exact ⟨rfl, rfl⟩
  | cons a removed ih => exact ih _

/-- Among the entries of the tables and those of a new one, the identities of the new table tell the latter. -/
private theorem filter_added {members : Bool} {tables : List SymbolTable} {t : SymbolTable}
    (hnew : t.uri ∉ tables.map (·.uri)) {entries new : List (CatalogEntry SymbolId)}
    (he : entries.map (fun e => (e.id, e.symbol)) = tables.flatMap (·.listed members))
    (hmap : new.map (fun e => (e.id, e.symbol)) = t.listed members) :
    (entries ++ new).filter (fun e => !(t.listed members).any (·.1 == e.id)) = entries := by
  have hold : ∀ e ∈ entries, (t.listed members).any (·.1 == e.id) = false := by
    intro e hmem
    have hy : (e.id, e.symbol) ∈ tables.flatMap (·.listed members) := by
      rw [← he]
      exact List.mem_map_of_mem hmem
    obtain ⟨u, hu, hy⟩ := List.mem_flatMap.1 hy
    rw [List.any_eq_false]
    intro x hx hid
    have hid : x.1 = e.id := beq_iff_eq.1 hid
    have huri : u.uri = t.uri := by rw [← uri_of_listed hx, ← uri_of_listed hy, hid]
    exact hnew (huri ▸ List.mem_map_of_mem hu)
  have hmine : ∀ e ∈ new, (t.listed members).any (·.1 == e.id) = true := by
    intro e hmem
    rw [List.any_eq_true, ← hmap]
    exact ⟨_, List.mem_map_of_mem hmem, beq_self_eq_true _⟩
  rw [List.filter_append, List.filter_eq_self.2 fun e hmem => by rw [hold e hmem]; rfl,
    List.filter_eq_nil_iff.2 fun e hmem => by rw [hmine e hmem]; exact Bool.false_ne_true, List.append_nil]

/-- Taking out the symbols of a table that has just been added leaves the catalog, up to the next number. -/
private theorem catalog_restored {s s' : SymbolPool} (h : s.Consistent) {t : SymbolTable} (hs : s.add? t = some s') :
    (t.listed s'.listMembers).foldl (fun c (id, symbol) => c.remove id symbol) s'.catalog =
      { s.catalog with next := s'.catalog.next } := by
  have huris := (h.add hs).uris
  obtain ⟨hnew, rfl⟩ := add_eq_some hs
  obtain ⟨entries, hl, he⟩ := h.catalog
  obtain ⟨new, hmap, hl'⟩ := hl.addAll (t.listed s.listMembers)
  have hall : (entries ++ new).map (fun e => (e.id, e.symbol)) =
      (s.tables ++ [t]).flatMap (·.listed s.listMembers) := by
    rw [List.map_append, he, hmap, List.flatMap_append, List.flatMap_singleton]
  obtain ⟨hback, -⟩ := removed_catalog huris (List.mem_append_right _ (List.mem_singleton_self t)) hl' hall
  simp only at hback ⊢
  rw [filter_added hnew he hmap] at hback
  obtain ⟨hf, hn⟩ := foldl_remove_settings (t.listed s.listMembers)
    ((t.listed s.listMembers).foldl (fun c (id, symbol) => c.add id symbol) s.catalog)
  rw [foldl_add_fuzzyMin] at hf
  -- the names are told by the entries alone, so the catalogs can differ in the next number only
  have hnames := hl.names_eq hback
  revert hnames hf hn
  generalize (t.listed s.listMembers).foldl (fun c (id, symbol) => c.remove id symbol)
    ((t.listed s.listMembers).foldl (fun c (id, symbol) => c.add id symbol) s.catalog) = c
  intro hf hn hnames
  cases c
  cases hf
  cases hn
  cases hnames
  rfl

/-- Adding a table and removing it again gives the same pool, up to the number of the next addition. -/
private theorem remove_of_add {s s' : SymbolPool} (h : s.Consistent) {t : SymbolTable} (hs : s.add? t = some s') :
    s'.remove t.uri = { s with catalog := { s.catalog with next := s'.catalog.next } } := by
  have huris := (h.add hs).uris
  have hcatalog := catalog_restored h hs
  obtain ⟨hnew, rfl⟩ := add_eq_some hs
  have ht : t ∈ s.tables ++ [t] := List.mem_append_right _ (List.mem_singleton_self t)
  have hfilter : (s.tables ++ [t]).filter (·.uri != t.uri) = s.tables := by
    rw [List.filter_append, (remove_of_not_mem hnew).2, List.filter_eq_nil_iff.2 fun u hu => ?_, List.append_nil]
    rw [List.mem_singleton.1 hu]
    simp
  rw [remove_eq huris ht]
  simp only at hcatalog ⊢
  rw [hfilter, hcatalog, Nat.add_sub_cancel]

/-! ### Runs -/

theorem step_consistent {s : SymbolPool} (h : s.Consistent) (step : PoolStep) :
    (s.step step).Consistent ∧ (s.step step).tables = presentAfter s.tables step ∧
      (s.step step).listMembers = s.listMembers := by
  cases step with
  | add t =>
    rw [SymbolPool.step, presentAfter]
    cases hs : s.add? t with
    | none =>
      rw [if_pos ((add_eq_none_iff s t).1 hs)]
      exact ⟨h, rfl, rfl⟩
    | some s' =>
      have hc := h.add hs
      obtain ⟨hnew, rfl⟩ := add_eq_some hs
      rw [if_neg hnew]
      exact ⟨hc, rfl, rfl⟩
  | remove uri =>
    rw [SymbolPool.step, presentAfter]
    refine ⟨h.remove uri, ?_⟩
    by_cases hmem : uri ∈ s.tables.map (·.uri)
    · obtain ⟨t, ht, rfl⟩ := List.mem_map.1 hmem
      rw [remove_eq h.uris ht]
      exact ⟨rfl, rfl⟩
    · obtain ⟨hr, hf⟩ := remove_of_not_mem hmem
      rw [hr, hf]
      exact ⟨rfl, rfl⟩

theorem run_consistent (settings : Settings) (steps : List PoolStep) :
    (run settings steps).Consistent ∧ (run settings steps).tables = present steps ∧
      (run settings steps).listMembers = settings.listMembers := by
  unfold run present
  have hrun : ∀ (steps : List PoolStep) (s : SymbolPool), s.Consistent →
      (steps.foldl step s).Consistent ∧ (steps.foldl step s).tables = steps.foldl presentAfter s.tables ∧
        (steps.foldl step s).listMembers = s.listMembers := by
    intro steps
    induction steps with
    | nil => exact fun s h => ⟨h, rfl, rfl⟩
    | cons first steps ih =>
      intro s h
      obtain ⟨hc, ht, hm⟩ := step_consistent h first
      obtain ⟨hc', ht', hm'⟩ := ih _ hc
      rw [ht] at ht'
      exact ⟨hc', ht', hm'.trans hm⟩
  exact hrun steps (empty settings) (empty_consistent settings)

/-- Listed symbols have names, and so they have keys. -/
private theorem keys_of_listed {members : Bool} {tables : List SymbolTable} {x : SymbolId × Symbol}
    (h : x ∈ tables.flatMap (·.listed members)) : x.2.keys ≠ [] := by
  obtain ⟨t, -, hx⟩ := List.mem_flatMap.1 h
  have hmem : x.2 ∈ t.indexable members := by
    rw [← t.listed_symbols]
    exact List.mem_map_of_mem hx
  obtain ⟨o, ho, hsymbol⟩ := List.mem_map.1 hmem
  have hi := of_decide_eq_true (List.mem_filter.1 ho).2
  rw [← hsymbol]
  exact Symbol.keys_ne_nil hi.1

private theorem ids_nodup (members : Bool) {tables : List SymbolTable} (h : (tables.map (·.uri)).Nodup) :
    ((tables.flatMap (·.listed members)).map (·.1)).Nodup := by
  rw [List.map_flatMap, List.nodup_flatMap]
  refine ⟨fun t _ => listed_ids_nodup members t, ?_⟩
  refine (List.pairwise_map.1 h).imp fun {t u} hne id ht hu => ?_
  obtain ⟨x, hx, rfl⟩ := List.mem_map.1 ht
  obtain ⟨y, hy, hid⟩ := List.mem_map.1 hu
  exact hne (by rw [← uri_of_listed hx, ← uri_of_listed hy, hid])

/-- The catalog of a consistent pool, read off. -/
theorem Consistent.live {s : SymbolPool} (h : s.Consistent) :
    s.catalog.live.map (fun e => (e.id, e.symbol)) = s.tables.flatMap (·.listed s.listMembers) := by
  obtain ⟨entries, hl, he⟩ := h.catalog
  have hkeys : ∀ e ∈ entries, e.symbol.keys ≠ [] := by
    intro e hmem
    have hx : (e.id, e.symbol) ∈ s.tables.flatMap (·.listed s.listMembers) := by
      rw [← he]
      exact List.mem_map_of_mem hmem
    exact keys_of_listed hx
  rw [hl.live_eq hkeys, he]

/-- After any sequence of changes: an addition fails just when the uri is present, and then changes nothing; the count
is that of the tables present; the catalog has their indexable symbols, each once, in the order of the tables and then
in pre-order; and removing a table right after adding it restores the pool. -/
theorem run_spec (settings : Settings) (steps : List PoolStep) :
    (run settings steps).tables = present steps ∧
    (∀ t, ((run settings steps).add? t = none ↔ t.uri ∈ (present steps).map (·.uri)) ∧
      (t.uri ∈ (present steps).map (·.uri) → run settings (steps ++ [.add t]) = run settings steps)) ∧
    (run settings steps).symbolCount = ((present steps).map (·.symbolCount)).sum ∧
    (run settings steps).catalog.live.map (·.symbol) =
      (present steps).flatMap (·.indexable settings.listMembers) ∧
    ((run settings steps).catalog.live.map (·.id)).Nodup ∧
    ∀ t, t.uri ∉ (present steps).map (·.uri) → ∃ s', (run settings steps).add? t = some s' ∧
      s'.remove t.uri = { run settings steps with
        catalog := { (run settings steps).catalog with next := s'.catalog.next } } := by
  obtain ⟨hc, ht, hm⟩ := run_consistent settings steps
  have hlive := hc.live
  have hnone := add_eq_none_iff (run settings steps)
  rw [ht, hm] at hlive
  rw [ht] at hnone
  refine ⟨ht, fun t => ⟨hnone t, fun hmem => ?_⟩, by rw [hc.count, ht], ?_, ?_, fun t hnew => ?_⟩
  · have hadd := (hnone t).2 hmem
    unfold run at hadd ⊢
    rw [List.foldl_append, List.foldl_cons, List.foldl_nil, step, hadd]
    rfl
  · have hsymbols := congrArg (List.map Prod.snd) hlive
    rw [List.map_map, List.map_flatMap] at hsymbols
    simp only [SymbolTable.listed_symbols] at hsymbols
    exact hsymbols
  · have hids := congrArg (List.map Prod.fst) hlive
    rw [List.map_map] at hids
    have huris := hc.uris
    rw [ht] at huris
    have hnodup := ids_nodup settings.listMembers huris
    rw [← hids] at hnodup
    exact hnodup
  · cases hadd : (run settings steps).add? t with
    | none => exact absurd ((hnone t).1 hadd) hnew
    | some s' => exact ⟨s', rfl, remove_of_add hc hadd⟩

end SymbolPool

end CodeAtlas
