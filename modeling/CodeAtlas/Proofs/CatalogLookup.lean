import CodeAtlas.Pool.Lookup
import CodeAtlas.Proofs.LowerCase
import CodeAtlas.Proofs.PoolHistory

/-!
# Looking up names

All keys are in lower case (`isLower_of_mem_keys`), so a catalog has an entry under a key just when the key is one of
its symbol, and then once (`itemsAt_eq_filter`).  Looking up a name therefore finds all symbols of that name, by the
case rules of their kinds, without going through the others (`find_eq_filter`); and what a pool answers can be read off
its tables, one after the other (`findAll_eq_flatMap`).
-/

namespace CodeAtlas

/-! ### Keys are in lower case -/

namespace Text

/-- A text made of characters of another one. -/
theorem IsLower.of_subset {s : String} (h : IsLower s) {cs : List Char} (hcs : cs ⊆ s.toList) :
    IsLower (String.ofList cs) := by
  intro c hc
  rw [String.toList_ofList] at hc
  exact h c (hcs hc)

theorem IsLower.lastSegment {s : String} (h : IsLower s) : IsLower (lastSegment s) := by
  refine h.of_subset fun c hc => ?_
  exact List.mem_reverse.1 ((List.takeWhile_sublist _).subset (List.mem_reverse.1 hc))

private theorem splitChars_subset (sep : Char) (cs : List Char) : ∀ piece ∈ splitChars sep cs, piece ⊆ cs := by
  induction cs with
  | nil =>
    intro piece hpiece
    rw [splitChars, List.mem_singleton] at hpiece
    rw [hpiece]
    exact List.nil_subset _
  | cons c cs ih =>
    intro piece hpiece
    rw [splitChars] at hpiece
    split at hpiece
    · rcases List.mem_cons.1 hpiece with rfl | hpiece
      · exact List.nil_subset _
      · exact List.subset_cons_of_subset c (ih piece hpiece)
    · cases hs : splitChars sep cs with
      | nil =>
        rw [hs, consFirst, List.mem_singleton] at hpiece
        rw [hpiece]
        exact List.cons_subset_cons c (List.nil_subset cs)
      | cons first pieces =>
        rw [hs] at ih
        rw [hs, consFirst] at hpiece
        rcases List.mem_cons.1 hpiece with rfl | hpiece
        · exact List.cons_subset_cons c (ih first List.mem_cons_self)
        · exact List.subset_cons_of_subset c (ih piece (List.mem_cons_of_mem first hpiece))

end Text

private theorem windows_subset : ∀ (cs : List Char), ∀ w ∈ windows cs, w ⊆ cs
  | a :: b :: c :: rest => by
    intro w hw
    rw [windows] at hw
    rcases List.mem_cons.1 hw with rfl | hw
    · intro x hx
      simp only [List.mem_cons, List.not_mem_nil, or_false] at hx ⊢
      tauto
    · exact List.subset_cons_of_subset a (windows_subset _ w hw)
  | [] => nofun
  | [_] => nofun
  | [_, _] => nofun

private theorem initials_fixed (previous : Option Char) (cs : List Char) :
    ∀ c ∈ initials previous cs, Text.lowerChar c = [c] := by
  induction cs generalizing previous with
  | nil => exact nofun
  | cons a cs ih =>
    intro c hc
    rw [initials] at hc
    rcases List.mem_append.1 hc with hc | hc
    · split at hc
      · exact Text.lowerChar_fixed hc
      · exact nomatch hc
    · exact ih _ c hc

private theorem isLower_abbreviation {name k : String} (h : abbreviation? name = some k) : Text.IsLower k := by
  unfold abbreviation? at h
  simp only at h
  split at h
  · obtain rfl := Option.some.inj h
    intro c hc
    rw [String.toList_ofList] at hc
    exact initials_fixed _ _ c hc
  · cases h

namespace Symbol

theorem isLower_of_mem_keys {s : Symbol} {k : String} (h : k ∈ s.keys) : Text.IsLower k := by
  have hname := Text.isLower_lower s.name
  obtain ⟨-, h⟩ := mem_keys.1 h
  split at h
  · rcases h with rfl | h
    · exact hname
    · obtain ⟨piece, hpiece, rfl⟩ := List.mem_map.1 h
      exact hname.of_subset (Text.splitChars_subset _ _ piece hpiece)
  · rcases h with h | ⟨h, -⟩ | rfl | rfl
    · obtain ⟨w, hw, rfl⟩ := List.mem_map.1 h
      exact hname.lastSegment.of_subset (windows_subset _ w hw)
    · exact isLower_abbreviation h
    · exact hname.lastSegment
    · exact hname

theorem ne_empty_of_mem_keys {s : Symbol} {k : String} (h : k ∈ s.keys) : k ≠ "" :=
  (mem_keys.1 h).1

end Symbol

/-! ### Catalogs -/

section

variable {ι : Type}

theorem CatalogEntry.under_eq (k : String) (e : CatalogEntry ι) :
    e.under k = if k ∈ e.symbol.keys then [e] else [] := by
  have hnodup : e.symbol.keys.Nodup := Keyed.nodup_eraseDups _
  have hkeys : (e.symbol.keys.filter fun key => Text.lower key == k) = e.symbol.keys.filter (· == k) :=
    List.filter_congr fun key hkey => by rw [(Symbol.isLower_of_mem_keys hkey).lower_eq]
  unfold under
  rw [hkeys, List.filter_beq, hnodup.count]
  split <;> rfl

namespace Catalog.Lists

variable {ix : Catalog ι} {entries : List (CatalogEntry ι)}

/-- Under a key are the entries whose symbols have it, each once. -/
theorem itemsAt_eq_filter (h : ix.Lists entries) (k : String) :
    NameMap.itemsAt k ix.names.nodes = entries.filter fun e => decide (k ∈ e.symbol.keys) := by
  rw [h.items, Keyed.flatMap_filter (f := fun e => [e]) fun e _ => ?_, List.flatMap_singleton']
  rw [CatalogEntry.under_eq]
  simp

/-- Looking up a text finds the symbols that have it as their name, by the case rules of their kinds. -/
theorem find_eq_filter (h : ix.Lists entries) (text : String) : ix.find text =
    (entries.filter fun e => decide (e.symbol.name ≠ "") && e.symbol.kind.sameNames e.symbol.name text).map
      (·.symbol) := by
  unfold find
  rw [NameMap.find_eq_itemsAt h.wellFormed, h.itemsAt_eq_filter, List.filter_filter]
  congr 1
  apply List.filter_congr
  intro e _
  -- a symbol of that name has the key that is looked up, unless the name is empty
  by_cases hs : e.symbol.kind.sameNames e.symbol.name text = true
  · have hlower := Text.lower_of_sameNames hs
    have hkey : Text.lower text ∈ e.symbol.keys ↔ e.symbol.name ≠ "" := by
      rw [← hlower]
      constructor
      · intro hk hempty
        rw [hempty] at hk
        exact Symbol.ne_empty_of_mem_keys hk rfl
      · exact Symbol.lower_name_mem_keys
    simp [hs, hkey]
  · simp [hs]

end Catalog.Lists

end

/-! ### Pools -/

namespace SymbolPool

variable {s s' : SymbolPool}

/-- Indexable symbols have names. -/
theorem name_of_indexable {members : Bool} {t : SymbolTable} {x : Symbol} (h : x ∈ t.indexable members) :
    x.name ≠ "" := by
  obtain ⟨o, ho, rfl⟩ := List.mem_map.1 h
  exact (of_decide_eq_true (List.mem_filter.1 ho).2).1

/-- The entries of a consistent pool, as symbols. -/
theorem Consistent.symbols (h : s.Consistent) : ∃ entries, s.catalog.Lists entries ∧
    entries.map (·.symbol) = s.tables.flatMap (·.indexable s.listMembers) := by
  obtain ⟨entries, hl, he⟩ := h.catalog
  refine ⟨entries, hl, ?_⟩
  have hsymbols := congrArg (List.map Prod.snd) he
  rw [List.map_map, List.map_flatMap] at hsymbols
  simp only [SymbolTable.listed_symbols] at hsymbols
  exact hsymbols

/-- Whatever is asked about a name, the tables are gone through one after the other. -/
theorem Consistent.findAll_eq_flatMap (h : s.Consistent) (name : String) (p : Symbol → Bool) :
    s.findAll name p = s.tables.flatMap fun t =>
      (t.indexable s.listMembers).filter fun x => x.kind.sameNames x.name name && p x := by
  obtain ⟨entries, hl, he⟩ := h.symbols
  unfold findAll
  rw [hl.find_eq_filter, ← List.filter_flatMap, ← he, List.filter_map, List.filter_map, List.filter_filter]
  congr 1
  apply List.filter_congr
  intro e hmem
  have hx : e.symbol ∈ s.tables.flatMap (·.indexable s.listMembers) := by
    rw [← he]
    exact List.mem_map_of_mem hmem
  obtain ⟨t, -, ht⟩ := List.mem_flatMap.1 hx
  have hname := name_of_indexable ht
  simp [hname, Bool.and_comm]

end SymbolPool

end CodeAtlas
