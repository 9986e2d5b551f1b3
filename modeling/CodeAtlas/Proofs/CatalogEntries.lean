import CodeAtlas.Index.Catalog
import CodeAtlas.Proofs.Keyed
import CodeAtlas.Proofs.NameMap

/-!
# The entries of a catalog

A catalog stands for a list of entries in the order of their addition (`Catalog.Lists`): under each key it has those
entries whose symbols have the key, in that order.  Adding a symbol puts an entry at the end of the list, and removing
one takes its entries out of the middle.  The list can be read off the catalog again (`Catalog.live`), as long as every
symbol has a key, which is so when it has a name (`Symbol.keys_ne_nil`).
-/

namespace CodeAtlas

/-! ### Keys -/

theorem Text.lowerChar_ne_nil (c : Char) : Text.lowerChar c ≠ [] := by
  unfold Text.lowerChar
  split
  · exact List.cons_ne_nil _ _
  · split
    · exact List.cons_ne_nil _ _
    · split <;> exact List.cons_ne_nil _ _

/-- The lower case of a text with characters has characters. -/
theorem Text.lower_ne_empty {s : String} (h : s ≠ "") : Text.lower s ≠ "" := by
  intro he
  have hnil : Text.lowerAfter [] s.toList = [] := by
    have := congrArg String.toList he
    unfold Text.lower at this
    rwa [String.toList_ofList] at this
  cases hs : s.toList with
  | nil => exact h (String.toList_eq_nil_iff.1 hs)
  | cons c cs =>
    rw [hs, Text.lowerAfter] at hnil
    have hfirst := (List.append_eq_nil_iff.1 hnil).1
    split at hfirst
    · exact List.cons_ne_nil _ _ hfirst
    · exact Text.lowerChar_ne_nil c hfirst

/-- The keys of a symbol, without their order. -/
theorem Symbol.mem_keys {s : Symbol} {k : String} : k ∈ s.keys ↔ k ≠ "" ∧
    if s.kind = .space then k = Text.lower s.name ∨ k ∈ Text.split '\\' (Text.lower s.name)
    else k ∈ triples (Text.lastSegment (Text.lower s.name)) ∨
      (abbreviation? s.name = some k ∧ k ≠ Text.lastSegment (Text.lower s.name)) ∨
      k = Text.lastSegment (Text.lower s.name) ∨ k = Text.lower s.name := by
  unfold keys
  simp only
  rw [List.mem_eraseDups, List.mem_mergeSort, List.mem_filter, and_comm]
  have hempty : (!k.isEmpty) = true ↔ k ≠ "" := by simp
  rw [hempty]
  by_cases hspace : s.kind = .space
  · rw [if_pos (beq_iff_eq.2 hspace), if_pos hspace, List.mem_cons]
  · rw [if_neg (by simpa using hspace), if_neg hspace]
    simp [Option.filter_eq_some_iff]

/-- The lower case of the name of a symbol is one of its keys. -/
theorem Symbol.lower_name_mem_keys {s : Symbol} (h : s.name ≠ "") : Text.lower s.name ∈ s.keys := by
  rw [mem_keys]
  refine ⟨Text.lower_ne_empty h, ?_⟩
  split
  · exact Or.inl rfl
  · exact Or.inr (Or.inr (Or.inr rfl))

theorem Symbol.keys_ne_nil {s : Symbol} (h : s.name ≠ "") : s.keys ≠ [] :=
  List.ne_nil_of_mem (lower_name_mem_keys h)

variable {ι : Type}

/-- The copies of an entry under a key in lower case. -/
def CatalogEntry.under (k : String) (e : CatalogEntry ι) : List (CatalogEntry ι) :=
  (e.symbol.keys.filter fun key => Text.lower key == k).map fun _ => e

theorem CatalogEntry.mem_under {k : String} {e e' : CatalogEntry ι} :
    e' ∈ e.under k ↔ e' = e ∧ ∃ key ∈ e.symbol.keys, Text.lower key = k := by
  unfold under
  rw [List.mem_map]
  constructor
  · rintro ⟨key, hkey, rfl⟩
    rw [List.mem_filter, beq_iff_eq] at hkey
    exact ⟨rfl, key, hkey⟩
  · rintro ⟨rfl, key, hkey, hk⟩
    exact ⟨key, List.mem_filter.2 ⟨hkey, beq_iff_eq.2 hk⟩, rfl⟩

/-! ### A catalog as a list -/

namespace Catalog

/-- The catalog stands for these entries. -/
structure Lists (ix : Catalog ι) (entries : List (CatalogEntry ι)) : Prop where
  wellFormed : NameMap.WellFormed ix.names.nodes
  items : ∀ k, NameMap.itemsAt k ix.names.nodes = entries.flatMap (·.under k)
  ordered : entries.Pairwise fun a b => a.sequence < b.sequence
  numbered : ∀ e ∈ entries, e.sequence < ix.next

theorem empty_lists (fuzzyMin : Nat) : (empty fuzzyMin : Catalog ι).Lists [] :=
  ⟨NameMap.WellFormed.nil, fun _ => rfl, .nil, nofun⟩

theorem Lists.sequence_nodup {ix : Catalog ι} {entries : List (CatalogEntry ι)} (h : ix.Lists entries) :
    (entries.map (·.sequence)).Nodup :=
  List.Pairwise.map _ (fun _ _ hlt => Nat.ne_of_lt hlt) h.ordered

/-- Entries that are listed have different numbers. -/
theorem Lists.sequence_inj {ix : Catalog ι} {entries : List (CatalogEntry ι)} (h : ix.Lists entries)
    {a b : CatalogEntry ι} (ha : a ∈ entries) (hb : b ∈ entries) (hs : a.sequence = b.sequence) : a = b :=
  List.inj_on_of_nodup_map h.sequence_nodup ha hb hs

theorem Lists.add {ix : Catalog ι} {entries : List (CatalogEntry ι)} (h : ix.Lists entries) (id : ι) (s : Symbol) :
    (ix.add id s).Lists (entries ++ [⟨ix.next, id, s⟩]) := by
  obtain ⟨hw, hi⟩ := NameMap.addAll_spec ⟨ix.next, id, s⟩ s.keys h.wellFormed
  refine ⟨hw, fun k => ?_, ?_, ?_⟩
  · rw [List.flatMap_append, ← h.items, List.flatMap_singleton]
    exact hi k
  · refine List.pairwise_append.2 ⟨h.ordered, List.pairwise_singleton _ _, ?_⟩
    intro a ha b hb
    rw [List.mem_singleton.1 hb]
    exact h.numbered a ha
  · intro e he
    rcases List.mem_append.1 he with he | he
    · exact Nat.lt_succ_of_lt (h.numbered e he)
    · rw [List.mem_singleton.1 he]
      exact Nat.lt_succ_self ix.next

private theorem filter_under [BEq ι] (id : ι) (k : String) (entries : List (CatalogEntry ι)) :
    (entries.flatMap (·.under k)).filter (!·.id == id) = (entries.filter (!·.id == id)).flatMap (·.under k) := by
  induction entries with
  | nil => rfl
  | cons e entries ih =>
    rw [List.flatMap_cons, List.filter_append, ih]
    cases he : e.id == id with
    | true =>
      rw [List.filter_cons_of_neg (by simp [he])]
      have hnil : (e.under k).filter (!·.id == id) = [] := by
        rw [List.filter_eq_nil_iff]
        intro e' he'
        rw [(CatalogEntry.mem_under.1 he').1, he]
        exact Bool.false_ne_true
      rw [hnil, List.nil_append]
    | false =>
      rw [List.filter_cons_of_pos (by simp [he]), List.flatMap_cons]
      have hall : (e.under k).filter (!·.id == id) = e.under k := by
        rw [List.filter_eq_self]
        intro e' he'
        rw [(CatalogEntry.mem_under.1 he').1, he]
        rfl
      rw [hall]

/-- Removing takes out all entries with the identity, if these are entries of the same symbol. -/
theorem Lists.remove [BEq ι] [LawfulBEq ι] {ix : Catalog ι} {entries : List (CatalogEntry ι)} (h : ix.Lists entries)
    {id : ι} {s : Symbol} (hs : ∀ e ∈ entries, e.id = id → e.symbol = s) :
    (ix.remove id s).Lists (entries.filter (!·.id == id)) := by
  obtain ⟨hw, hi⟩ := NameMap.removeAll_spec (fun e : CatalogEntry ι => e.id == id) s.keys h.wellFormed
  refine ⟨hw, fun k => ?_, h.ordered.filter _, fun e he => h.numbered e (List.mem_of_mem_filter he)⟩
  rw [← filter_under]
  refine (hi k).trans ?_
  rw [h.items]
  split
  · rfl
  · rename_i hk
    -- no entry of the symbol is under this key
    refine (List.filter_eq_self.2 fun e he => ?_).symm
    obtain ⟨e₀, he₀, hmem⟩ := List.mem_flatMap.1 he
    obtain ⟨rfl, hkey⟩ := CatalogEntry.mem_under.1 hmem
    rw [Bool.not_eq_true', beq_eq_false_iff_ne]
    intro hid
    rw [hs e he₀ hid] at hkey
    exact hk hkey

/-- Adding symbols one after the other. -/
theorem Lists.addAll {ix : Catalog ι} {entries : List (CatalogEntry ι)} (h : ix.Lists entries)
    (added : List (ι × Symbol)) : ∃ new, new.map (fun e => (e.id, e.symbol)) = added ∧
      (added.foldl (fun c (id, symbol) => c.add id symbol) ix).Lists (entries ++ new) := by
  induction added generalizing ix entries with
  | nil => exact ⟨[], rfl, by rw [List.append_nil]; exact h⟩
  | cons a added ih =>
    obtain ⟨id, s⟩ := a
    obtain ⟨new, hnew, hl⟩ := ih (h.add id s)
    refine ⟨⟨ix.next, id, s⟩ :: new, by rw [List.map_cons, hnew], ?_⟩
    rw [List.append_assoc] at hl
    exact hl

/-- Removing symbols one after the other. -/
theorem Lists.removeAll [BEq ι] [LawfulBEq ι] {ix : Catalog ι} {entries : List (CatalogEntry ι)}
    (h : ix.Lists entries) {removed : List (ι × Symbol)}
    (hs : ∀ x ∈ removed, ∀ e ∈ entries, e.id = x.1 → e.symbol = x.2) :
    (removed.foldl (fun c (id, symbol) => c.remove id symbol) ix).Lists
      (entries.filter fun e => !removed.any (·.1 == e.id)) := by
  induction removed generalizing ix entries with
  | nil =>
    have hall : (entries.filter fun e => !([] : List (ι × Symbol)).any (·.1 == e.id)) = entries :=
      List.filter_eq_self.2 fun _ _ => rfl
    rw [hall]
    exact h
  | cons x removed ih =>
    have hfirst := h.remove (hs x List.mem_cons_self)
    have hrest := ih hfirst fun y hy e he => hs y (List.mem_cons_of_mem x hy) e (List.mem_of_mem_filter he)
    rw [List.filter_filter] at hrest
    have hp : (fun e : CatalogEntry ι => !(x :: removed).any (·.1 == e.id)) =
        fun e => (!removed.any (·.1 == e.id)) && !e.id == x.1 := by
      funext e
      rw [List.any_cons, Bool.not_or, Bool.and_comm, BEq.comm]
    rw [hp]
    exact hrest

/-- Catalogs that stand for the same entries have the same nodes. -/
theorem Lists.names_eq {ix ix' : Catalog ι} {entries : List (CatalogEntry ι)} (h : ix.Lists entries)
    (h' : ix'.Lists entries) : ix'.names = ix.names := by
  have hnodes : ix'.names.nodes = ix.names.nodes :=
    NameMap.ext_itemsAt h'.wellFormed h.wellFormed fun k => by rw [h'.items, h.items]
  cases hn : ix.names
  cases hn' : ix'.names
  rw [hn, hn'] at hnodes
  exact congrArg NameMap.mk hnodes

/-! ### Reading off the list -/

/-- The entries that are under some key, each once, in the order of their addition. -/
def live (ix : Catalog ι) : List (CatalogEntry ι) :=
  ((ix.names.nodes.flatMap (·.items)).eraseDupsBy fun a b => a.sequence == b.sequence).mergeSort
    fun a b => decide (a.sequence ≤ b.sequence)

/-- What is under some key is what the catalog stands for. -/
theorem Lists.mem_items {ix : Catalog ι} {entries : List (CatalogEntry ι)} (h : ix.Lists entries)
    (hk : ∀ e ∈ entries, e.symbol.keys ≠ []) (e : CatalogEntry ι) :
    e ∈ ix.names.nodes.flatMap (·.items) ↔ e ∈ entries := by
  rw [List.mem_flatMap]
  constructor
  · rintro ⟨node, hnode, he⟩
    have hat := NameMap.mem_itemsAt.2 ⟨node, hnode, rfl, he⟩
    rw [h.items, List.mem_flatMap] at hat
    obtain ⟨e', he', hu⟩ := hat
    rwa [(CatalogEntry.mem_under.1 hu).1]
  · intro he
    obtain ⟨key, hkey⟩ := List.exists_mem_of_ne_nil _ (hk e he)
    have hat : e ∈ NameMap.itemsAt (Text.lower key) ix.names.nodes := by
      rw [h.items, List.mem_flatMap]
      exact ⟨e, he, CatalogEntry.mem_under.2 ⟨rfl, key, hkey, rfl⟩⟩
    obtain ⟨node, hnode, -, he⟩ := NameMap.mem_itemsAt.1 hat
    exact ⟨node, hnode, he⟩

/-- Some of the entries, found with repetitions, are told apart by their numbers. -/
theorem Lists.eraseDups_perm {ix : Catalog ι} {entries : List (CatalogEntry ι)} (h : ix.Lists entries)
    {found selected : List (CatalogEntry ι)} (hs : selected.Sublist entries) (hmem : ∀ e, e ∈ found ↔ e ∈ selected) :
    (found.eraseDupsBy fun a b => a.sequence == b.sequence).Perm selected := by
  obtain ⟨hsub, hpair, hall⟩ := Keyed.eraseDupsBy_spec (·.sequence) found
  rw [List.perm_ext_iff_of_nodup]
  · intro e
    constructor
    · intro he
      exact (hmem e).1 (hsub he)
    · intro he
      obtain ⟨e', he', heq⟩ := hall e ((hmem e).2 he)
      obtain rfl := h.sequence_inj (hs.subset ((hmem e').1 (hsub he'))) (hs.subset he) heq
      exact he'
  · exact hpair.imp fun hne he => hne (congrArg _ he)
  · exact (h.ordered.sublist hs).imp fun {a b} hlt (he : a = b) => Nat.ne_of_lt hlt (congrArg _ he)

/-- The live entries of a catalog are those that it stands for. -/
theorem Lists.live_eq {ix : Catalog ι} {entries : List (CatalogEntry ι)} (h : ix.Lists entries)
    (hk : ∀ e ∈ entries, e.symbol.keys ≠ []) : ix.live = entries := by
  have hperm : ((ix.names.nodes.flatMap (·.items)).eraseDupsBy fun a b => a.sequence == b.sequence).Perm entries :=
    h.eraseDups_perm (List.Sublist.refl entries) (h.mem_items hk)
  have hsorted : ix.live.Pairwise fun a b => decide (a.sequence ≤ b.sequence) = true := by
    refine List.pairwise_mergeSort ?_ ?_ _
    · intro a b c hab hbc
      exact decide_eq_true (Nat.le_trans (of_decide_eq_true hab) (of_decide_eq_true hbc))
    · intro a b
      simpa using Nat.le_total a.sequence b.sequence
  have hperm' : ix.live.Perm entries := (List.mergeSort_perm _ _).trans hperm
  refine List.Perm.eq_of_pairwise ?_ hsorted (h.ordered.imp fun hlt => decide_eq_true (Nat.le_of_lt hlt)) hperm'
  intro a b ha hb hab hba
  exact h.sequence_inj (hperm'.subset ha) hb (Nat.le_antisymm (of_decide_eq_true hab) (of_decide_eq_true hba))

end Catalog

end CodeAtlas
