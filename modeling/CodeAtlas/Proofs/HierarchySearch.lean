import CodeAtlas.Pool.Hierarchy
import CodeAtlas.Proofs.LowerCase
import Mathlib.Algebra.Order.BigOperators.Group.List
import Mathlib.Algebra.Order.Group.Nat
import Mathlib.Data.List.Nodup
import Mathlib.Data.List.Perm.Subperm
import Mathlib.Order.Lattice.Nat

/-!
# The search for the types above

The search takes links from a queue and appends those of each type that it finds.  All links together are those of the
roots and then of the types found, in their order, and what is found is told by going once through this list
(`Ends.eq_firstFinds`), each type by a link of a root or of a type found before it (`resolve_prefix`).  Every name is
found once, so the search comes to its end before the number of links in the catalog is used up (`ends_associated`).
A type is found through the first symbol in the list that has a link to it; as those symbols stand in the order of their
distance from the roots, so do the types (`chain_before`).
-/

namespace CodeAtlas

/-! ### What a pool finds -/

namespace SymbolPool

/-- The symbols in the catalog, once for each key. -/
def filedSymbols (pool : SymbolPool) : List Symbol :=
  (pool.catalog.names.nodes.flatMap (·.items)).map (·.symbol)

private theorem mem_of_search {α : Type} {order : α → Ordering} {l : List α} {a : α}
    (h : Search.find? order l = some a) : a ∈ l := by
  unfold Search.find? at h
  split at h
  · exact List.mem_of_getElem? h
  · cases h

/-- What is found is in the catalog and has the name that was looked up, by the case rules of its kind. -/
theorem find?_spec {pool : SymbolPool} {name : String} {p : Symbol → Bool} {s : Symbol}
    (h : pool.find? name p = some s) : s ∈ pool.filedSymbols ∧ s.kind.sameNames s.name name = true := by
  have hmem := List.mem_of_find?_eq_some h
  unfold Catalog.find at hmem
  obtain ⟨e, he, rfl⟩ := List.mem_map.1 hmem
  obtain ⟨he, hname⟩ := List.mem_filter.1 he
  refine ⟨?_, hname⟩
  unfold NameMap.find at he
  split at he
  · rename_i node hnode
    exact List.mem_map_of_mem (List.mem_flatMap.2 ⟨node, mem_of_search hnode, he⟩)
  · exact nomatch he

end SymbolPool

namespace Hierarchy

variable {pool : SymbolPool} {excludeTraits : Bool}

/-- A name without regard to case. -/
def nameKey (s : Symbol) : String :=
  Text.lower s.name

/-- The first class, interface or trait with the name of a link. -/
def target? (pool : SymbolPool) (link : SymbolLink) : Option Symbol :=
  pool.find? link.name (·.kind.isClassLike)

theorem nameKey_of_target {link : SymbolLink} {s : Symbol} (h : target? pool link = some s) :
    nameKey s = Text.lower link.name :=
  Text.lower_of_sameNames (SymbolPool.find?_spec h).2

/-- The link is one of the symbol, and not left out. -/
def HasLink (excludeTraits : Bool) (s : Symbol) (link : SymbolLink) : Prop :=
  link ∈ s.associated ∧ (excludeTraits = true → link.kind ≠ .trait)

theorem mem_linksOf {s : Symbol} {link : SymbolLink} :
    link ∈ linksOf excludeTraits s ↔ HasLink excludeTraits s link := by
  unfold linksOf HasLink
  rw [List.mem_mergeSort, List.mem_filter]
  cases excludeTraits <;> simp

theorem mem_links {symbols : List Symbol} {link : SymbolLink} :
    link ∈ symbols.flatMap (linksOf excludeTraits) ↔ ∃ s ∈ symbols, HasLink excludeTraits s link := by
  simp only [List.mem_flatMap, mem_linksOf]

/-! ### Going through a list of links once -/

/-- What the links in a list find; the names in `visited` are skipped, and each name after its first link. -/
def firstFinds (pool : SymbolPool) (visited : List String) : List SymbolLink → List Symbol
  | [] => []
  | link :: links =>
    if Text.lower link.name ∈ visited then firstFinds pool visited links
    else (target? pool link).toList ++ firstFinds pool (Text.lower link.name :: visited) links

theorem mem_firstFinds {visited : List String} {links : List SymbolLink} {s : Symbol}
    (h : s ∈ firstFinds pool visited links) : nameKey s ∉ visited ∧ ∃ link ∈ links, target? pool link = some s := by
  induction links generalizing visited with
  | nil => exact nomatch h
  | cons link links ih =>
    rw [firstFinds] at h
    split at h
    · obtain ⟨hnew, link', hmem, hs⟩ := ih h
      exact ⟨hnew, link', List.mem_cons_of_mem link hmem, hs⟩
    · rename_i hlink
      rcases List.mem_append.1 h with h | h
      · have hs := Option.mem_toList.1 h
        exact ⟨by rwa [nameKey_of_target hs], link, List.mem_cons_self, hs⟩
      · obtain ⟨hnew, link', hmem, hs⟩ := ih h
        exact ⟨fun hv => hnew (List.mem_cons_of_mem _ hv), link', List.mem_cons_of_mem link hmem, hs⟩

/-- No name is found twice. -/
theorem nodup_firstFinds (visited : List String) (links : List SymbolLink) :
    ((firstFinds pool visited links).map nameKey).Nodup := by
  induction links generalizing visited with
  | nil => exact List.nodup_nil
  | cons link links ih =>
    rw [firstFinds]
    split
    · exact ih visited
    · cases ht : target? pool link with
      | none => exact ih _
      | some s =>
        refine List.nodup_cons.2 ⟨fun hmem => ?_, ih _⟩
        obtain ⟨s', hs', hkey⟩ := List.mem_map.1 hmem
        refine (mem_firstFinds hs').1 ?_
        rw [hkey, nameKey_of_target ht]
        exact List.mem_cons_self

/-- Every link has a name that was visited or is found, unless some link with this name leads nowhere. -/
theorem firstFinds_covers {visited : List String} {links : List SymbolLink} {link : SymbolLink} (h : link ∈ links) :
    Text.lower link.name ∈ visited ∨ (∃ s ∈ firstFinds pool visited links, nameKey s = Text.lower link.name) ∨
      ∃ link' ∈ links, Text.lower link'.name = Text.lower link.name ∧ target? pool link' = none := by
  induction links generalizing visited with
  | nil => exact nomatch h
  | cons first links ih =>
    rw [firstFinds]
    by_cases hv : Text.lower first.name ∈ visited
    · rw [if_pos hv]
      rcases List.mem_cons.1 h with rfl | h
      · exact Or.inl hv
      · rcases ih h with hv' | hs | ⟨link', hmem, hlink'⟩
        · exact Or.inl hv'
        · exact Or.inr (Or.inl hs)
        · exact Or.inr (Or.inr ⟨link', List.mem_cons_of_mem first hmem, hlink'⟩)
    · rw [if_neg hv]
      by_cases hkey : Text.lower link.name = Text.lower first.name
      · rw [hkey]
        cases ht : target? pool first with
        | none => exact Or.inr (Or.inr ⟨first, List.mem_cons_self, rfl, ht⟩)
        | some s => exact Or.inr (Or.inl ⟨s, List.mem_cons_self, nameKey_of_target ht⟩)
      · have hrest : link ∈ links := (List.mem_cons.1 h).resolve_left fun he => hkey (by rw [he])
        rcases @ih (Text.lower first.name :: visited) hrest with hv' | ⟨s, hs, hk⟩ | ⟨link', hmem, hlink'⟩
        · exact Or.inl ((List.mem_cons.1 hv').resolve_left hkey)
        · exact Or.inr (Or.inl ⟨s, List.mem_append_right _ hs, hk⟩)
        · exact Or.inr (Or.inr ⟨link', List.mem_cons_of_mem first hmem, hlink'⟩)

/-- More links find more, but none of the names that the first ones have. -/
theorem firstFinds_append (pool : SymbolPool) (visited : List String) (links more : List SymbolLink) :
    ∃ visited', (∀ link ∈ links, Text.lower link.name ∈ visited') ∧ visited ⊆ visited' ∧
      firstFinds pool visited (links ++ more) = firstFinds pool visited links ++ firstFinds pool visited' more := by
  induction links generalizing visited with
  | nil => exact ⟨visited, nofun, List.Subset.refl _, rfl⟩
  | cons link links ih =>
    rw [List.cons_append, firstFinds, firstFinds]
    split
    · rename_i hv
      obtain ⟨visited', hkeys, hsub, heq⟩ := ih visited
      exact ⟨visited', List.forall_mem_cons.2 ⟨hsub hv, hkeys⟩, hsub, heq⟩
    · obtain ⟨visited', hkeys, hsub, heq⟩ := ih (Text.lower link.name :: visited)
      obtain ⟨hlink, hsub⟩ := List.cons_subset.1 hsub
      exact ⟨visited', List.forall_mem_cons.2 ⟨hlink, hkeys⟩, hsub, by rw [heq, List.append_assoc]⟩

/-! ### The search -/

/-- What one round of the search does. -/
theorem resolve_cons (fuel : Nat) (visited : List String) (link : SymbolLink) (queue : List SymbolLink) :
    resolve pool excludeTraits (fuel + 1) visited (link :: queue) =
      if Text.lower link.name ∈ visited then resolve pool excludeTraits fuel visited queue
      else
        match target? pool link with
        | none => resolve pool excludeTraits fuel (Text.lower link.name :: visited) queue
        | some s =>
          s :: resolve pool excludeTraits fuel (Text.lower link.name :: visited) (queue ++ linksOf excludeTraits s) := by
  rw [resolve]
  simp only [List.contains_iff_mem]
  rfl

/-- However long the search goes on, each symbol is found through the queue and the links of those found before it. -/
theorem resolve_prefix (fuel : Nat) (visited : List String) (queue : List SymbolLink) {earlier : List Symbol}
    {s : Symbol} (h : earlier ++ [s] <+: resolve pool excludeTraits fuel visited queue) :
    earlier ++ [s] <+: firstFinds pool visited (queue ++ earlier.flatMap (linksOf excludeTraits)) := by
  induction fuel generalizing visited queue earlier with
  | zero => exact absurd (List.prefix_nil.1 h) (by simp)
  | succ fuel ih =>
    cases queue with
    | nil => exact absurd (List.prefix_nil.1 h) (by simp)
    | cons link queue =>
      rw [resolve_cons] at h
      rw [List.cons_append, firstFinds]
      by_cases hv : Text.lower link.name ∈ visited
      · rw [if_pos hv] at h ⊢
        exact ih visited queue h
      · rw [if_neg hv] at h ⊢
        cases ht : target? pool link with
        | none =>
          rw [ht] at h
          exact ih _ queue h
        | some found =>
          rw [ht] at h
          cases earlier with
          | nil =>
            have hs : s = found := (List.cons_prefix_cons.1 h).1
            rw [hs]
            exact List.prefix_append [found] _
          | cons first earlier =>
            obtain ⟨hfirst, hrest⟩ := List.cons_prefix_cons.1 h
            rw [hfirst, List.flatMap_cons, ← List.append_assoc]
            exact List.cons_prefix_cons.2 ⟨rfl, ih _ _ hrest⟩

/-- A search that comes to its end: with these names visited, the links in the queue lead to these symbols. -/
inductive Ends (pool : SymbolPool) (excludeTraits : Bool) : List String → List SymbolLink → List Symbol → Prop where
  | done (visited : List String) : Ends pool excludeTraits visited [] []
  | skip {visited : List String} {link : SymbolLink} {queue : List SymbolLink} {found : List Symbol}
    (hv : Text.lower link.name ∈ visited) (h : Ends pool excludeTraits visited queue found) :
    Ends pool excludeTraits visited (link :: queue) found
  | missing {visited : List String} {link : SymbolLink} {queue : List SymbolLink} {found : List Symbol}
    (hv : Text.lower link.name ∉ visited) (ht : target? pool link = none)
    (h : Ends pool excludeTraits (Text.lower link.name :: visited) queue found) :
    Ends pool excludeTraits visited (link :: queue) found
  | found {visited : List String} {link : SymbolLink} {queue : List SymbolLink} {s : Symbol} {found : List Symbol}
    (hv : Text.lower link.name ∉ visited) (ht : target? pool link = some s)
    (h : Ends pool excludeTraits (Text.lower link.name :: visited) (queue ++ linksOf excludeTraits s) found) :
    Ends pool excludeTraits visited (link :: queue) (s :: found)

/-- A finished search has gone once through the links in the queue and those of all symbols found. -/
theorem Ends.eq_firstFinds {visited : List String} {queue : List SymbolLink} {found : List Symbol}
    (h : Ends pool excludeTraits visited queue found) :
    found = firstFinds pool visited (queue ++ found.flatMap (linksOf excludeTraits)) := by
  induction h with
  | done => rfl
  | skip hv _ ih =>
    rw [List.cons_append, firstFinds, if_pos hv]
    exact ih
  | missing hv ht _ ih =>
    rw [List.cons_append, firstFinds, if_neg hv, ht]
    exact ih
  | found hv ht _ ih =>
    rw [List.cons_append, firstFinds, if_neg hv, ht, List.flatMap_cons, ← List.append_assoc]
    exact congrArg _ ih

/-- The search comes to its end if the fuel suffices for the queue and for the links of what it finds. -/
theorem ends_resolve {fuel : Nat} {visited : List String} {queue : List SymbolLink}
    (h : queue.length +
      ((resolve pool excludeTraits fuel visited queue).flatMap (linksOf excludeTraits)).length ≤ fuel) :
    Ends pool excludeTraits visited queue (resolve pool excludeTraits fuel visited queue) := by
  induction fuel generalizing visited queue with
  | zero =>
    have hqueue : queue = [] := List.length_eq_zero_iff.1 (by omega)
    rw [hqueue, resolve]
    exact .done visited
  | succ fuel ih =>
    cases queue with
    | nil => exact .done visited
    | cons link queue =>
      rw [resolve_cons] at h ⊢
      rw [List.length_cons] at h
      by_cases hv : Text.lower link.name ∈ visited
      · rw [if_pos hv] at h ⊢
        exact .skip hv (ih (by omega))
      · rw [if_neg hv] at h ⊢
        cases ht : target? pool link with
        | none =>
          simp only [ht] at h ⊢
          exact .missing hv ht (ih (by omega))
        | some s =>
          simp only [ht, List.flatMap_cons, List.length_append] at h ⊢
          refine .found hv ht (ih ?_)
          rw [List.length_append]
          omega

/-! ### The end of the search -/

theorem length_linksOf_le (s : Symbol) : (linksOf excludeTraits s).length ≤ s.associated.length := by
  unfold linksOf
  rw [List.length_mergeSort]
  exact List.length_filter_le _ _

/-- Symbols in the catalog with different names have no more links than the catalog has in all. -/
theorem length_links_le {found : List Symbol} (hn : (found.map nameKey).Nodup) (hs : found ⊆ pool.filedSymbols) :
    (found.flatMap (linksOf excludeTraits)).length ≤ linkTotal pool := by
  have hlinks : (found.flatMap (linksOf excludeTraits)).length ≤ (found.flatMap (·.associated)).length := by
    rw [List.length_flatMap, List.length_flatMap]
    exact List.sum_le_sum fun s _ => length_linksOf_le s
  obtain ⟨symbols, hperm, hsub⟩ := List.subperm_of_subset (List.Nodup.of_map nameKey hn) hs
  have htotal : linkTotal pool = (pool.filedSymbols.flatMap (·.associated)).length := by
    unfold linkTotal SymbolPool.filedSymbols
    rw [List.flatMap_map, List.flatMap_assoc]
  calc (found.flatMap (linksOf excludeTraits)).length
    _ ≤ (found.flatMap (·.associated)).length := hlinks
    _ = (symbols.flatMap (·.associated)).length := (hperm.flatMap_right _).length_eq.symm
    _ ≤ (pool.filedSymbols.flatMap (·.associated)).length := (hsub.flatMap _).length_le
    _ = linkTotal pool := htotal.symm

/-- What is found has different names and is in the catalog, however long the search goes on. -/
theorem resolve_spec (pool : SymbolPool) (excludeTraits : Bool) (fuel : Nat) (visited : List String)
    (queue : List SymbolLink) :
    ((resolve pool excludeTraits fuel visited queue).map nameKey).Nodup ∧
      resolve pool excludeTraits fuel visited queue ⊆ pool.filedSymbols := by
  rcases List.eq_nil_or_concat' (resolve pool excludeTraits fuel visited queue) with hnil | ⟨earlier, s, hcons⟩
  · rw [hnil]
    exact ⟨List.nodup_nil, List.nil_subset _⟩
  · have hend : earlier ++ [s] <+: resolve pool excludeTraits fuel visited queue := by
      rw [hcons]
    have hpre := resolve_prefix fuel visited queue hend
    rw [hcons]
    refine ⟨(nodup_firstFinds _ _).sublist (hpre.sublist.map nameKey), fun t ht => ?_⟩
    obtain ⟨-, link, -, hlink⟩ := mem_firstFinds (hpre.subset ht)
    exact (SymbolPool.find?_spec hlink).1

/-- The search for the types above comes to its end. -/
theorem ends_associated (pool : SymbolPool) (h : Hierarchy) :
    Ends pool h.excludeTraits (h.roots.map nameKey) (h.roots.flatMap (linksOf h.excludeTraits)) (h.associated pool) := by
  obtain ⟨hn, hs⟩ := resolve_spec pool h.excludeTraits
    ((h.roots.flatMap (linksOf h.excludeTraits)).length + linkTotal pool) (h.roots.map nameKey)
    (h.roots.flatMap (linksOf h.excludeTraits))
  exact ends_resolve (Nat.add_le_add_left (length_links_le hn hs) _)

theorem associated_eq_firstFinds (pool : SymbolPool) (h : Hierarchy) : h.associated pool =
    firstFinds pool (h.roots.map nameKey) ((h.roots ++ h.associated pool).flatMap (linksOf h.excludeTraits)) := by
  rw [List.flatMap_append]
  exact (ends_associated pool h).eq_firstFinds

theorem nodup_associated (pool : SymbolPool) (h : Hierarchy) : ((h.associated pool).map nameKey).Nodup := by
  rw [associated_eq_firstFinds]
  exact nodup_firstFinds _ _

theorem nameKey_not_root {h : Hierarchy} {s : Symbol} (hs : s ∈ h.associated pool) :
    nameKey s ∉ h.roots.map nameKey := by
  rw [associated_eq_firstFinds] at hs
  exact (mem_firstFinds hs).1

/-- The pool has `t` under the name of a link of `s`. -/
def LeadsTo (pool : SymbolPool) (excludeTraits : Bool) (s t : Symbol) : Prop :=
  ∃ link, HasLink excludeTraits s link ∧ target? pool link = some t

/-- What is found through the links of some symbols is what one of them leads to. -/
theorem leadsTo_of_mem {visited : List String} {symbols : List Symbol} {t : Symbol}
    (h : t ∈ firstFinds pool visited (symbols.flatMap (linksOf excludeTraits))) :
    ∃ s ∈ symbols, LeadsTo pool excludeTraits s t := by
  obtain ⟨-, link, hlink, ht⟩ := mem_firstFinds h
  obtain ⟨s, hs, hsl⟩ := mem_links.1 hlink
  exact ⟨s, hs, link, hsl, ht⟩

/-- A root or an earlier type leads to each of the types above. -/
theorem leadsTo_of_earlier {h : Hierarchy} {earlier later : List Symbol} {t : Symbol}
    (ht : h.associated pool = earlier ++ t :: later) :
    ∃ s ∈ h.roots ++ earlier, LeadsTo pool h.excludeTraits s t := by
  have hpre : earlier ++ [t] <+: h.associated pool := ⟨later, by rw [ht, List.append_assoc]; rfl⟩
  have hfirst := resolve_prefix _ _ _ hpre
  rw [← List.flatMap_append] at hfirst
  exact leadsTo_of_mem (hfirst.subset (List.mem_append_right _ (List.mem_singleton_self t)))

/-! ### Breadth first -/

/-- So many links in a row lead from a root to a symbol, through the types above. -/
inductive Chain (pool : SymbolPool) (h : Hierarchy) : Nat → Symbol → Prop where
  | root {s : Symbol} (hs : s ∈ h.roots) : Chain pool h 0 s
  | step {n : Nat} {s t : Symbol} (c : Chain pool h n s) (ht : t ∈ h.associated pool)
    (hst : LeadsTo pool h.excludeTraits s t) : Chain pool h (n + 1) t

/-- The length of the shortest chain to a symbol. -/
noncomputable def distance (pool : SymbolPool) (h : Hierarchy) (s : Symbol) : Nat :=
  sInf {n | Chain pool h n s}

theorem Chain.mem {h : Hierarchy} {n : Nat} {s : Symbol} (c : Chain pool h n s) : s ∈ h.roots ++ h.associated pool := by
  cases c with
  | root hs => exact List.mem_append_left _ hs
  | step _ ht _ => exact List.mem_append_right _ ht

/-- There is a chain to each of the types above. -/
theorem exists_chain {h : Hierarchy} {earlier later : List Symbol} {t : Symbol}
    (ht : h.associated pool = earlier ++ t :: later) : ∃ n, Chain pool h n t := by
  induction hlen : earlier.length using Nat.strongRecOn generalizing earlier later t with
  | _ len ih =>
    have hmem : t ∈ h.associated pool := by rw [ht]; simp
    obtain ⟨s, hs, hst⟩ := leadsTo_of_earlier ht
    rcases List.mem_append.1 hs with hs | hs
    · exact ⟨1, .step (.root hs) hmem hst⟩
    · obtain ⟨before, after, rfl⟩ := List.append_of_mem hs
      rw [List.append_assoc] at ht
      obtain ⟨n, c⟩ := ih before.length (by rw [← hlen]; simp) ht rfl
      exact ⟨n + 1, .step c hmem hst⟩

/-- A prefix of a list without repetition has everything up to each of its elements. -/
private theorem concat_prefix {α : Type} {l before after start : List α} {a : α} (hn : l.Nodup)
    (hl : l = before ++ a :: after) (hs : start <+: l) (ha : a ∈ start) : before ++ [a] <+: start := by
  have hpre : before ++ [a] <+: l := ⟨after, by rw [hl, List.append_assoc]; rfl⟩
  rcases List.prefix_or_prefix_of_prefix hpre hs with h | h
  · exact h
  · rcases List.prefix_concat_iff.1 h with h | h
    · rw [h]
    · rw [hl] at hn
      exact absurd rfl ((List.nodup_append.1 hn).2.2 a (h.subset ha) a List.mem_cons_self)

/-- If a symbol leads to a type, then it or one before it leads to each of the types up to that one. -/
theorem leadsTo_before {h : Hierarchy} {front back earlier later : List Symbol} {s t u : Symbol}
    (hs : h.roots ++ h.associated pool = front ++ s :: back) (ht : h.associated pool = earlier ++ t :: later)
    (hst : LeadsTo pool h.excludeTraits s t) (hu : u ∈ earlier ++ [t]) :
    ∃ r ∈ front ++ [s], LeadsTo pool h.excludeTraits r u := by
  have hmem : t ∈ h.associated pool := by rw [ht]; simp
  have hall : (h.roots ++ h.associated pool).flatMap (linksOf h.excludeTraits) =
      (front ++ [s]).flatMap (linksOf h.excludeTraits) ++ back.flatMap (linksOf h.excludeTraits) := by
    rw [← List.flatMap_append, hs, List.append_assoc]
    rfl
  obtain ⟨visited, hkeys, -, happ⟩ := firstFinds_append pool (h.roots.map nameKey)
    ((front ++ [s]).flatMap (linksOf h.excludeTraits)) (back.flatMap (linksOf h.excludeTraits))
  rw [← hall, ← associated_eq_firstFinds] at happ
  -- the links up to those of `s` have found `t` already, since one of them has its name
  have hfound : t ∈ firstFinds pool (h.roots.map nameKey) ((front ++ [s]).flatMap (linksOf h.excludeTraits)) := by
    rw [happ] at hmem
    rcases List.mem_append.1 hmem with hmem | hmem
    · exact hmem
    · obtain ⟨link, hlink, htarget⟩ := hst
      refine absurd ?_ (mem_firstFinds hmem).1
      rw [nameKey_of_target htarget]
      exact hkeys link (mem_links.2 ⟨s, List.mem_append_right _ (List.mem_singleton_self s), hlink⟩)
  have hpre := concat_prefix (List.Nodup.of_map nameKey (nodup_associated pool h)) ht
    (happ ▸ List.prefix_append _ _) hfound
  exact leadsTo_of_mem (hpre.subset hu)

/-- No type is further from the roots than the ones after it. -/
theorem chain_before {h : Hierarchy} {n : Nat} {earlier later : List Symbol} {t u : Symbol}
    (ht : h.associated pool = earlier ++ t :: later) (c : Chain pool h n t) (hu : u ∈ earlier ++ [t]) :
    ∃ m ≤ n, Chain pool h m u := by
  have hmem : u ∈ h.associated pool := by
    rw [ht, List.append_cons]
    exact List.mem_append_left _ hu
  induction c generalizing earlier later u with
  | @root s hs =>
    have hs' : s ∈ h.associated pool := by rw [ht]; simp
    exact absurd (List.mem_map_of_mem hs) (nameKey_not_root hs')
  | @step n s t c _ hst ih =>
    -- `u` is found through `s` or through a symbol before it, and that one is no further away than `s`
    rcases List.mem_append.1 c.mem with hs | hs
    · obtain ⟨front, back, hroots⟩ := List.append_of_mem hs
      have hsplit : h.roots ++ h.associated pool = front ++ s :: (back ++ h.associated pool) := by
        rw [hroots, List.append_assoc]
        rfl
      obtain ⟨r, hr, hru⟩ := leadsTo_before hsplit ht hst hu
      have hr : r ∈ h.roots := by
        rw [hroots, List.append_cons]
        exact List.mem_append_left _ hr
      exact ⟨1, by omega, .step (.root hr) hmem hru⟩
    · obtain ⟨before, after, hfound⟩ := List.append_of_mem hs
      have hsplit : h.roots ++ h.associated pool = (h.roots ++ before) ++ s :: after := by
        rw [hfound, List.append_assoc]
      obtain ⟨r, hr, hru⟩ := leadsTo_before hsplit ht hst hu
      rw [List.append_assoc] at hr
      rcases List.mem_append.1 hr with hr | hr
      · exact ⟨1, by omega, .step (.root hr) hmem hru⟩
      · have hr' : r ∈ h.associated pool := by
          rw [hfound, List.append_cons]
          exact List.mem_append_left _ hr
        obtain ⟨m, hm, c'⟩ := ih hfound hr hr'
        exact ⟨m + 1, by omega, .step c' hmem hru⟩

theorem distance_le {h : Hierarchy} {earlier later : List Symbol} {t u : Symbol}
    (ht : h.associated pool = earlier ++ t :: later) (hu : u ∈ earlier) : distance pool h u ≤ distance pool h t := by
  have hshortest : Chain pool h (distance pool h t) t := Nat.sInf_mem (exists_chain ht)
  obtain ⟨m, hm, c⟩ := chain_before ht hshortest (List.mem_append_left _ hu)
  exact Nat.le_trans (Nat.sInf_le c) hm

/-- Whatever holds between each element and the ones before it. -/
private theorem pairwise_of_split {α : Type} {R : α → α → Prop} {l : List α}
    (h : ∀ before a after, l = before ++ a :: after → ∀ b ∈ before, R b a) : l.Pairwise R := by
  rw [List.pairwise_iff_getElem]
  intro i j hi hj hij
  refine h (l.take j) l[j] (l.drop (j + 1)) ?_ l[i] ?_
  · rw [List.cons_getElem_drop_succ, List.take_append_drop]
  · exact List.mem_take_iff_getElem.2 ⟨i, by omega, rfl⟩

/-- For any pool and any roots, with or without traits, the search for the types above comes to its end.  Their names
are different, and different from those of the roots; each is found through a link of a root or of a type before it;
every link has the name of a root or of a type, unless some link with this name leads nowhere; and the types stand in
the order of their distance from the roots. -/
theorem associated_closed (pool : SymbolPool) (h : Hierarchy) :
    Ends pool h.excludeTraits (h.roots.map nameKey) (h.roots.flatMap (linksOf h.excludeTraits)) (h.associated pool) ∧
    ((h.associated pool).map nameKey).Nodup ∧
    (∀ s ∈ h.associated pool, nameKey s ∉ h.roots.map nameKey) ∧
    (∀ earlier s later, h.associated pool = earlier ++ s :: later →
      ∃ r ∈ h.roots ++ earlier, ∃ link, HasLink h.excludeTraits r link ∧ target? pool link = some s) ∧
    (∀ s ∈ h.roots ++ h.associated pool, ∀ link, HasLink h.excludeTraits s link →
      Text.lower link.name ∈ (h.roots ++ h.associated pool).map nameKey ∨
      ∃ r ∈ h.roots ++ h.associated pool, ∃ link', HasLink h.excludeTraits r link' ∧
        Text.lower link'.name = Text.lower link.name ∧ target? pool link' = none) ∧
    (∀ s ∈ h.associated pool, ∃ n, Chain pool h n s) ∧
    (h.associated pool).Pairwise fun s t => distance pool h s ≤ distance pool h t := by
  refine ⟨ends_associated pool h, nodup_associated pool h, fun s => nameKey_not_root, fun _ _ _ => leadsTo_of_earlier,
    fun s hs link hlink => ?_, fun s hs => ?_, pairwise_of_split fun _ _ _ ht _ => distance_le ht⟩
  · have hmem := mem_links.2 ⟨s, hs, hlink⟩
    rcases firstFinds_covers hmem with hroot | ⟨t, ht, hkey⟩ | ⟨link', hlink', hname⟩
    · rw [List.map_append]
      exact Or.inl (List.mem_append_left _ hroot)
    · rw [← associated_eq_firstFinds] at ht
      rw [← hkey]
      exact Or.inl (List.mem_map_of_mem (List.mem_append_right _ ht))
    · obtain ⟨r, hr, hrl⟩ := mem_links.1 hlink'
      exact Or.inr ⟨r, hr, link', hrl, hname⟩
  · obtain ⟨earlier, later, hsplit⟩ := List.append_of_mem hs
    exact exists_chain hsplit

end Hierarchy

end CodeAtlas
