import CodeAtlas.Proofs.Keyed
import CodeAtlas.Proofs.LowerCase
import CodeAtlas.Proofs.NameMap
import CodeAtlas.Reference.Pool
import Mathlib.Data.List.Induction

/-!
# The index of mentions

References to a name are looked up through an index from names to documents.  After any sequence of additions and
removals the answer is that of a search through all documents that are present (`mentionsOf_eq_search`).

The index has a document under the lower case of each name that it mentions, and under no other key (`Indexed`); adding
and removing keep this up.  The lower case is taken twice when a name is filed and once when it is looked up, and names
are compared by ASCII case or exactly, so both facts of `LowerCase` are needed to see that no document is missed.
-/

namespace CodeAtlas

/-- One change of the references of a workspace. -/
inductive ReferenceStep where
  | add (d : Occurrences)
  | remove (uri : String)

namespace ReferenceStep

/-- The uri of the document that is added or removed. -/
def uri : ReferenceStep → String
  | .add d => d.uri
  | .remove uri => uri

/-- The document that is added. -/
def added : ReferenceStep → List Occurrences
  | .add d => [d]
  | .remove _ => []

end ReferenceStep

/-- Whether a name whose lower case is `k` is used in the document for something other than a variable. -/
def Occurrences.Mentions (d : Occurrences) (k : String) : Prop :=
  ∃ r ∈ d.sorted, r.kind.isLocal = false ∧ ∃ name ∈ r.names, Text.lower name = k

namespace ReferencePool

def step (s : ReferencePool) : ReferenceStep → ReferencePool
  | .add d => s.add d
  | .remove uri => s.remove uri

/-- The pool after some changes of an empty one. -/
def run (steps : List ReferenceStep) : ReferencePool :=
  steps.foldl step empty

/-- The documents that are present after some changes: those that were added and whose uri does not occur in a later
change, in the order of their addition. -/
def present : List ReferenceStep → List Occurrences
  | [] => []
  | change :: later => (if later.any (·.uri == change.uri) then [] else change.added) ++ present later

/-! ### Keys -/

theorem mem_keysOf {d : Occurrences} {key : String} :
    key ∈ keysOf d ↔ ∃ r ∈ d.sorted, r.kind.isLocal = false ∧ ∃ name ∈ r.names, Text.lower name = key := by
  unfold keysOf
  rw [List.mem_eraseDups, List.mem_flatMap]
  constructor
  · rintro ⟨r, hr, hkey⟩
    obtain ⟨hmem, hlocal⟩ := List.mem_filter.1 hr
    obtain ⟨name, hname, rfl⟩ := List.mem_map.1 hkey
    exact ⟨r, hmem, by simpa using hlocal, name, hname, rfl⟩
  · rintro ⟨r, hmem, hlocal, name, hname, rfl⟩
    exact ⟨r, List.mem_filter.2 ⟨hmem, by simp [hlocal]⟩, List.mem_map_of_mem hname⟩

/-- A document is filed under the lower case of the names that it mentions; lowering them once more does nothing. -/
theorem mentions_iff_key {d : Occurrences} {k : String} :
    d.Mentions k ↔ ∃ key ∈ keysOf d, Text.lower key = k := by
  constructor
  · rintro ⟨r, hr, hlocal, name, hname, rfl⟩
    exact ⟨Text.lower name, mem_keysOf.2 ⟨r, hr, hlocal, name, hname, rfl⟩, Text.lower_lower name⟩
  · rintro ⟨key, hkey, rfl⟩
    obtain ⟨r, hr, hlocal, name, hname, rfl⟩ := mem_keysOf.1 hkey
    exact ⟨r, hr, hlocal, name, hname, (Text.lower_lower name).symm⟩

/-! ### Documents -/

theorem get?_eq_some {s : ReferencePool} (h : (s.documents.map (·.uri)).Nodup) {d : Occurrences}
    (hd : d ∈ s.documents) : s.get? d.uri = some d :=
  Keyed.find?_eq_some h hd

theorem documents_remove (s : ReferencePool) (uri : String) :
    (s.remove uri).documents = s.documents.filter (·.uri != uri) := by
  unfold remove
  split
  · rename_i hnone
    refine (List.filter_eq_self.2 fun d hd => ?_).symm
    simpa using Keyed.find?_eq_none.1 hnone d hd
  · rfl

theorem documents_step (s : ReferencePool) (change : ReferenceStep) :
    (s.step change).documents = s.documents.filter (·.uri != change.uri) ++ change.added := by
  cases change with
  | add d =>
    show (s.remove d.uri).documents ++ [d] = _
    rw [documents_remove]
    rfl
  | remove uri =>
    show (s.remove uri).documents = _
    rw [documents_remove]
    exact (List.append_nil _).symm

private theorem filter_added (change first : ReferenceStep) :
    first.added.filter (·.uri != change.uri) = if change.uri = first.uri then [] else first.added := by
  generalize change.uri = uri
  cases first with
  | remove _ => simp [ReferenceStep.added]
  | add d =>
    show [d].filter (·.uri != uri) = if uri = d.uri then [] else [d]
    by_cases huri : uri = d.uri
    · simp [huri]
    · simp [huri, Ne.symm huri]

/-- One more change at the end takes away the document with its uri. -/
private theorem present_append (steps : List ReferenceStep) (change : ReferenceStep) :
    present (steps ++ [change]) = (present steps).filter (·.uri != change.uri) ++ change.added := by
  induction steps with
  | nil => simp [present]
  | cons first later ih =>
    rw [List.cons_append, present, present, ih, List.filter_append, List.append_assoc]
    congr 1
    by_cases hlater : later.any (·.uri == first.uri) = true
    · simp [hlater]
    · simp only [List.any_append, hlater, Bool.false_or, List.any_cons, List.any_nil, Bool.or_false, beq_iff_eq,
        Bool.false_eq_true, if_false, filter_added]

theorem documents_run (steps : List ReferenceStep) : (run steps).documents = present steps := by
  induction steps using List.reverseRecOn with
  | nil => rfl
  | append_singleton steps change ih =>
    have hstep : run (steps ++ [change]) = (run steps).step change := List.foldl_concat ..
    rw [hstep, documents_step, ih, present_append]

/-! ### The index -/

/-- Each document is filed under the lower case of the names that it mentions. -/
structure Indexed (s : ReferencePool) : Prop where
  uris : (s.documents.map (·.uri)).Nodup
  wellFormed : NameMap.WellFormed s.mentions.nodes
  filed : ∀ k uri, uri ∈ NameMap.itemsAt k s.mentions.nodes ↔ ∃ d ∈ s.documents, d.Mentions k ∧ d.uri = uri

theorem empty_indexed : empty.Indexed :=
  ⟨.nil, NameMap.WellFormed.nil, fun _ _ => by simp [empty, NameMap.empty, NameMap.itemsAt]⟩

/-- What is left of the index when the entries of a document are taken out. -/
private theorem removed_filed {s : ReferencePool} (h : s.Indexed) {d : Occurrences} (hd : d ∈ s.documents)
    (k uri : String) : (uri ∈ if ∃ key ∈ keysOf d, Text.lower key = k
        then (NameMap.itemsAt k s.mentions.nodes).filter (!· == d.uri) else NameMap.itemsAt k s.mentions.nodes) ↔
      ∃ e ∈ s.documents.filter (·.uri != d.uri), e.Mentions k ∧ e.uri = uri := by
  have hothers : (∃ e ∈ s.documents.filter (·.uri != d.uri), e.Mentions k ∧ e.uri = uri) ↔
      uri ∈ NameMap.itemsAt k s.mentions.nodes ∧ uri ≠ d.uri := by
    rw [h.filed]
    constructor
    · rintro ⟨e, he, hk, rfl⟩
      obtain ⟨hmem, hne⟩ := List.mem_filter.1 he
      exact ⟨⟨e, hmem, hk, rfl⟩, by simpa using hne⟩
    · rintro ⟨⟨e, hmem, hk, rfl⟩, hne⟩
      exact ⟨e, List.mem_filter.2 ⟨hmem, by simpa using hne⟩, hk, rfl⟩
  rw [hothers]
  split
  · simp
  · rename_i hno
    -- a document that is under the key but does not mention it is another one
    refine ⟨fun hmem => ⟨hmem, fun huri => hno ?_⟩, And.left⟩
    obtain ⟨e, he, hk, heq⟩ := (h.filed k uri).1 hmem
    have hed : e = d := List.inj_on_of_nodup_map h.uris he hd (heq.trans huri)
    rw [hed] at hk
    exact mentions_iff_key.1 hk

theorem Indexed.remove {s : ReferencePool} (h : s.Indexed) (uri : String) : (s.remove uri).Indexed := by
  cases hget : s.get? uri with
  | none =>
    unfold ReferencePool.remove
    rw [hget]
    exact h
  | some d =>
    have hd : d ∈ s.documents := List.mem_of_find?_eq_some hget
    have huri : d.uri = uri := by simpa using List.find?_some hget
    obtain ⟨hw, hi⟩ := NameMap.removeAll_spec (· == d.uri) (keysOf d) h.wellFormed
    have hremove : s.remove uri = ⟨s.documents.filter (·.uri != d.uri),
        (keysOf d).foldl (fun ix key => (ix.remove key (· == d.uri)).1) s.mentions⟩ := by
      unfold ReferencePool.remove
      rw [hget, huri]
    rw [hremove]
    refine ⟨h.uris.sublist (List.filter_sublist.map _), hw, fun k u => ?_⟩
    show u ∈ NameMap.itemsAt k ((keysOf d).foldl (fun ix key => (ix.remove key (· == d.uri)).1) s.mentions).nodes ↔ _
    rw [hi]
    exact removed_filed h hd k u

theorem Indexed.add {s : ReferencePool} (h : s.Indexed) (d : Occurrences) : (s.add d).Indexed := by
  have hr := h.remove d.uri
  obtain ⟨hw, hi⟩ := NameMap.addAll_spec d.uri (keysOf d) hr.wellFormed
  refine ⟨?_, hw, fun k u => ?_⟩
  · show (((s.remove d.uri).documents ++ [d]).map (·.uri)).Nodup
    rw [documents_remove]
    exact Keyed.nodup_replace h.uris d
  · show u ∈ NameMap.itemsAt k ((keysOf d).foldl (fun ix key => ix.add key d.uri) (s.remove d.uri).mentions).nodes ↔
      ∃ e ∈ (s.remove d.uri).documents ++ [d], e.Mentions k ∧ e.uri = u
    have hnew : u ∈ ((keysOf d).filter fun key => Text.lower key == k).map (fun _ => d.uri) ↔
        d.Mentions k ∧ d.uri = u := by
      rw [mentions_iff_key]
      simp only [List.mem_map, List.mem_filter, beq_iff_eq]
      constructor
      · rintro ⟨key, hkey, rfl⟩
        exact ⟨⟨key, hkey⟩, rfl⟩
      · rintro ⟨⟨key, hkey⟩, rfl⟩
        exact ⟨key, hkey, rfl⟩
    rw [hi, List.mem_append, hr.filed, hnew]
    simp only [List.mem_append, List.mem_singleton, or_and_right, exists_or, exists_eq_left]

theorem run_indexed (steps : List ReferenceStep) : (run steps).Indexed := by
  have hsteps : ∀ s : ReferencePool, s.Indexed → (steps.foldl step s).Indexed := by
    induction steps with
    | nil => exact fun s h => h
    | cons change steps ih =>
      intro s h
      apply ih
      cases change with
      | add d => exact h.add d
      | remove uri => exact h.remove uri
  exact hsteps empty empty_indexed

/-! ### Looking up -/

/-- A reference that names the same thing as one to something other than a variable is not to a variable either, and
they have names with the same lower case. -/
private theorem names_of_sameName {r target : Reference} (ht : target.kind.isLocal = false)
    (h : r.sameName target = true) :
    r.kind.isLocal = false ∧ ∃ x ∈ r.names, ∃ y ∈ target.names, Text.lower x = Text.lower y := by
  unfold Reference.sameName at h
  rw [Bool.and_eq_true, beq_iff_eq, List.any_eq_true] at h
  obtain ⟨hfamily, x, hx, hy⟩ := h
  obtain ⟨y, hy, hxy⟩ := List.any_eq_true.1 hy
  refine ⟨?_, x, hx, y, hy, Text.lower_of_sameNames hxy⟩
  revert hfamily ht
  cases r.kind <;> cases target.kind <;> decide

/-- The uris that the index gives for a reference, in order. -/
private theorem uris_eq {s : ReferencePool} (h : s.Indexed) (target : Reference) :
    ((target.names.flatMap s.mentions.find).eraseDups.mergeSort fun a b => decide (a ≤ b)) =
      ((s.documents.mergeSort fun a b => decide (a.uri ≤ b.uri)).filter fun d =>
        decide (d.uri ∈ target.names.flatMap s.mentions.find)).map (·.uri) := by
  apply Keyed.mergeSort_keys h.uris
  · exact Keyed.nodup_eraseDups _
  · intro uri
    rw [List.mem_eraseDups]
    constructor
    · intro hmem
      obtain ⟨name, -, hname⟩ := List.mem_flatMap.1 hmem
      rw [NameMap.find_eq_itemsAt h.wellFormed, h.filed] at hname
      obtain ⟨d, hd, -, rfl⟩ := hname
      exact ⟨d, hd, decide_eq_true hmem, rfl⟩
    · rintro ⟨d, -, hmem, rfl⟩
      exact of_decide_eq_true hmem

/-- A document that has a matching reference is found through the index. -/
private theorem uri_mem_find {s : ReferencePool} (h : s.Indexed) {target : Reference}
    (ht : target.kind.isLocal = false) {d : Occurrences} (hd : d ∈ s.documents) {r : Reference} (hr : r ∈ d.sorted)
    (hsame : r.sameName target = true) : d.uri ∈ target.names.flatMap s.mentions.find := by
  obtain ⟨hlocal, x, hx, y, hy, hxy⟩ := names_of_sameName ht hsame
  rw [List.mem_flatMap]
  refine ⟨y, hy, ?_⟩
  rw [NameMap.find_eq_itemsAt h.wellFormed, h.filed]
  exact ⟨d, hd, ⟨r, hr, hlocal, x, hx, hxy⟩, rfl⟩

/-- Looking up the uris of documents gives the documents. -/
private theorem get?_uris {s : ReferencePool} (h : s.Indexed) {docs : List Occurrences}
    (hd : ∀ d ∈ docs, d ∈ s.documents) : (docs.map (·.uri)).filterMap s.get? = docs := by
  induction docs with
  | nil => rfl
  | cons d docs ih =>
    rw [List.map_cons, List.filterMap_cons_some (get?_eq_some h.uris (hd d List.mem_cons_self)),
      ih fun e he => hd e (List.mem_cons_of_mem d he)]

theorem Indexed.mentionsOf_eq_select {s : ReferencePool} (h : s.Indexed) {target : Reference}
    (ht : target.kind.isLocal = false) : s.mentionsOf target = s.select (·.sameName target) := by
  unfold mentionsOf select
  rw [if_neg (by simp [ht])]
  simp only
  rw [uris_eq h target, get?_uris h fun d hd => List.mem_mergeSort.1 (List.mem_of_mem_filter hd)]
  refine (Keyed.flatMap_filter fun d hd => ?_).symm
  split
  · rfl
  · rename_i hskip
    -- a document that the index leaves out has no matching reference
    have hnone : d.sorted.filter (·.sameName target) = [] := by
      rw [List.filter_eq_nil_iff]
      intro r hr hsame
      exact hskip (decide_eq_true (uri_mem_find h ht (List.mem_mergeSort.1 hd) hr hsame))
    unfold pick
    rw [hnone, List.map_nil]

/-- After any sequence of changes the references to a name are found as by a search through the documents present, in
the order of their uris, each of them once; for variables there are none. -/
theorem mentionsOf_eq_search (steps : List ReferenceStep) (target : Reference) :
    ((present steps).map (·.uri)).Nodup ∧
    (run steps).mentionsOf target = if target.kind.isLocal then [] else
      ((present steps).mergeSort fun a b => decide (a.uri ≤ b.uri)).flatMap fun d =>
        (d.sorted.filter (·.sameName target)).map fun r => (d.uri, r) := by
  have h := run_indexed steps
  have huris := h.uris
  rw [documents_run] at huris
  refine ⟨huris, ?_⟩
  cases hlocal : target.kind.isLocal with
  | true =>
    unfold mentionsOf
    rw [if_pos hlocal, if_pos rfl]
  | false =>
    rw [h.mentionsOf_eq_select hlocal, if_neg Bool.false_ne_true]
    unfold select
    rw [documents_run]
    rfl

end ReferencePool

end CodeAtlas
