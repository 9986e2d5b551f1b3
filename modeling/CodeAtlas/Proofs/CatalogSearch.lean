import CodeAtlas.Proofs.CatalogHistory
import CodeAtlas.Proofs.LowerParts
import CodeAtlas.Proofs.SortedSearch

/-!
# Searching a catalog

A query is answered from the nodes of a catalog, but the answer is that of a scan of the live entries: those that match
are sorted by rank and then by their numbers (`matching_eq_answers`).  A symbol matches if one of its keys begins with
the query, and in a fuzzy search also if it has a run of three characters of the query as a key.  So a symbol is found
by every start of its name, unless the start breaks off at a capital sigma (`found_by_start_iff`).
-/

namespace CodeAtlas

/-! ### Runs of three characters -/

private theorem not_infix_of_short {w cs : List Char} (hcs : cs.length < 3) : ¬ (w.length = 3 ∧ w <:+: cs) := by
  rintro ⟨hw, hi⟩
  have hle := hi.length_le
  omega

theorem mem_windows {w : List Char} : ∀ {cs : List Char}, w ∈ windows cs ↔ w.length = 3 ∧ w <:+: cs
  | a :: b :: c :: rest => by
    have hcons : w <:+: a :: b :: c :: rest ↔ w <+: a :: b :: c :: rest ∨ w <:+: b :: c :: rest := List.infix_cons_iff
    rw [windows, List.mem_cons, mem_windows, hcons]
    constructor
    · rintro (rfl | ⟨hlen, hw⟩)
      · exact ⟨rfl, Or.inl ⟨rest, rfl⟩⟩
      · exact ⟨hlen, Or.inr hw⟩
    · rintro ⟨hlen, hw | hw⟩
      · have htake := List.prefix_iff_eq_take.1 hw
        rw [hlen] at htake
        exact Or.inl htake
      · exact Or.inr ⟨hlen, hw⟩
  | [] => iff_of_false nofun (not_infix_of_short (by simp))
  | [_] => iff_of_false nofun (not_infix_of_short (by simp))
  | [_, _] => iff_of_false nofun (not_infix_of_short (by simp))

theorem mem_triples {k s : String} : k ∈ triples s ↔ k.length = 3 ∧ k.toList <:+: s.toList := by
  unfold triples
  rw [List.mem_map]
  constructor
  · rintro ⟨w, hw, rfl⟩
    rw [← String.length_toList, String.toList_ofList]
    exact mem_windows.1 hw
  · rintro ⟨hlen, hk⟩
    rw [← String.length_toList] at hlen
    exact ⟨k.toList, mem_windows.2 ⟨hlen, hk⟩, String.ofList_toList⟩

/-! ### Names -/

theorem SymbolKind.sameNames_iff {kind : SymbolKind} {a b : String} : kind.sameNames a b = true ↔
    if kind = .constant ∨ kind = .var then a = b else Text.asciiLower a = Text.asciiLower b := by
  unfold sameNames
  cases kind <;> simp [respectsCase, Text.sameFolded_iff]

/-! ### Matching symbols -/

namespace Symbol

/-- Runs of three characters of the short name in lower case are keys, except of a namespace. -/
theorem mem_keys_of_infix {s : Symbol} (hs : s.kind ≠ .space) {k : String} (hlen : k.length = 3)
    (hk : k.toList <:+: (Text.lower s.shortName).toList) : k ∈ s.keys := by
  have hshort : Text.lower s.shortName = Text.lastSegment (Text.lower s.name) := Text.lower_lastSegment s.name
  rw [mem_keys, if_neg hs]
  refine ⟨?_, Or.inl (mem_triples.2 ⟨hlen, hshort ▸ hk⟩)⟩
  rintro rfl
  exact absurd hlen (by decide)

/-- Whether a symbol matches a query in lower case: it has a key that begins with the query, or in a fuzzy search with a
query of sufficient length, a run of three characters of the query as a key. -/
def Matches (fuzzyMin : Nat) (fuzzy : Bool) (query : String) (s : Symbol) : Prop :=
  (∃ k ∈ s.keys, query.toList <+: k.toList) ∨
    fuzzy = true ∧ fuzzyMin ≤ query.length ∧ ∃ k ∈ s.keys, k.length = 3 ∧ k.toList <:+: query.toList

/-- A fuzzy search finds a symbol by any part of its short name that is long enough. -/
theorem matches_of_infix {s : Symbol} (hs : s.kind ≠ .space) {fuzzyMin : Nat} {query : String}
    (hlen : max 3 fuzzyMin ≤ query.length) (hq : query.toList <:+: (Text.lower s.shortName).toList) :
    s.Matches fuzzyMin true query := by
  have hthree : 3 ≤ query.toList.length := by
    rw [String.length_toList]
    omega
  -- the first three characters will do
  have hstart : (query.toList.take 3) <:+: query.toList := (List.take_prefix 3 query.toList).isInfix
  have hk : (String.ofList (query.toList.take 3)).length = 3 := by
    rw [← String.length_toList, String.toList_ofList, List.length_take]
    omega
  rw [← String.toList_ofList (l := query.toList.take 3)] at hstart
  exact Or.inr ⟨rfl, by omega, _, mem_keys_of_infix hs hk (hstart.trans hq), hk, hstart⟩

theorem matches_fuzzy {fuzzyMin : Nat} {query : String} {s : Symbol} (h : s.Matches fuzzyMin false query) :
    s.Matches fuzzyMin true query :=
  h.imp_right nofun

instance (fuzzyMin : Nat) (fuzzy : Bool) (query : String) (s : Symbol) : Decidable (s.Matches fuzzyMin fuzzy query) :=
  inferInstanceAs (Decidable (_ ∨ _))

end Symbol

section

variable {ι : Type}

/-- Whether an entry stands before another one in the answer to a query: it has a lower rank, or the same one and was
added earlier. -/
def CatalogEntry.Before (query : String) (a b : CatalogEntry ι) : Prop :=
  Catalog.rankOf a.symbol query < Catalog.rankOf b.symbol query ∨
    Catalog.rankOf a.symbol query = Catalog.rankOf b.symbol query ∧ a.sequence < b.sequence

namespace Catalog

/-- Entries in order of their rank and then of their addition. -/
def ranked (query : String) (entries : List (CatalogEntry ι)) : List (CatalogEntry ι) :=
  entries.mergeSort fun a b => inOrder (rankOf a.symbol query, a) (rankOf b.symbol query, b)

/-- The answer of a scan: all entries that match, in order. -/
def answers (fuzzyMin : Nat) (fuzzy : Bool) (query : String) (entries : List (CatalogEntry ι)) :
    List (CatalogEntry ι) :=
  ranked query (entries.filter fun e => decide (e.symbol.Matches fuzzyMin fuzzy query))

/-! ### The order of answers -/

theorem inOrder_iff {query : String} {a b : CatalogEntry ι} :
    inOrder (rankOf a.symbol query, a) (rankOf b.symbol query, b) = true ↔
      rankOf a.symbol query < rankOf b.symbol query ∨
        rankOf a.symbol query = rankOf b.symbol query ∧ a.sequence ≤ b.sequence := by
  simp [inOrder]

private theorem pairwise_ranked (query : String) (entries : List (CatalogEntry ι)) :
    (ranked query entries).Pairwise fun a b =>
      inOrder (rankOf a.symbol query, a) (rankOf b.symbol query, b) = true := by
  apply List.pairwise_mergeSort
  · intro a b c hab hbc
    rw [inOrder_iff] at hab hbc ⊢
    omega
  · intro a b
    rw [Bool.or_eq_true, inOrder_iff, inOrder_iff]
    omega

theorem ranked_perm (query : String) (entries : List (CatalogEntry ι)) : (ranked query entries).Perm entries :=
  List.mergeSort_perm _ _

/-- The ranks may be attached to the entries before they are sorted. -/
private theorem map_ranked (query : String) (entries : List (CatalogEntry ι)) :
    (ranked query entries).map (fun e => (rankOf e.symbol query, e)) =
      (entries.map fun e => (rankOf e.symbol query, e)).mergeSort inOrder :=
  List.map_mergeSort fun _ _ _ _ => rfl

/-- Entries with different numbers have one order only. -/
theorem eq_ranked {query : String} {entries sorted : List (CatalogEntry ι)}
    (hn : (entries.map (·.sequence)).Nodup) (hp : sorted.Perm entries)
    (hs : sorted.Pairwise fun a b => inOrder (rankOf a.symbol query, a) (rankOf b.symbol query, b) = true) :
    sorted = ranked query entries := by
  refine List.Perm.eq_of_pairwise ?_ hs (pairwise_ranked query entries) (hp.trans (ranked_perm query entries).symm)
  intro a b ha hb hab hba
  rw [inOrder_iff] at hab hba
  exact List.inj_on_of_nodup_map hn (hp.subset ha) ((ranked_perm query entries).subset hb) (by omega)

theorem ranked_before {query : String} {entries : List (CatalogEntry ι)} (hn : (entries.map (·.sequence)).Nodup) :
    (ranked query entries).Pairwise (CatalogEntry.Before query) := by
  have hdistinct : (ranked query entries).Pairwise fun a b => a.sequence ≠ b.sequence :=
    List.pairwise_map.1 (((ranked_perm query entries).map _).nodup_iff.2 hn)
  refine ((pairwise_ranked query entries).and hdistinct).imp fun {a b} ⟨hab, hne⟩ => ?_
  rw [inOrder_iff] at hab
  unfold CatalogEntry.Before
  omega

/-! ### A search is a scan -/

theorem mem_answers {fuzzyMin : Nat} {fuzzy : Bool} {query : String} {entries : List (CatalogEntry ι)}
    {e : CatalogEntry ι} :
    e ∈ answers fuzzyMin fuzzy query entries ↔ e ∈ entries ∧ e.symbol.Matches fuzzyMin fuzzy query := by
  unfold answers
  rw [(ranked_perm query _).mem_iff, List.mem_filter, decide_eq_true_iff]

namespace Lists

variable {ix : Catalog ι} {entries : List (CatalogEntry ι)}

theorem mem_itemsAt (h : ix.Lists entries) {k : String} {e : CatalogEntry ι} :
    e ∈ NameMap.itemsAt k ix.names.nodes ↔ e ∈ entries ∧ k ∈ e.symbol.keys := by
  rw [h.itemsAt_eq_filter, List.mem_filter, decide_eq_true_iff]

private theorem mem_startingWith (h : ix.Lists entries) {query : String} (hq : Text.IsLower query)
    {e : CatalogEntry ι} : e ∈ (ix.names.startingWith query).flatMap (·.items) ↔
      e ∈ entries ∧ ∃ k ∈ e.symbol.keys, query.toList <+: k.toList := by
  rw [NameMap.startingWith_eq_filter h.wellFormed, hq.lower_eq, List.mem_flatMap]
  constructor
  · rintro ⟨node, hnode, he⟩
    rw [List.mem_filter, Text.beginsWith_iff] at hnode
    obtain ⟨hmem, hkey⟩ := h.mem_itemsAt.1 (NameMap.mem_itemsAt.2 ⟨node, hnode.1, rfl, he⟩)
    exact ⟨hmem, node.key, hkey, hnode.2⟩
  · rintro ⟨hmem, k, hk, hstart⟩
    obtain ⟨node, hnode, rfl, he⟩ := NameMap.mem_itemsAt.1 (h.mem_itemsAt.2 ⟨hmem, hk⟩)
    exact ⟨node, List.mem_filter.2 ⟨hnode, Text.beginsWith_iff.2 hstart⟩, he⟩

private theorem mem_triples_find (h : ix.Lists entries) {query : String} (hq : Text.IsLower query)
    {e : CatalogEntry ι} : e ∈ (triples query).flatMap ix.names.find ↔
      e ∈ entries ∧ ∃ k ∈ e.symbol.keys, k.length = 3 ∧ k.toList <:+: query.toList := by
  have hfind : ∀ k ∈ triples query, ix.names.find k = NameMap.itemsAt k ix.names.nodes := by
    intro k hk
    have hlower : Text.IsLower k := fun c hc => hq c ((mem_triples.1 hk).2.subset hc)
    rw [NameMap.find_eq_itemsAt h.wellFormed, hlower.lower_eq]
  rw [List.flatMap_congr hfind, List.mem_flatMap]
  constructor
  · rintro ⟨k, hk, he⟩
    obtain ⟨hmem, hkey⟩ := h.mem_itemsAt.1 he
    exact ⟨hmem, k, hkey, mem_triples.1 hk⟩
  · rintro ⟨hmem, k, hkey, hk⟩
    exact ⟨k, mem_triples.2 hk, h.mem_itemsAt.2 ⟨hmem, hkey⟩⟩

/-- The look-ups in the nodes find the entries that match. -/
theorem mem_candidates (h : ix.Lists entries) {query : String} (hq : Text.IsLower query) {fuzzy : Bool}
    {e : CatalogEntry ι} :
    e ∈ ix.candidates query fuzzy ↔ e ∈ entries ∧ e.symbol.Matches ix.fuzzyMin fuzzy query := by
  unfold candidates Symbol.Matches
  rw [List.mem_append, h.mem_startingWith hq]
  by_cases hfuzzy : fuzzy = true ∧ ix.fuzzyMin ≤ query.length
  · rw [if_pos (by simpa using hfuzzy), h.mem_triples_find hq, ← and_or_left]
    simp [hfuzzy]
  · rw [if_neg (by simpa using hfuzzy)]
    simp only [List.not_mem_nil, or_false, ← and_assoc, hfuzzy, false_and]

/-- The catalog answers a query as a scan of its entries does. -/
theorem matching_eq_answers (h : ix.Lists entries) (text : String) (fuzzy : Bool) :
    ix.matching text fuzzy = if Text.lower text = "" then [] else
      (answers ix.fuzzyMin fuzzy (Text.lower text) entries).map (·.symbol) := by
  unfold matching
  simp only [String.isEmpty_iff]
  split
  · rfl
  · have hperm : ((ix.candidates (Text.lower text) fuzzy).eraseDupsBy fun a b => a.sequence == b.sequence).Perm
        (entries.filter fun e => decide (e.symbol.Matches ix.fuzzyMin fuzzy (Text.lower text))) := by
      refine h.eraseDups_perm List.filter_sublist fun e => ?_
      rw [h.mem_candidates (Text.isLower_lower text), List.mem_filter, decide_eq_true_iff]
    have hranked := eq_ranked (h.sequence_nodup.sublist (List.filter_sublist.map _))
      ((ranked_perm (Text.lower text) _).trans hperm) (pairwise_ranked (Text.lower text) _)
    rw [← map_ranked, List.map_map, hranked]
    rfl

end Lists

/-! ### Fuzzy and other answers -/

section

variable {fuzzyMin : Nat} {fuzzy : Bool} {query : String} {entries : List (CatalogEntry ι)}
  (hn : (entries.map (·.sequence)).Nodup)

include hn

theorem answers_nodup : (answers fuzzyMin fuzzy query entries).Nodup :=
  (ranked_perm query _).nodup_iff.2 ((List.Nodup.of_map _ hn).filter _)

theorem answers_before : (answers fuzzyMin fuzzy query entries).Pairwise (CatalogEntry.Before query) :=
  ranked_before (hn.sublist (List.filter_sublist.map _))

/-- A fuzzy search only adds to the answer. -/
theorem answers_sublist :
    (answers fuzzyMin false query entries).Sublist (answers fuzzyMin true query entries) := by
  have hfilter : (answers fuzzyMin true query entries).filter
      (fun e => decide (e.symbol.Matches fuzzyMin false query)) = answers fuzzyMin false query entries := by
    refine eq_ranked (hn.sublist (List.filter_sublist.map _)) ?_ ((pairwise_ranked query _).filter _)
    refine ((ranked_perm query _).filter _).trans (List.Perm.of_eq ?_)
    rw [List.filter_filter]
    apply List.filter_congr
    intro e _
    rw [Bool.and_eq_left_iff_imp, decide_eq_true_iff, decide_eq_true_iff]
    exact Symbol.matches_fuzzy
  rw [← hfilter]
  exact List.filter_sublist

/-- What stands before an answer has no higher rank. -/
theorem answers_split {e : CatalogEntry ι} (he : e ∈ answers fuzzyMin fuzzy query entries) :
    ∃ front back, answers fuzzyMin fuzzy query entries = front ++ e :: back ∧
      ∀ o ∈ front, rankOf o.symbol query ≤ rankOf e.symbol query := by
  obtain ⟨front, back, hsplit⟩ := List.append_of_mem he
  have hbefore : (answers fuzzyMin fuzzy query entries).Pairwise (CatalogEntry.Before query) := answers_before hn
  rw [hsplit, List.pairwise_append] at hbefore
  refine ⟨front, back, hsplit, fun o ho => ?_⟩
  have ho := hbefore.2.2 o ho e List.mem_cons_self
  unfold CatalogEntry.Before at ho
  omega

end

/-! ### Ranks -/

/-- A symbol has rank 0 if its name or its short name begins with the query, rank 1 if its short name has the query
further on, and rank 2 otherwise.  Dollar signs in front of the query and of the short name do not count. -/
theorem rankOf_spec (s : Symbol) (query : String) :
    let plain := query.toList.dropWhile (· == '$')
    let short := (Text.lower s.shortName).toList.dropWhile (· == '$')
    let begins := plain <+: short ∨ plain <+: (Text.lower s.name).toList
    (rankOf s query = 0 ↔ begins) ∧ (rankOf s query = 1 ↔ ¬ begins ∧ plain <:+: short) ∧
      (rankOf s query = 2 ↔ ¬ begins ∧ ¬ plain <:+: short) := by
  intro plain short begins
  have hbegins : (plain.isPrefixOf short || plain.isPrefixOf (Text.lower s.name).toList) = true ↔ begins := by
    rw [Bool.or_eq_true, List.isPrefixOf_iff_prefix, List.isPrefixOf_iff_prefix]
  have hrank : rankOf s query =
      if plain.isPrefixOf short || plain.isPrefixOf (Text.lower s.name).toList then 0
      else if Text.occursIn plain short then 1 else 2 :=
    rfl
  rw [hrank]
  simp only [hbegins, Text.occursIn_iff]
  by_cases hb : begins
  · simp [hb]
  · by_cases ho : plain <:+: short
    · simp [hb, ho]
    · simp [hb, ho]

/-- A text stays inside of another one when some characters are dropped at the start of both. -/
private theorem infix_dropWhile (p : Char → Bool) {part cs : List Char} (h : part <:+: cs) :
    part.dropWhile p <:+: cs.dropWhile p := by
  induction cs generalizing part with
  | nil =>
    obtain rfl := List.infix_nil.1 h
    exact List.infix_rfl
  | cons c cs ih =>
    by_cases hc : p c = true
    · rw [List.dropWhile_cons_of_pos hc]
      rcases List.infix_cons_iff.1 h with hstart | hlater
      · cases part with
        | nil => exact List.nil_infix
        | cons d part =>
          obtain ⟨rfl, hpart⟩ := List.cons_prefix_cons.1 hstart
          rw [List.dropWhile_cons_of_pos hc]
          exact ih hpart.isInfix
      · exact ih hlater
    · rw [List.dropWhile_cons_of_neg hc]
      exact (List.dropWhile_suffix p).isInfix.trans h

/-- A symbol whose short name contains the query has no rank behind those. -/
theorem rankOf_lt_two {s : Symbol} {query : String} (h : query.toList <:+: (Text.lower s.shortName).toList) :
    rankOf s query < 2 := by
  have hpart := infix_dropWhile (· == '$') h
  obtain ⟨hzero, hone, -⟩ := rankOf_spec s query
  by_cases hrank : rankOf s query = 0
  · omega
  · have hrank' : rankOf s query = 1 := hone.2 ⟨fun hbegins => hrank (hzero.2 hbegins), hpart⟩
    omega

/-! ### After any changes -/

variable [DecidableEq ι] (symbolOf : ι → Symbol)

theorem fuzzyMin_run (fuzzyMin : Nat) (steps : List (CatalogStep ι)) :
    (run symbolOf fuzzyMin steps).fuzzyMin = fuzzyMin := by
  have hfold : ∀ ix : Catalog ι, (steps.foldl (step symbolOf) ix).fuzzyMin = ix.fuzzyMin := by
    induction steps with
    | nil => exact fun _ => rfl
    | cons first steps ih =>
      intro ix
      rw [List.foldl_cons, ih]
      cases first <;> rfl
  exact hfold (empty fuzzyMin)

theorem matching_run_eq (fuzzyMin : Nat) (steps : List (CatalogStep ι)) (text : String) (fuzzy : Bool) :
    (run symbolOf fuzzyMin steps).matching text fuzzy = if Text.lower text = "" then [] else
      (answers fuzzyMin fuzzy (Text.lower text) (liveEntries symbolOf 0 steps)).map (·.symbol) := by
  rw [(lists_run symbolOf fuzzyMin steps).matching_eq_answers, fuzzyMin_run]

/-- After any changes a query is answered by the live entries that match it, each once, in order of their ranks and then
of their numbers; an empty query is not answered.  A fuzzy search only adds to the answer, and finds every symbol but a
namespace whose short name contains a query of sufficient length, before all those that have the last rank. -/
theorem matching_run (fuzzyMin : Nat) (steps : List (CatalogStep ι)) (text : String) :
    let live := liveEntries symbolOf 0 steps
    let query := Text.lower text
    let found := fun fuzzy => answers fuzzyMin fuzzy query live
    (∀ fuzzy, (run symbolOf fuzzyMin steps).matching text fuzzy =
      if query = "" then [] else (found fuzzy).map (·.symbol)) ∧
    (∀ fuzzy, (found fuzzy).Nodup ∧ (found fuzzy).Pairwise (CatalogEntry.Before query) ∧
      ∀ e, e ∈ found fuzzy ↔ e ∈ live ∧ e.symbol.Matches fuzzyMin fuzzy query) ∧
    (found false).Sublist (found true) ∧
    ∀ e ∈ live, e.symbol.kind ≠ .space → max 3 fuzzyMin ≤ query.length →
      query.toList <:+: (Text.lower e.symbol.shortName).toList →
        ∃ front back, found true = front ++ e :: back ∧ ∀ o ∈ front, rankOf o.symbol query ≠ 2 := by
  have hn := (lists_run symbolOf fuzzyMin steps).sequence_nodup
  refine ⟨fun fuzzy => matching_run_eq symbolOf fuzzyMin steps text fuzzy, fun fuzzy => ⟨?_, ?_, fun e => mem_answers⟩,
    answers_sublist hn, ?_⟩
  · exact answers_nodup hn
  · exact answers_before hn
  · intro e he hspace hlen hpart
    have hmatch := Symbol.matches_of_infix hspace hlen hpart
    obtain ⟨front, back, hsplit, hfront⟩ := answers_split hn (mem_answers.2 ⟨he, hmatch⟩)
    have hrank := rankOf_lt_two hpart
    refine ⟨front, back, hsplit, fun o ho => ?_⟩
    have hle := hfront o ho
    omega

/-- Looking up a text finds the live entries that have it as their name, in order of their numbers: constants and
variables by their exact name, and all others up to the case of ASCII letters, whatever other characters there are. -/
theorem find_run (fuzzyMin : Nat) (steps : List (CatalogStep ι)) (text : String) :
    let live := liveEntries symbolOf 0 steps
    (run symbolOf fuzzyMin steps).find text =
      (live.filter fun e => decide (e.symbol.name ≠ "" ∧
        if e.symbol.kind = .constant ∨ e.symbol.kind = .var then e.symbol.name = text
        else Text.asciiLower e.symbol.name = Text.asciiLower text)).map (·.symbol) ∧
    live.Pairwise (fun a b => a.sequence < b.sequence) := by
  have hlists := lists_run symbolOf fuzzyMin steps
  refine ⟨?_, hlists.ordered⟩
  rw [hlists.find_eq_filter]
  congr 1
  apply List.filter_congr
  intro e _
  rw [Bool.eq_iff_iff, Bool.and_eq_true, decide_eq_true_iff, decide_eq_true_iff, SymbolKind.sameNames_iff]

/-- A symbol is found by a start of its name, unless the start breaks off at a capital sigma and begins no other key. -/
theorem found_by_start_iff (fuzzyMin : Nat) {steps : List (CatalogStep ι)} {e : CatalogEntry ι}
    (he : e ∈ liveEntries symbolOf 0 steps) {start rest : List Char} (hstart : start ≠ [])
    (hname : e.symbol.name = String.ofList (start ++ rest)) :
    let query := Text.lower (String.ofList start)
    let found := answers fuzzyMin false query (liveEntries symbolOf 0 steps)
    (run symbolOf fuzzyMin steps).matching (String.ofList start) false = found.map (·.symbol) ∧
    (e ∈ found ↔ ¬ Text.BreaksAtSigma start rest ∨
      ∃ k ∈ e.symbol.keys, k ≠ Text.lower e.symbol.name ∧ query.toList <+: k.toList) := by
  have hquery : Text.lower (String.ofList start) ≠ "" := by
    apply Text.lower_ne_empty
    simpa using hstart
  have hnonempty : e.symbol.name ≠ "" := by
    rw [hname]
    simp [hstart]
  have hbegins : (Text.lower (String.ofList start)).toList <+: (Text.lower e.symbol.name).toList ↔
      ¬ Text.BreaksAtSigma start rest := by
    rw [hname]
    exact Text.lower_prefix_iff start rest
  refine ⟨by rw [matching_run_eq, if_neg hquery], ?_⟩
  rw [mem_answers]
  constructor
  · rintro ⟨-, ⟨k, hk, hstart⟩ | ⟨hfuzzy, -⟩⟩
    · by_cases hkey : k = Text.lower e.symbol.name
      · exact Or.inl (hbegins.1 (hkey ▸ hstart))
      · exact Or.inr ⟨k, hk, hkey, hstart⟩
    · exact nomatch hfuzzy
  · rintro (hsigma | ⟨k, hk, -, hstart⟩)
    · exact ⟨he, Or.inl ⟨_, Symbol.lower_name_mem_keys hnonempty, hbegins.2 hsigma⟩⟩
    · exact ⟨he, Or.inl ⟨k, hk, hstart⟩⟩

/-- A sigma at the end of a word stays there when the text goes on with another word. -/
theorem found_by_start_segment :
    let symbolOf := fun _ : Unit => Symbol.bare .space "ΑΣ\\Α"
    let entry : CatalogEntry Unit := ⟨0, (), symbolOf ()⟩
    let start := ['Α', 'Σ']
    let rest := ['\\', 'Α']
    entry ∈ liveEntries symbolOf 0 [.add ()] ∧ start ≠ [] ∧ entry.symbol.name = String.ofList (start ++ rest) ∧
      ¬ Text.BreaksAtSigma start rest ∧
      entry ∈ answers 3 false (Text.lower (String.ofList start)) (liveEntries symbolOf 0 [.add ()]) ∧
      entry.symbol ∈ (run symbolOf 3 [.add ()]).matching (String.ofList start) false := by
  intro symbolOf entry start rest
  have hlive : entry ∈ liveEntries symbolOf 0 [.add ()] := List.mem_singleton.2 rfl
  have hstart : start ≠ [] := List.cons_ne_nil _ _
  have hname : entry.symbol.name = String.ofList (start ++ rest) := by decide
  have hsigma : ¬ Text.BreaksAtSigma start rest := by
    rintro ⟨front, back, -, -, -, hrest⟩
    exact absurd hrest (by decide +kernel)
  obtain ⟨hmatching, hfound⟩ := found_by_start_iff symbolOf 3 hlive hstart hname
  refine ⟨hlive, hstart, hname, hsigma, hfound.2 (Or.inl hsigma), ?_⟩
  rw [hmatching]
  exact List.mem_map_of_mem (hfound.2 (Or.inl hsigma))

/-- The only key of a name with a sigma in the middle. -/
private theorem keys_sigma {k : String} (hk : k ∈ (Symbol.bare .cls "ΑΣΑ").keys) : k = "ασα" := by
  have hname : (Symbol.bare .cls "ΑΣΑ").name = "ΑΣΑ" := rfl
  have hlower : Text.lower "ΑΣΑ" = "ασα" := by decide +kernel
  have hshort : Text.lastSegment "ασα" = "ασα" := by decide +kernel
  have hruns : triples "ασα" = ["ασα"] := by decide +kernel
  have hletters : abbreviation? "ΑΣΑ" = none := by decide +kernel
  obtain ⟨-, hkey⟩ := Symbol.mem_keys.1 hk
  rw [if_neg (by decide), hname, hlower, hshort, hruns, hletters] at hkey
  simpa using hkey

/-- A symbol is not found by the first two letters of its name, of which the second is a sigma in the middle of it. -/
theorem start_missed :
    ∃ e ∈ liveEntries (fun _ : Unit => Symbol.bare .cls "ΑΣΑ") 0 [.add ()],
      e.symbol.name ≠ "" ∧ "ΑΣ" ≠ "" ∧ "ΑΣ".toList <+: e.symbol.name.toList ∧
      e.symbol ∉ (run (fun _ : Unit => Symbol.bare .cls "ΑΣΑ") 3 [.add ()]).matching "ΑΣ" false := by
  refine ⟨⟨0, (), Symbol.bare .cls "ΑΣΑ"⟩, List.mem_singleton.2 rfl, by decide, by decide, by decide, ?_⟩
  have hlower : Text.lower "ΑΣ" = "ας" := by decide +kernel
  rw [matching_run_eq, hlower, if_neg (by decide), List.mem_map]
  rintro ⟨e, he, -⟩
  obtain ⟨hlive, hmatch⟩ := mem_answers.1 he
  obtain rfl : e = ⟨0, (), Symbol.bare .cls "ΑΣΑ"⟩ := List.mem_singleton.1 hlive
  rcases hmatch with ⟨k, hk, hstart⟩ | ⟨hfuzzy, -⟩
  · rw [keys_sigma hk] at hstart
    exact absurd hstart (by decide +kernel)
  · exact nomatch hfuzzy

end Catalog

end

end CodeAtlas
