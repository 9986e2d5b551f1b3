import CodeAtlas.Pool.Hierarchy
import CodeAtlas.Proofs.Keyed
import Mathlib.Data.List.Induction

/-!
# Merged members

Members are merged one after the other, each against the one that holds the place of its key.  What ends up there
depends on the members with that key only (`contend_of_mem_mergeAll`), and it is what a choice among all of them gives,
provided that one more member at the end changes this choice as it changes the holder of the place (`foldl_contend`).
For the strategy that looks at the documentation the choice is `bestDocumented`: an own documentation first, then a
declaration of its own, then the nearest member.
-/

namespace CodeAtlas.Hierarchy

/-! ### The place of a key -/

/-- Who holds a place after one more member has claimed it. -/
def contend (strategy : MergeStrategy) (holder : Option Symbol) (member : Symbol) : Option Symbol :=
  match holder with
  | none => some member
  | some s => some (if replaces strategy s member then member else s)

theorem mergeKey_contend (strategy : MergeStrategy) {s member : Symbol} (h : mergeKey s = mergeKey member) :
    mergeKey (if replaces strategy s member then member else s) = mergeKey member := by
  split
  · rfl
  · exact h

theorem find?_mergeInto (strategy : MergeStrategy) (member : Symbol) (merged : List Symbol) (k : SymbolKind × String) :
    (mergeInto strategy member merged).find? (mergeKey · == k) =
      if mergeKey member = k then contend strategy (merged.find? (mergeKey · == k)) member
      else merged.find? (mergeKey · == k) := by
  induction merged with
  | nil =>
    by_cases hk : mergeKey member = k
    · simp [mergeInto, contend, hk]
    · simp [mergeInto, hk]
  | cons s rest ih =>
    rw [mergeInto]
    by_cases hs : mergeKey s = mergeKey member
    · rw [if_pos hs, List.find?_cons, List.find?_cons, mergeKey_contend strategy hs, hs]
      by_cases hk : mergeKey member = k
      · simp [hk, contend]
      · simp [hk, beq_eq_false_iff_ne.2 hk]
    · rw [if_neg hs, List.find?_cons, List.find?_cons, ih]
      by_cases hk : mergeKey member = k
      · have hne : (mergeKey s == k) = false := beq_eq_false_iff_ne.2 fun h => hs (h.trans hk.symm)
        simp [hk, hne]
      · simp [hk]

/-- A place is contended for by the members with its key only. -/
theorem find?_foldl_mergeInto (strategy : MergeStrategy) (members merged : List Symbol) (k : SymbolKind × String) :
    (members.foldl (fun merged member => mergeInto strategy member merged) merged).find? (mergeKey · == k) =
      (members.filter (mergeKey · == k)).foldl (contend strategy) (merged.find? (mergeKey · == k)) := by
  induction members generalizing merged with
  | nil => rfl
  | cons member members ih =>
    rw [List.foldl_cons, ih, find?_mergeInto, List.filter_cons]
    by_cases hk : mergeKey member = k
    · simp [hk]
    · simp [hk]

/-! ### The keys in their order -/

theorem map_mergeInto (strategy : MergeStrategy) (member : Symbol) (merged : List Symbol) :
    (mergeInto strategy member merged).map mergeKey =
      if mergeKey member ∈ merged.map mergeKey then merged.map mergeKey
      else merged.map mergeKey ++ [mergeKey member] := by
  induction merged with
  | nil => rfl
  | cons s rest ih =>
    rw [mergeInto]
    by_cases hs : mergeKey s = mergeKey member
    · rw [if_pos hs, List.map_cons, mergeKey_contend strategy hs]
      simp [hs]
    · have hs' : mergeKey member ≠ mergeKey s := Ne.symm hs
      rw [if_neg hs, List.map_cons, ih]
      by_cases hmem : mergeKey member ∈ rest.map mergeKey
      · rw [if_pos hmem, List.map_cons, if_pos (List.mem_cons_of_mem _ hmem)]
      · rw [if_neg hmem, List.map_cons, if_neg (by simpa [hs'] using hmem)]
        rfl

/-- One place for each key, in the order in which the keys first occur. -/
theorem map_mergeAll {strategy : MergeStrategy} (h : strategy ≠ .keepAll) (members : List Symbol) :
    (mergeAll strategy members).map mergeKey = (members.map mergeKey).eraseDups := by
  unfold mergeAll
  rw [if_neg h]
  induction members using List.reverseRecOn with
  | nil => rfl
  | append_singleton members member ih =>
    rw [List.foldl_append, List.foldl_cons, List.foldl_nil, map_mergeInto, ih, List.map_append, List.map_singleton,
      Keyed.eraseDups_concat]
    simp only [List.mem_eraseDups]

/-- What is kept for a key is what the members with that key contend for. -/
theorem contend_of_mem_mergeAll {strategy : MergeStrategy} (h : strategy ≠ .keepAll) {members : List Symbol}
    {s : Symbol} (hs : s ∈ mergeAll strategy members) :
    (members.filter (mergeKey · == mergeKey s)).foldl (contend strategy) none = some s := by
  have hnodup : ((mergeAll strategy members).map mergeKey).Nodup := by
    rw [map_mergeAll h]
    exact Keyed.nodup_eraseDups _
  have hfind := Keyed.find?_eq_some hnodup hs
  unfold mergeAll at hfind
  rwa [if_neg h, find?_foldl_mergeInto] at hfind

/-! ### Choices -/

/-- A choice that one more member changes as it changes the holder of a place is who holds the place in the end. -/
theorem foldl_contend {strategy : MergeStrategy} {choice : List Symbol → Option Symbol} (hnil : choice [] = none)
    (hstep : ∀ l member, choice (l ++ [member]) = contend strategy (choice l) member) (l : List Symbol) :
    l.foldl (contend strategy) none = choice l := by
  induction l using List.reverseRecOn with
  | nil => exact hnil.symm
  | append_singleton l member ih => rw [List.foldl_append, List.foldl_cons, List.foldl_nil, ih, hstep]

theorem getLast?_contend (l : List Symbol) (member : Symbol) :
    (l ++ [member]).getLast? = contend .base l.getLast? member := by
  rw [List.getLast?_concat]
  cases l.getLast? <;> rfl

/-- Documented in its own words, and declared in the code. -/
def isWellDocumented (s : Symbol) : Bool :=
  !s.isMagic && s.isDocumented && !s.inheritsDoc

/-- The first well documented member, or else the first one that is declared in the code, or else the first one. -/
def bestDocumented (l : List Symbol) : Option Symbol :=
  (l.find? isWellDocumented).or ((l.find? (!·.isMagic)).or l.head?)

theorem betterDocumented_eq (current candidate : Symbol) : betterDocumented current candidate =
    (current.isMagic && !candidate.isMagic || !isWellDocumented current && isWellDocumented candidate) := by
  unfold betterDocumented isWellDocumented
  cases current.isMagic <;> cases current.isDocumented <;> cases current.inheritsDoc <;>
    cases candidate.isMagic <;> cases candidate.isDocumented <;> cases candidate.inheritsDoc <;> rfl

theorem bestDocumented_contend (l : List Symbol) (member : Symbol) :
    bestDocumented (l ++ [member]) = contend .documented (bestDocumented l) member := by
  unfold bestDocumented
  rw [List.find?_append, List.find?_append]
  cases hwell : l.find? isWellDocumented with
  | some s =>
    -- a well documented member keeps its place
    have hs : isWellDocumented s = true := List.find?_some hwell
    have hmagic : s.isMagic = false := by
      unfold isWellDocumented at hs
      revert hs
      cases s.isMagic <;> simp
    simp [contend, replaces, betterDocumented_eq, hs, hmagic]
  | none =>
    have hnone : ∀ s ∈ l, isWellDocumented s = false := by simpa using hwell
    cases hown : l.find? (!·.isMagic) with
    | some s =>
      -- a declaration without documentation gives way to a well documented one
      have hs := hnone s (List.mem_of_find?_eq_some hown)
      have hmagic : s.isMagic = false := by simpa using List.find?_some hown
      cases hm : isWellDocumented member <;>
        simp [contend, replaces, betterDocumented_eq, hs, hmagic, hm]
    | none =>
      have hall : ∀ s ∈ l, s.isMagic = true := by simpa using hown
      cases l with
      | nil =>
        cases hm : isWellDocumented member <;> cases hmm : member.isMagic <;> simp [contend, hm, hmm]
      | cons s l =>
        -- a member from a tag gives way to any declaration
        have hs := hnone s List.mem_cons_self
        have hmagic := hall s List.mem_cons_self
        cases hm : isWellDocumented member <;> cases hmm : member.isMagic <;>
          simp [contend, replaces, betterDocumented_eq, hs, hmagic, hm, hmm]

theorem mergeKey_eq (s : Symbol) :
    mergeKey s = (s.kind, if s.kind = .method then Text.lower s.name else s.name) := by
  unfold mergeKey
  simp only [beq_iff_eq]

/-- Without merging the members stay as they are.  Otherwise there is one member for each kind and name, where methods
may be spelled in any case, in the order in which these first occur: the last one if the furthest is wanted, and the
best documented one if the documentation decides. -/
theorem mergeAll_eq_choice (members : List Symbol) :
    let key := fun s : Symbol => (s.kind, if s.kind = .method then Text.lower s.name else s.name)
    mergeAll .keepAll members = members ∧
    (∀ strategy, strategy ≠ .keepAll → (mergeAll strategy members).map key = (members.map key).eraseDups) ∧
    (∀ s ∈ mergeAll .base members, (members.filter (key · == key s)).getLast? = some s) ∧
    ∀ s ∈ mergeAll .documented members, bestDocumented (members.filter (key · == key s)) = some s := by
  intro key
  have hkey : key = mergeKey := funext fun s => (mergeKey_eq s).symm
  rw [hkey]
  refine ⟨rfl, fun strategy h => map_mergeAll h members, fun s hs => ?_, fun s hs => ?_⟩
  · rw [← foldl_contend rfl getLast?_contend]
    exact contend_of_mem_mergeAll (by decide) hs
  · rw [← foldl_contend rfl bestDocumented_contend]
    exact contend_of_mem_mergeAll (by decide) hs

/-- Two spellings of one method, and constants with the same names. -/
private def spellings : List Symbol :=
  [.bare .method "Run", .bare .classConstant "run", .bare .method "run", .bare .classConstant "Run"]

theorem mergeAll_eq_choice_spellings :
    ((mergeAll .documented spellings).map fun s => (s.kind, if s.kind = .method then Text.lower s.name else s.name)) =
        [(.method, "run"), (.classConstant, "run"), (.classConstant, "Run")] ∧
      (mergeAll .documented spellings).map (·.name) = ["Run", "run", "Run"] ∧
      (mergeAll .base spellings).map (·.name) = ["run", "run", "Run"] := by
  obtain ⟨-, hkeys, -⟩ := mergeAll_eq_choice spellings
  exact ⟨(hkeys .documented (by decide)).trans (by decide +kernel), by decide +kernel, by decide +kernel⟩

end CodeAtlas.Hierarchy
