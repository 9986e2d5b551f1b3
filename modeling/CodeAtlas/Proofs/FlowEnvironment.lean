import CodeAtlas.Reference.FlowTypes
import CodeAtlas.Proofs.TypeText
import Mathlib.Data.Set.Lattice

/-!
# The table of variables as an environment

What a table of frames says about each variable, as a set of types (`FlowTypes.environment`), and how the operations on
the table change it.  A branch is a difference to the environment below it (`FlowFrame.applyTo`), and merging the waiting
branches takes the union of what they come to (`environment_mergeBranches`).
-/

namespace CodeAtlas

/-- The possible types of each variable. -/
abbrev FlowEnv := String → Set String

namespace FlowEnv

def assign (env : FlowEnv) (name : String) (type : TypeText) : FlowEnv :=
  fun x => if x = name then {part | part ∈ type.parts} else env x

/-- What a variable can be in one of the environments. -/
def union (envs : List FlowEnv) : FlowEnv :=
  fun x => {part | ∃ env ∈ envs, part ∈ env x}

theorem mem_union {envs : List FlowEnv} {x part : String} :
    part ∈ union envs x ↔ ∃ env ∈ envs, part ∈ env x := Iff.rfl

/-- Only the carried variables are known. -/
def carry (env : FlowEnv) (carried : List String) : FlowEnv :=
  fun x => if x ∈ carried then env x else ∅

end FlowEnv

/-! ### Look-ups -/

namespace FlowFrame

/-- What a variable can be at the end of a branch that began in `env`. -/
def applyTo (b : FlowFrame) (env : FlowEnv) : FlowEnv :=
  fun x =>
    match b.get? x with
    | some type => {part | part ∈ type.parts}
    | none => env x

theorem lookup_assign (name x : String) (type : TypeText) (l : List (String × TypeText)) :
    (assign name type l).lookup x = if x = name then some type else l.lookup x := by
  have hbeq : ∀ {y : String}, x ≠ y → (x == y) = false := fun h => beq_eq_false_iff_ne.2 h
  induction l with
  | nil =>
    by_cases h : x = name
    · simp [assign, h]
    · simp [assign, List.lookup_cons, hbeq h, h]
  | cons a l ih =>
    obtain ⟨n, t⟩ := a
    unfold assign
    by_cases hn : n = name
    · subst hn
      by_cases hx : x = n
      · simp [hx]
      · simp [List.lookup_cons, hbeq hx, hx]
    · rw [if_neg hn]
      by_cases hx : x = n
      · subst hx
        simp [hn]
      · simp only [List.lookup_cons, hbeq hx, ih]

theorem get?_set (f : FlowFrame) (name x : String) (type : TypeText) :
    (f.set name type).get? x = if x = name then some type else f.get? x :=
  lookup_assign name x type f.types

theorem get?_foldl_set (g : String → TypeText) (names : List String) (f : FlowFrame) (x : String) :
    (names.foldl (fun f name => f.set name (g name)) f).get? x = if x ∈ names then some (g x) else f.get? x := by
  induction names generalizing f with
  | nil => simp
  | cons name names ih =>
    rw [List.foldl_cons, ih, get?_set]
    by_cases hx : x = name
    · subst hx
      simp
    · simp [hx]

theorem foldl_set_kind (g : String → TypeText) (names : List String) (f : FlowFrame) :
    (names.foldl (fun f name => f.set name (g name)) f).kind = f.kind := by
  induction names generalizing f with
  | nil => rfl
  | cons name names ih => exact ih (f.set name (g name))

theorem foldl_set_branches (g : String → TypeText) (names : List String) (f : FlowFrame) :
    (names.foldl (fun f name => f.set name (g name)) f).branches = f.branches := by
  induction names generalizing f with
  | nil => rfl
  | cons name names ih => exact ih (f.set name (g name))

theorem mem_names {f : FlowFrame} {x : String} : x ∈ f.names ↔ f.get? x ≠ none := by
  unfold names get?
  rw [Ne, List.lookup_eq_none_iff]
  simp

end FlowFrame

namespace FlowTypes

/-- The types of the variables in a table. -/
def environment (t : FlowTypes) : FlowEnv :=
  fun x => {part | part ∈ (t.typeOf x).parts}

theorem mem_environment {t : FlowTypes} {x part : String} :
    part ∈ t.environment x ↔ part ∈ (t.typeOf x).parts := Iff.rfl

theorem typeOf_eq (t : FlowTypes) (x : String) :
    t.typeOf x = match t.top.get? x with
      | some type => type
      | none => if t.top.kind = .scope then TypeText.empty else typeIn x t.below := rfl

theorem environment_setType (t : FlowTypes) (name : String) (type : TypeText) :
    (t.setType name type).environment = t.environment.assign name type := by
  funext x
  have hget : (t.setType name type).top.get? x = if x = name then some type else t.top.get? x :=
    FlowFrame.get?_set t.top name x type
  unfold environment FlowEnv.assign
  rw [typeOf_eq, hget]
  by_cases hx : x = name
  · simp [hx]
  · simp only [hx, if_false]
    rfl

/-! ### Scopes and branches -/

theorem enterScope_top_kind (t : FlowTypes) (carried : List String) : (t.enterScope carried).top.kind = .scope :=
  FlowFrame.foldl_set_kind t.typeOf carried (FlowFrame.empty .scope)

theorem enterScope_top_branches (t : FlowTypes) (carried : List String) : (t.enterScope carried).top.branches = [] :=
  FlowFrame.foldl_set_branches t.typeOf carried (FlowFrame.empty .scope)

/-- A scope starts with the carried variables and nothing else. -/
theorem environment_enterScope (t : FlowTypes) (carried : List String) :
    (t.enterScope carried).environment = t.environment.carry carried := by
  funext x
  have hget : (t.enterScope carried).top.get? x = if x ∈ carried then some (t.typeOf x) else none :=
    FlowFrame.get?_foldl_set t.typeOf carried (FlowFrame.empty .scope) x
  unfold environment FlowEnv.carry
  rw [typeOf_eq, hget, enterScope_top_kind]
  by_cases hx : x ∈ carried
  · simp [hx]
  · simp [hx, TypeText.empty]

/-- A branch sees what is below it. -/
theorem environment_startBranch (t : FlowTypes) : t.startBranch.environment = t.environment := rfl

/-- The types in a branch are those that it sets over those below. -/
theorem environment_of_branch {t : FlowTypes} (h : t.top.kind = .branch) {below : FlowTypes}
    (hb : t.below = below.top :: below.below) : t.environment = t.top.applyTo below.environment := by
  funext x
  unfold environment FlowFrame.applyTo
  rw [typeOf_eq]
  cases t.top.get? x with
  | some type => rfl
  | none =>
    simp only [h, hb]
    rfl

/-! ### Merging -/

/-- The branches that wait at the innermost frame play no part in look-ups. -/
theorem environment_withBranches (t : FlowTypes) (branches : List FlowFrame) :
    (FlowTypes.mk { t.top with branches := branches } t.below).environment = t.environment := rfl

theorem mem_mergedType (before : TypeText) (branches : List FlowFrame) (x part : String) :
    part ∈ (mergedType before branches x).parts ↔
      (∃ b ∈ branches, ∃ type, b.get? x = some type ∧ part ∈ type.parts) ∨
        ((∃ b ∈ branches, b.get? x = none) ∧ part ∈ before.parts) := by
  have hfold : ∀ (bs : List FlowFrame) (start : TypeText),
      part ∈ (bs.foldl (fun type b => match b.get? x with
        | some t => type.merge t
        | none => type) start).parts ↔
      part ∈ start.parts ∨ ∃ b ∈ bs, ∃ type, b.get? x = some type ∧ part ∈ type.parts := by
    intro bs
    induction bs with
    | nil => simp
    | cons b bs ih =>
      intro start
      rw [List.foldl_cons, ih]
      cases hb : b.get? x with
      | none => simp [hb]
      | some type => simp [hb, or_assoc]
  -- the type from before is part of the start just when some branch does not set the variable
  refine (hfold branches _).trans (or_comm.trans (or_congr Iff.rfl ?_))
  by_cases hall : ∃ b ∈ branches, b.get? x = none
  · have : ¬ (branches.all fun b => (b.get? x).isSome) = true := by
      obtain ⟨b, hb, hnone⟩ := hall
      rw [List.all_eq_true]
      intro h
      simpa [hnone] using h b hb
    rw [if_neg this]
    exact ⟨fun h => ⟨hall, h⟩, fun h => h.2⟩
  · have : (branches.all fun b => (b.get? x).isSome) = true := by
      rw [List.all_eq_true]
      intro b hb
      rw [Option.isSome_iff_ne_none]
      exact fun h => hall ⟨b, hb, h⟩
    rw [if_pos this]
    simp [TypeText.empty, hall]

/-- The names that some branch sets. -/
private def setNames (branches : List FlowFrame) : List String :=
  (branches.flatMap FlowFrame.names).eraseDups

private theorem mem_setNames {branches : List FlowFrame} {x : String} :
    x ∈ setNames branches ↔ ∃ b ∈ branches, b.get? x ≠ none := by
  unfold setNames
  rw [List.mem_eraseDups, List.mem_flatMap]
  simp only [FlowFrame.mem_names]

private theorem foldl_setType (g : String → TypeText) (names : List String) (t : FlowTypes) :
    (names.map fun name => (name, g name)).foldl (fun t (name, type) => t.setType name type) t =
      ⟨names.foldl (fun f name => f.set name (g name)) t.top, t.below⟩ := by
  induction names generalizing t with
  | nil => rfl
  | cons name names ih => exact ih (t.setType name (g name))

private theorem mergeBranches_eq (t : FlowTypes) : t.mergeBranches =
    ⟨(setNames t.top.branches).foldl
      (fun f name => f.set name (mergedType (t.typeOf name) t.top.branches name))
      { t.top with branches := [] }, t.below⟩ :=
  foldl_setType (fun name => mergedType (t.typeOf name) t.top.branches name) (setNames t.top.branches) _

theorem mergeBranches_below (t : FlowTypes) : t.mergeBranches.below = t.below := by
  rw [mergeBranches_eq]

theorem mergeBranches_top_kind (t : FlowTypes) : t.mergeBranches.top.kind = t.top.kind := by
  rw [mergeBranches_eq]
  exact FlowFrame.foldl_set_kind _ _ _

theorem mergeBranches_top_branches (t : FlowTypes) : t.mergeBranches.top.branches = [] := by
  rw [mergeBranches_eq]
  exact FlowFrame.foldl_set_branches _ _ _

/-- A part at the end of some branch is one that the branch sets, or one from before that it does not set. -/
private theorem mem_union_applyTo (t : FlowTypes) (branches : List FlowFrame) (x part : String) :
    part ∈ FlowEnv.union (branches.map (·.applyTo t.environment)) x ↔
      (∃ b ∈ branches, ∃ type, b.get? x = some type ∧ part ∈ type.parts) ∨
        ((∃ b ∈ branches, b.get? x = none) ∧ part ∈ (t.typeOf x).parts) := by
  have happly : ∀ b : FlowFrame, part ∈ b.applyTo t.environment x ↔
      (∃ type, b.get? x = some type ∧ part ∈ type.parts) ∨ (b.get? x = none ∧ part ∈ (t.typeOf x).parts) := by
    intro b
    unfold FlowFrame.applyTo
    cases b.get? x <;> simp [environment]
  rw [FlowEnv.mem_union]
  constructor
  · rintro ⟨env, henv, hp⟩
    obtain ⟨b, hb, rfl⟩ := List.mem_map.1 henv
    rcases (happly b).1 hp with h | h
    · exact Or.inl ⟨b, hb, h⟩
    · exact Or.inr ⟨⟨b, hb, h.1⟩, h.2⟩
  · rintro (⟨b, hb, h⟩ | ⟨⟨b, hb, h⟩, hp⟩)
    · exact ⟨_, List.mem_map_of_mem hb, (happly b).2 (Or.inl h)⟩
    · exact ⟨_, List.mem_map_of_mem hb, (happly b).2 (Or.inr ⟨h, hp⟩)⟩

/-- Merging gives each variable the union of what it is at the ends of the branches. -/
theorem environment_mergeBranches (t : FlowTypes) (h : t.top.branches ≠ []) :
    t.mergeBranches.environment = FlowEnv.union (t.top.branches.map (·.applyTo t.environment)) := by
  funext x
  ext part
  have hget : t.mergeBranches.top.get? x = if x ∈ setNames t.top.branches then
      some (mergedType (t.typeOf x) t.top.branches x) else t.top.get? x := by
    rw [mergeBranches_eq, FlowFrame.get?_foldl_set]
    rfl
  rw [mem_union_applyTo, mem_environment, typeOf_eq, hget]
  by_cases hx : x ∈ setNames t.top.branches
  · rw [if_pos hx]
    exact mem_mergedType _ _ _ _
  · -- no branch sets the variable, and there is at least one branch
    have hnone : ∀ b ∈ t.top.branches, b.get? x = none := by
      intro b hb
      by_contra hne
      exact hx (mem_setNames.2 ⟨b, hb, hne⟩)
    obtain ⟨b, hb⟩ := List.exists_mem_of_ne_nil _ h
    rw [if_neg hx, mergeBranches_top_kind, mergeBranches_below, ← typeOf_eq]
    constructor
    · exact fun hp => Or.inr ⟨⟨b, hb, hnone b hb⟩, hp⟩
    · rintro (⟨b', hb', type, ht, _⟩ | ⟨_, hp⟩)
      · rw [hnone b' hb'] at ht
        cases ht
      · exact hp

end FlowTypes

end CodeAtlas
