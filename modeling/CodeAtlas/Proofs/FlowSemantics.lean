import CodeAtlas.Proofs.FlowEnvironment

/-!
# The flow of types

A structured program assigns variables, branches and opens scopes.  It has two readings: `execute` runs it on a table
of frames, where the arms of a conditional are kept as differences until they are merged, and `meaning` is a map of
environments, in which a conditional is the union of its arms.  Both give the same types at the end of the program and
at every point inside it (`execute_refines_meaning`).
-/

namespace CodeAtlas

/-- Programs that set types; a conditional has at least one arm, and one more that does nothing unless its arms cover
all cases. -/
inductive FlowProgram where
  | skip
  | set (name : String) (type : TypeText)
  | seq (first second : FlowProgram)
  | conditional (arm : FlowProgram) (others : List FlowProgram) (exhaustive : Bool)
  | scope (carried : List String) (body : FlowProgram)

namespace FlowProgram

/-! ### The two readings -/

mutual

/-- Runs a program on the table. -/
def execute : FlowProgram → FlowTypes → FlowTypes
  | .skip, t => t
  | .set name type, t => t.setType name type
  | .seq first second, t => second.execute (first.execute t)
  | .conditional arm others exhaustive, t =>
    let t := executeArms others (arm.execute t.startBranch).endBranch
    (if exhaustive then t else t.startBranch.endBranch).mergeBranches
  | .scope carried body, t => (body.execute (t.enterScope carried)).leaveScope

/-- Runs the arms one after the other, each in a branch of its own. -/
def executeArms : List FlowProgram → FlowTypes → FlowTypes
  | [], t => t
  | arm :: rest, t => executeArms rest (arm.execute t.startBranch).endBranch

end

mutual

/-- The environment after the program. -/
def meaning : FlowProgram → FlowEnv → FlowEnv
  | .skip, env => env
  | .set name type, env => env.assign name type
  | .seq first second, env => second.meaning (first.meaning env)
  | .conditional arm others exhaustive, env =>
    FlowEnv.union (arm.meaning env :: armMeanings others env ++ if exhaustive then [] else [env])
  | .scope _ _, env => env

/-- The environments at the ends of the arms, all of which start from the same one. -/
def armMeanings : List FlowProgram → FlowEnv → List FlowEnv
  | [], _ => []
  | arm :: rest, env => arm.meaning env :: armMeanings rest env

end

mutual

/-- The tables before every part of the program, in the order in which the parts run. -/
def tablesInside : FlowProgram → FlowTypes → List FlowTypes
  | .skip, t => [t]
  | .set _ _, t => [t]
  | .seq first second, t => first.tablesInside t ++ second.tablesInside (first.execute t)
  | .conditional arm others _, t =>
    t :: arm.tablesInside t.startBranch ++ tablesInArms others (arm.execute t.startBranch).endBranch
  | .scope carried body, t => t :: body.tablesInside (t.enterScope carried)

def tablesInArms : List FlowProgram → FlowTypes → List FlowTypes
  | [], _ => []
  | arm :: rest, t => arm.tablesInside t.startBranch ++ tablesInArms rest (arm.execute t.startBranch).endBranch

end

mutual

/-- The environments before every part of the program. -/
def envsInside : FlowProgram → FlowEnv → List FlowEnv
  | .skip, env => [env]
  | .set _ _, env => [env]
  | .seq first second, env => first.envsInside env ++ second.envsInside (first.meaning env)
  | .conditional arm others _, env => env :: arm.envsInside env ++ envsInArms others env
  | .scope carried body, env => env :: body.envsInside (env.carry carried)

def envsInArms : List FlowProgram → FlowEnv → List FlowEnv
  | [], _ => []
  | arm :: rest, env => arm.envsInside env ++ envsInArms rest env

end

/-! ### Refinement -/

/-- What running a program on a table without waiting branches does: it changes the innermost frame only, leaves no
branch behind, and agrees with the meaning of the program at its end and inside. -/
structure Refines (p : FlowProgram) (t : FlowTypes) : Prop where
  below : (p.execute t).below = t.below
  kind : (p.execute t).top.kind = t.top.kind
  branches : (p.execute t).top.branches = []
  environment : (p.execute t).environment = p.meaning t.environment
  inside : (p.tablesInside t).map FlowTypes.environment = p.envsInside t.environment

/-- An arm ends as a branch that waits at the frame below and holds the meaning of the arm as a difference. -/
private theorem endBranch_arm {arm : FlowProgram} {t : FlowTypes} (h : arm.Refines t.startBranch) :
    (arm.execute t.startBranch).endBranch =
        ⟨{ t.top with branches := t.top.branches ++ [(arm.execute t.startBranch).top] }, t.below⟩ ∧
      (arm.execute t.startBranch).top.applyTo t.environment = arm.meaning t.environment := by
  have hkind : (arm.execute t.startBranch).top.kind = .branch := h.kind
  have hbelow : (arm.execute t.startBranch).below = t.top :: t.below := h.below
  constructor
  · unfold FlowTypes.endBranch
    rw [hkind, hbelow]
  · rw [← FlowTypes.environment_of_branch hkind hbelow, h.environment, FlowTypes.environment_startBranch]

private theorem endBranch_startBranch (t : FlowTypes) : t.startBranch.endBranch =
    ⟨{ t.top with branches := t.top.branches ++ [FlowFrame.empty .branch] }, t.below⟩ := rfl

mutual

theorem refines : ∀ (p : FlowProgram) (t : FlowTypes), t.top.branches = [] → p.Refines t
  | .skip, t, ht => by
    constructor <;> simp [execute, meaning, tablesInside, envsInside, ht]
  | .set name type, t, ht => by
    constructor
    · rfl
    · rfl
    · exact ht
    · exact FlowTypes.environment_setType t name type
    · rfl
  | .seq first second, t, ht => by
    have h1 := refines first t ht
    have h2 := refines second (first.execute t) h1.branches
    constructor
    · exact h2.below.trans h1.below
    · exact h2.kind.trans h1.kind
    · exact h2.branches
    · rw [execute, meaning, h2.environment, h1.environment]
    · rw [tablesInside, envsInside, List.map_append, h1.inside, h2.inside, h1.environment]
  | .conditional arm others exhaustive, t, ht => by
    have h1 := refines arm t.startBranch rfl
    obtain ⟨harm, hmeaning⟩ := endBranch_arm h1
    obtain ⟨bs, hothers, hmeanings, hinside⟩ := refines_arms others (arm.execute t.startBranch).endBranch
    rw [harm] at hothers hmeanings hinside
    rw [FlowTypes.environment_withBranches] at hmeanings hinside
    -- all arms wait at the innermost frame, and one more if the arms do not cover all cases
    have hwait : ∃ last : List FlowFrame,
        last.map (·.applyTo t.environment) = (if exhaustive then [] else [t.environment]) ∧
        (if exhaustive then executeArms others (arm.execute t.startBranch).endBranch
          else (executeArms others (arm.execute t.startBranch).endBranch).startBranch.endBranch) =
        ⟨{ t.top with branches := (arm.execute t.startBranch).top :: bs ++ last }, t.below⟩ := by
      rw [harm, hothers]
      cases exhaustive with
      | true => exact ⟨[], rfl, by simp [ht]⟩
      | false => exact ⟨[FlowFrame.empty .branch], rfl, by simp [ht, endBranch_startBranch]⟩
    obtain ⟨last, hlast, hend⟩ := hwait
    have hexec : (conditional arm others exhaustive).execute t = FlowTypes.mergeBranches
        ⟨{ t.top with branches := (arm.execute t.startBranch).top :: bs ++ last }, t.below⟩ := by
      rw [execute, ← hend]
    constructor
    · rw [hexec, FlowTypes.mergeBranches_below]
    · rw [hexec, FlowTypes.mergeBranches_top_kind]
    · rw [hexec, FlowTypes.mergeBranches_top_branches]
    · rw [hexec, FlowTypes.environment_mergeBranches _ (by simp), FlowTypes.environment_withBranches, meaning]
      simp only [List.map_append, List.map_cons, hmeaning, hmeanings, hlast]
    · rw [tablesInside, envsInside, List.map_append, List.map_cons, h1.inside, harm, hinside]
      rfl
  | .scope carried body, t, _ => by
    have h := refines body (t.enterScope carried) (t.enterScope_top_branches carried)
    have hexec : (scope carried body).execute t = t := by
      have hkind : (body.execute (t.enterScope carried)).top.kind = .scope :=
        h.kind.trans (t.enterScope_top_kind carried)
      have hbelow : (body.execute (t.enterScope carried)).below = t.top :: t.below := h.below
      rw [execute, FlowTypes.leaveScope, hkind, hbelow]
    constructor
    · rw [hexec]
    · rw [hexec]
    · rwa [hexec]
    · rw [hexec, meaning]
    · rw [tablesInside, envsInside, List.map_cons, h.inside, FlowTypes.environment_enterScope]

theorem refines_arms : ∀ (arms : List FlowProgram) (t : FlowTypes), ∃ bs,
    executeArms arms t = ⟨{ t.top with branches := t.top.branches ++ bs }, t.below⟩ ∧
      bs.map (·.applyTo t.environment) = armMeanings arms t.environment ∧
      (tablesInArms arms t).map FlowTypes.environment = envsInArms arms t.environment
  | [], ⟨⟨kind, types, branches⟩, below⟩ => ⟨[], by simp [executeArms], rfl, rfl⟩
  | arm :: rest, t => by
    have h1 := refines arm t.startBranch rfl
    obtain ⟨harm, hmeaning⟩ := endBranch_arm h1
    obtain ⟨bs, hrest, hmeanings, hinside⟩ := refines_arms rest (arm.execute t.startBranch).endBranch
    refine ⟨(arm.execute t.startBranch).top :: bs, ?_, ?_, ?_⟩
    · rw [executeArms, hrest, harm]
      simp
    · rw [harm, FlowTypes.environment_withBranches] at hmeanings
      rw [armMeanings, List.map_cons, hmeaning, hmeanings]
    · rw [tablesInArms, envsInArms, List.map_append, h1.inside, hinside, harm]
      rfl

end

/-- Running a program on a table without waiting branches keeps the depth, leaves no branch waiting, and gives every
variable the parts that it has in the environment semantics, after the program and before each of its parts. -/
theorem execute_refines_meaning (p : FlowProgram) (t : FlowTypes) (ht : t.top.branches = []) :
    (p.execute t).depth = t.depth ∧ (p.execute t).top.branches = [] ∧
      (∀ x, (p.execute t).environment x = p.meaning t.environment x) ∧
      (p.tablesInside t).map FlowTypes.environment = p.envsInside t.environment := by
  have h := p.refines t ht
  refine ⟨?_, h.branches, ?_, h.inside⟩
  · unfold FlowTypes.depth
    rw [h.below]
  · exact fun x => congrFun h.environment x

/-- A conditional without `else` inside an open branch: one arm assigns the variable, the other a variable of the same
name in a scope of its own. -/
theorem execute_refines_meaning_in_branch :
    let t := (FlowTypes.empty.setType "$x" ⟨["int"]⟩).startBranch
    let p := conditional (set "$x" ⟨["string"]⟩) [scope ["$x"] (set "$x" ⟨["bool"]⟩)] false
    t.top.branches = [] ∧ (p.execute t).depth = 2 ∧
      ∀ part, part ∈ (p.execute t).environment "$x" ↔ part = "string" ∨ part = "int" := by
  intro t p
  have ht : t.top.branches = [] := rfl
  obtain ⟨hdepth, -, henv, -⟩ := execute_refines_meaning p t ht
  have hx : t.environment "$x" = {part | part ∈ ["int"]} := rfl
  refine ⟨ht, hdepth, fun part => ?_⟩
  rw [henv "$x"]
  simp [p, meaning, armMeanings, FlowEnv.mem_union, FlowEnv.assign, hx]

end FlowProgram

end CodeAtlas
