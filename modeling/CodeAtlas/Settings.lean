/-!
# Settings

What can be tuned in a workspace.
-/

namespace CodeAtlas

structure Settings where
  /-- The most answers to a search for symbols; zero means that there is no limit. -/
  symbolLimit : Nat := 100
  /-- Whether members of classes are in the catalog of symbols. -/
  listMembers : Bool := true
  /-- Shorter queries are matched by their start only. -/
  fuzzyMin : Nat := 3
  deriving DecidableEq, Repr

/-- At most as many answers as the settings allow. -/
def Settings.limit {α : Type} (s : Settings) (answers : List α) : List α :=
  if s.symbolLimit = 0 then answers else answers.take s.symbolLimit

end CodeAtlas
