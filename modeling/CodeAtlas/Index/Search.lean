import CodeAtlas.Text.Cut

/-!
# Searching sorted lists

A search is driven by a comparison of an element with the sought key: `lt` means that the element stands before the
key.  On a list sorted accordingly, the elements before the key form a run at its start.
-/

namespace CodeAtlas.Search

variable {α : Type}

/-- The number of elements before the first one that fails `p`; where `p` holds first and then fails, the place at
which the list is parted. -/
def partitionPoint (p : α → Bool) (l : List α) : Nat :=
  (l.takeWhile p).length

/-- The place of the key, which is the number of elements before it, and whether the element at that place equals the
key. -/
def search (order : α → Ordering) (l : List α) : Nat × Bool :=
  let rank := partitionPoint (fun a => order a == .lt) l
  (rank, l[rank]?.any fun a => order a == .eq)

/-- The element at the place of the key, if it equals the key. -/
def find? (order : α → Ordering) (l : List α) : Option α :=
  match search order l with
  | (rank, true) => l[rank]?
  | (_, false) => none

def rank (order : α → Ordering) (l : List α) : Nat :=
  (search order l).1

/-- The elements from the first one not before the lower key up to the last one not after the upper key. -/
def range (lower upper : α → Ordering) (l : List α) : List α :=
  let tail := l.drop (partitionPoint (fun a => lower a == .lt) l)
  tail.take (partitionPoint (fun a => upper a != .gt) tail)

/-- Compares a text with a start: every text that begins with it counts as equal. -/
def compareStart (candidate start : String) : Ordering :=
  if Text.beginsWith candidate start then .eq else compare candidate start

end CodeAtlas.Search
