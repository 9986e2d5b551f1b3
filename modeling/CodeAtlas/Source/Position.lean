/-!
# Positions and ranges

A position is a line and a byte column, both counted from zero, and positions are ordered line first.  A range
contains the positions between its ends, both ends included.
-/

namespace CodeAtlas

structure Position where
  line : Nat
  character : Nat
  deriving DecidableEq, Repr, Inhabited

namespace Position

/-- Positions are ordered by line, then by column. -/
instance : LE Position where
  le a b := a.line < b.line ∨ a.line = b.line ∧ a.character ≤ b.character

instance (a b : Position) : Decidable (a ≤ b) :=
  inferInstanceAs (Decidable (a.line < b.line ∨ a.line = b.line ∧ a.character ≤ b.character))

/-- The later of two positions. -/
def later (a b : Position) : Position :=
  if a ≤ b then b else a

def text (p : Position) : String :=
  toString p.line ++ ":" ++ toString p.character

end Position

structure Range where
  start : Position
  stop : Position
  deriving DecidableEq, Repr, Inhabited

namespace Range

/-- Both ends belong to a range, so a cursor right after a name still touches it. -/
def contains (r : Range) (p : Position) : Bool :=
  r.start ≤ p && p ≤ r.stop

def containsRange (r other : Range) : Bool :=
  r.start ≤ other.start && other.stop ≤ r.stop

/-- Start line, start column, end line, end column. -/
def toList (r : Range) : List Nat :=
  [r.start.line, r.start.character, r.stop.line, r.stop.character]

def text (r : Range) : String :=
  r.start.text ++ "-" ++ r.stop.text

end Range

/-- A range of the document `uri`. -/
structure Location where
  uri : String
  range : Range
  deriving DecidableEq, Repr

end CodeAtlas
