/-!
# Cutting texts

Splitting and cutting on lists of characters, and byte slices of a text.  Offsets into a text count the bytes of its
UTF-8 form, so a slice exists only when both of its ends fall between two characters.
-/

namespace CodeAtlas.Text

/-- Puts a character in front of the first piece. -/
def consFirst (c : Char) : List (List Char) → List (List Char)
  | [] => [[c]]
  | piece :: pieces => (c :: piece) :: pieces

/-- The pieces between the occurrences of `sep`; `n` separators give `n + 1` pieces. -/
def splitChars (sep : Char) : List Char → List (List Char)
  | [] => [[]]
  | c :: cs => if c = sep then [] :: splitChars sep cs else consFirst c (splitChars sep cs)

def split (sep : Char) (s : String) : List String :=
  (splitChars sep s.toList).map String.ofList

/-- What stands before and after the first character satisfying `p`, if there is one. -/
def splitOnce? (p : Char → Bool) : List Char → Option (List Char × List Char)
  | [] => none
  | c :: cs => if p c then some ([], cs) else (splitOnce? p cs).map fun (a, b) => (c :: a, b)

/-- Whether `part` occurs somewhere in the list. -/
def occursIn (part : List Char) : List Char → Bool
  | [] => part.isEmpty
  | c :: cs => part.isPrefixOf (c :: cs) || occursIn part cs

/-- Whether `s` begins with `start`. -/
def beginsWith (s start : String) : Bool :=
  start.toList.isPrefixOf s.toList

/-- The part of `s` after `start`, if `s` begins with it. -/
def afterStart? (start : String) (s : String) : Option String :=
  (start.toList.isPrefixOf? s.toList).map String.ofList

/-- The name after the last backslash. -/
def lastSegment (s : String) : String :=
  String.ofList (s.toList.reverse.takeWhile (· != '\\')).reverse

/-- The number of bytes of the UTF-8 form. -/
def byteLength : List Char → Nat
  | [] => 0
  | c :: cs => c.utf8Size + byteLength cs

/-- What is left after the first `n` bytes, unless that cuts a character or runs past the end. -/
def dropBytes? : List Char → Nat → Option (List Char)
  | cs, 0 => some cs
  | [], _ + 1 => none
  | c :: cs, n + 1 => if c.utf8Size ≤ n + 1 then dropBytes? cs (n + 1 - c.utf8Size) else none

/-- The first `n` bytes, unless that cuts a character or runs past the end. -/
def takeBytes? : List Char → Nat → Option (List Char)
  | _, 0 => some []
  | [], _ + 1 => none
  | c :: cs, n + 1 => if c.utf8Size ≤ n + 1 then (takeBytes? cs (n + 1 - c.utf8Size)).map (c :: ·) else none

/-- The bytes from `start` up to `stop`, if the two are in order, inside the text and between characters. -/
def slice? (s : String) (start stop : Nat) : Option String :=
  if stop < start then none
  else (dropBytes? s.toList start).bind fun rest => (takeBytes? rest (stop - start)).map String.ofList

/-- The slice, or nothing where there is no such slice. -/
def slice (s : String) (start stop : Nat) : String :=
  (slice? s start stop).getD ""

end CodeAtlas.Text
