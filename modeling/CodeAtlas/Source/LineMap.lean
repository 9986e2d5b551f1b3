import CodeAtlas.Source.Position

/-!
# Byte offsets and positions

A line map holds the offset at which each line of a text starts, and the length of the text in bytes.  It turns
offsets into positions and back; what lies past the end of the text is moved to its end.
-/

namespace CodeAtlas

structure LineMap where
  /-- The offset of the first byte of each line, in increasing order; the first line starts at zero. -/
  starts : List Nat
  length : Nat

namespace LineMap

/-- The starts of the lines that begin inside the text, whose first character has the offset `offset`. -/
def startsAfter (offset : Nat) : List Char → List Nat
  | [] => []
  | c :: cs =>
    if c = '\n' then (offset + 1) :: startsAfter (offset + 1) cs else startsAfter (offset + c.utf8Size) cs

def ofText (text : String) : LineMap :=
  { starts := 0 :: startsAfter 0 text.toList, length := text.utf8ByteSize }

def lineCount (ix : LineMap) : Nat :=
  ix.starts.length

def positionAt (ix : LineMap) (offset : Nat) : Position :=
  let o := min offset ix.length
  let before := ix.starts.takeWhile (· ≤ o)
  ⟨before.length - 1, o - before.getLastD 0⟩

def offsetAt (ix : LineMap) (p : Position) : Nat :=
  match ix.starts[p.line]? with
  | some start => min (start + p.character) ix.length
  | none => ix.length

/-- The range of `length` bytes from `offset` on. -/
def range (ix : LineMap) (offset length : Nat) : Range :=
  ⟨ix.positionAt offset, ix.positionAt (offset + length)⟩

end LineMap

end CodeAtlas
