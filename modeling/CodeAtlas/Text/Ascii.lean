/-!
# ASCII case

Names are compared without regard to the case of the letters `A` to `Z`; every other character stands for itself.
-/

namespace CodeAtlas.Text

/-- The lower case of `A` to `Z`; every other character is kept. -/
def asciiLowerChar (c : Char) : Char :=
  if 'A' ≤ c ∧ c ≤ 'Z' then Char.ofNat (c.toNat + 32) else c

def asciiLower (s : String) : String :=
  String.ofList (s.toList.map asciiLowerChar)

/-- Equality up to the case of ASCII letters. -/
def sameFolded (a b : String) : Bool :=
  a.toList.map asciiLowerChar == b.toList.map asciiLowerChar

end CodeAtlas.Text
