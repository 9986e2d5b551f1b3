/-!
# Modifiers of symbols

A set of modifiers is a word of thirteen bits, one for each modifier.
-/

namespace CodeAtlas

abbrev Modifiers := BitVec 13

namespace Modifiers

def empty : Modifiers := 0
def publicBit : Modifiers := 1
def protectedBit : Modifiers := 2
def privateBit : Modifiers := 4
def finalBit : Modifiers := 8
def abstractBit : Modifiers := 16
def staticBit : Modifiers := 32
def readOnlyBit : Modifiers := 64
def writeOnlyBit : Modifiers := 128
/-- Declared by a documentation tag only. -/
def magicBit : Modifiers := 256
def anonymousBit : Modifiers := 512
def referenceBit : Modifiers := 1024
def variadicBit : Modifiers := 2048
/-- An import and not a declaration. -/
def importBit : Modifiers := 4096

/-- The three bits that say who may see a member. -/
def visibility : Modifiers :=
  publicBit ||| protectedBit ||| privateBit

/-- Whether all modifiers of `other` are in the set. -/
def has (m other : Modifiers) : Bool :=
  m &&& other == other

/-- Whether the two sets share a modifier. -/
def meets (m other : Modifiers) : Bool :=
  m &&& other != 0

/-- The set written as a number; bits without a meaning are dropped. -/
def ofBits (n : Nat) : Modifiers :=
  BitVec.ofNat 13 n

def bits (m : Modifiers) : Nat :=
  m.toNat

end Modifiers

end CodeAtlas
