import CodeAtlas.Text.Ascii
import CodeAtlas.Text.CaseRuns

/-!
# Lower case

Full Unicode lower case of a text.  Every character is mapped on its own, with two exceptions: `İ` becomes two
characters, and a capital sigma at the end of a word becomes `ς`.
-/

namespace CodeAtlas.Text

/-- The Unicode property `Uppercase`. -/
def isUppercase (c : Char) : Bool :=
  if c.toNat < 128 then c.isUpper else uppercaseRuns.any (·.contains c.toNat)

/-- The Unicode property `Lowercase`. -/
def isLowercase (c : Char) : Bool :=
  if c.toNat < 128 then c.isLower else lowercaseRuns.any (·.contains c.toNat)

/-- The Unicode property `Cased`: upper, lower or title case. -/
def isCased (c : Char) : Bool :=
  isUppercase c || isLowercase c || titlecaseRuns.any (·.contains c.toNat)

/-- The Unicode property `Case_Ignorable`: marks and signs that do not end a word. -/
def isCaseIgnorable (c : Char) : Bool :=
  if c.toNat < 128 then c == '\x27' || c == '.' || c == ':' || c == '^' || c == '\x60'
  else caseIgnorableRuns.any (·.contains c.toNat)

/-- The lower case of one character, taken on its own. -/
def lowerChar (c : Char) : List Char :=
  if c.toNat < 128 then [asciiLowerChar c]
  else if c.toNat = 0x130 then ['i', Char.ofNat 0x307]
  else
    match lowerShifts.find? (·.contains c.toNat) with
    | some s => [Char.ofNat (s.target + (c.toNat - s.first))]
    | none => [c]

/-- Whether the first character that cannot be ignored is a cased letter. -/
def meetsCased (cs : List Char) : Bool :=
  match cs.dropWhile isCaseIgnorable with
  | [] => false
  | c :: _ => isCased c

/-- The lower case of a capital sigma between the reversed text `before` and the text `after`. -/
def lowerSigma (before after : List Char) : Char :=
  if meetsCased before && !meetsCased after then 'ς' else 'σ'

/-- The lower case of the second list, which follows the reversed list `before`. -/
def lowerAfter (before : List Char) : List Char → List Char
  | [] => []
  | c :: cs => (if c = 'Σ' then [lowerSigma before cs] else lowerChar c) ++ lowerAfter (c :: before) cs

/-- The full Unicode lower case of a text. -/
def lower (s : String) : String :=
  String.ofList (lowerAfter [] s.toList)

end CodeAtlas.Text
