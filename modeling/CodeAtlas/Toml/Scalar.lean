import CodeAtlas.Text.Digits
import CodeAtlas.Toml.Value

/-!
# TOML scalars

Strings in their four forms, numbers, booleans, dates and times.
-/

namespace CodeAtlas.Toml

open Text

/-! ### Characters -/

def isSpace (c : Char) : Bool :=
  c == ' ' || c == '\t'

/-- What may stand in a comment or a string on one line. -/
def isPrintable (c : Char) : Bool :=
  c == '\t' || (32 ≤ c.toNat && c.toNat != 127)

/-- The text after a line end, if there is one in front. -/
def afterNewline? : List Char → Option (List Char)
  | '\n' :: rest => some rest
  | '\r' :: '\n' :: rest => some rest
  | _ => none

/-- The character of a code point, if there is one. -/
def charOfCode? (n : Nat) : Option Char :=
  if n.isValidChar then some (Char.ofNat n) else none

/-- The character of a one-letter escape. -/
def simpleEscape? (c : Char) : Option Char :=
  match c with
  | 'b' => some '\x08'
  | 't' => some '\t'
  | 'n' => some '\n'
  | 'f' => some '\x0c'
  | 'r' => some '\r'
  | 'e' => some '\x1b'
  | '"' => some '"'
  | '\\' => some '\\'
  | _ => none

/-- Reads an escape after its backslash: one letter, or a letter and the two, four or eight digits of a code point. -/
def readEscape : List Char → Option (Char × List Char)
  | 'x' :: a :: b :: rest => ((ofHex? [a, b]).bind charOfCode?).map (·, rest)
  | 'u' :: a :: b :: c :: d :: rest => ((ofHex? [a, b, c, d]).bind charOfCode?).map (·, rest)
  | 'U' :: a :: b :: c :: d :: e :: f :: g :: h :: rest =>
    ((ofHex? [a, b, c, d, e, f, g, h]).bind charOfCode?).map (·, rest)
  | c :: rest => (simpleEscape? c).map (·, rest)
  | [] => none

/-! ### Strings -/

/-- Reads a string with escapes on one line, from after its opening quote; `fuel` bounds its length. -/
def readBasic (fuel : Nat) (cs : List Char) : Option (List Char × List Char) :=
  match fuel with
  | 0 => none
  | fuel + 1 =>
    match cs with
    | '"' :: rest => some ([], rest)
    | '\\' :: rest =>
      (readEscape rest).bind fun (c, rest) => (readBasic fuel rest).map fun (s, rest) => (c :: s, rest)
    | c :: rest => if isPrintable c then (readBasic fuel rest).map fun (s, rest) => (c :: s, rest) else none
    | [] => none

/-- Reads a string without escapes on one line, from after its opening quote. -/
def readLiteral : List Char → Option (List Char × List Char)
  | '\x27' :: rest => some ([], rest)
  | c :: rest => if isPrintable c then (readLiteral rest).map fun (s, rest) => (c :: s, rest) else none
  | [] => none

/-- The number of quotes at the front, at most five. -/
def quoteRun (q : Char) (cs : List Char) : Nat :=
  ((cs.take 5).takeWhile (· == q)).length

/-- Drops blanks and line ends. -/
def dropFolded : List Char → List Char
  | '\r' :: '\n' :: rest => dropFolded rest
  | c :: rest => if isSpace c || c == '\n' then dropFolded rest else c :: rest
  | [] => []

/-- Reads a string over several lines from after its opening quotes to after its closing ones, of which up to two more
may belong to the string; with `escapes`, backslashes start escapes or fold lines. -/
def readMultiline (escapes : Bool) (q : Char) (fuel : Nat) (cs : List Char) : Option (List Char × List Char) :=
  match fuel with
  | 0 => none
  | fuel + 1 =>
    if quoteRun q cs ≥ 3 then some (List.replicate (quoteRun q cs - 3) q, cs.drop (quoteRun q cs))
    else
      match afterNewline? cs with
      | some rest => (readMultiline escapes q fuel rest).map fun (s, rest) => ('\n' :: s, rest)
      | none =>
        match cs with
        | [] => none
        | c :: rest =>
          if escapes && c == '\\' then
            match afterNewline? (rest.dropWhile isSpace) with
            | some rest => readMultiline escapes q fuel (dropFolded rest)
            | none =>
              (readEscape rest).bind fun (c, rest) =>
                (readMultiline escapes q fuel rest).map fun (s, rest) => (c :: s, rest)
          else if isPrintable c then (readMultiline escapes q fuel rest).map fun (s, rest) => (c :: s, rest)
          else none

/-- Reads a string of any form; a line end right after the opening quotes of a long one is dropped. -/
def readString (cs : List Char) : Option (List Char × List Char) :=
  let trimmed := fun (rest : List Char) => (afterNewline? rest).getD rest
  match cs with
  | '"' :: '"' :: '"' :: rest => readMultiline true '"' (cs.length + 1) (trimmed rest)
  | '\x27' :: '\x27' :: '\x27' :: rest => readMultiline false '\x27' (cs.length + 1) (trimmed rest)
  | '"' :: rest => readBasic (cs.length + 1) rest
  | '\x27' :: rest => readLiteral rest
  | _ => none

/-! ### Numbers -/

/-- Digits that may have single underscores between them. -/
def plainDigits? (ok : Char → Bool) : List Char → Option (List Char)
  | [] => none
  | [c] => if ok c then some [c] else none
  | c :: '_' :: rest => if ok c then (plainDigits? ok rest).map (c :: ·) else none
  | c :: rest => if ok c then (plainDigits? ok rest).map (c :: ·) else none

def ofBase (base : Nat) (cs : List Char) : Nat :=
  cs.foldl (fun n c => base * n + (hexDigit? c).getD 0) 0

/-- Whether a minus is in front, and the rest after the sign. -/
def readSign : List Char → Bool × List Char
  | '+' :: rest => (false, rest)
  | '-' :: rest => (true, rest)
  | cs => (false, cs)

/-- A number with its sign. -/
def withSign (negative : Bool) (n : Nat) : Int :=
  if negative then -(n : Int) else n

/-- The digits of a decimal number without superfluous zeros in front. -/
def wholeDigits? (cs : List Char) : Option (List Char) :=
  (plainDigits? isDigit cs).filter fun ds => ds.head? != some '0' || ds.length == 1

/-- The integers that fit in 128 bits, with or without a sign. -/
def inRange (n : Int) : Bool :=
  -0x80000000000000000000000000000000 ≤ n && n < 0x100000000000000000000000000000000

def integer? (cs : List Char) : Option Int :=
  let n : Option Int :=
    match cs with
    | '0' :: 'x' :: rest => (plainDigits? (fun c => (hexDigit? c).isSome) rest).map fun ds => (ofBase 16 ds : Int)
    | '0' :: 'o' :: rest => (plainDigits? (fun c => '0' ≤ c && c ≤ '7') rest).map fun ds => (ofBase 8 ds : Int)
    | '0' :: 'b' :: rest => (plainDigits? (fun c => c == '0' || c == '1') rest).map fun ds => (ofBase 2 ds : Int)
    | _ =>
      let (negative, rest) := readSign cs
      (wholeDigits? rest).map fun ds => withSign negative (ofDigits ds)
  n.filter inRange

/-- The number of an exponent. -/
def exponent? (cs : List Char) : Option Int :=
  let (negative, rest) := readSign cs
  (plainDigits? isDigit rest).map fun ds => withSign negative (ofDigits ds)

/-- The digits of a number with a fraction, an exponent or both, and the power of ten that goes with them. -/
def decimal? (cs : List Char) : Option (Nat × Int) := do
  let isE := fun (c : Char) => c == 'e' || c == 'E'
  let mantissa := cs.takeWhile (!isE ·)
  let power := cs.dropWhile (!isE ·)
  let point := mantissa.dropWhile (· != '.')
  let whole ← wholeDigits? (mantissa.takeWhile (· != '.'))
  let fraction ← if point.isEmpty then some [] else plainDigits? isDigit point.tail
  let exponent ← if power.isEmpty then some 0 else exponent? power.tail
  if point.isEmpty && power.isEmpty then none
  else some (ofDigits (whole ++ fraction), exponent - fraction.length)

/-- Whether the text is a floating point number: one that a double can hold, or one of the words for infinity and
not-a-number. -/
def isFloat (cs : List Char) : Bool :=
  let cs := (readSign cs).2
  cs == ['i', 'n', 'f'] || cs == ['n', 'a', 'n'] ||
    (decimal? cs).any fun (digits, exponent) => fitsDouble digits exponent

/-! ### Dates and times -/

/-- The number of a run of exactly `n` digits. -/
def fixedDigits? (n : Nat) (cs : List Char) : Option Nat :=
  if cs.length = n && cs.all isDigit then some (ofDigits cs) else none

def isLeapYear (year : Nat) : Bool :=
  (year % 4 == 0 && year % 100 != 0) || year % 400 == 0

def daysInMonth (year month : Nat) : Nat :=
  if month == 2 then (if isLeapYear year then 29 else 28)
  else if month == 4 || month == 6 || month == 9 || month == 11 then 30
  else 31

/-- A year, month and day. -/
def isDate (cs : List Char) : Bool :=
  match fixedDigits? 4 (cs.take 4), fixedDigits? 2 ((cs.drop 5).take 2), fixedDigits? 2 (cs.drop 8) with
  | some year, some month, some day =>
    cs[4]? == some '-' && cs[7]? == some '-' && 1 ≤ month && month ≤ 12 && 1 ≤ day && day ≤ daysInMonth year month
  | _, _, _ => false

/-- A second, with an optional fraction. -/
def isSecond (cs : List Char) : Bool :=
  (fixedDigits? 2 (cs.take 2)).any (· ≤ 60) &&
    match cs.drop 2 with
    | [] => true
    | '.' :: fraction => !fraction.isEmpty && fraction.all isDigit
    | _ => false

/-- An hour, a minute and, if wanted, a second. -/
def isTime (cs : List Char) : Bool :=
  (fixedDigits? 2 (cs.take 2)).any (· < 24) && cs[2]? == some ':' &&
    (fixedDigits? 2 ((cs.drop 3).take 2)).any (· < 60) &&
    match cs.drop 5 with
    | [] => true
    | ':' :: rest => isSecond rest
    | _ => false

/-- The distance from universal time. -/
def isOffset (cs : List Char) : Bool :=
  match cs with
  | ['Z'] | ['z'] => true
  | sign :: rest =>
    (sign == '+' || sign == '-') &&
      match fixedDigits? 2 (rest.take 2), fixedDigits? 2 (rest.drop 3) with
      | some hour, some minute => rest[2]? == some ':' && hour < 24 && minute < 60
      | _, _ => false
  | [] => false

/-- A date, a time, or both with an optional offset. -/
def isDatetime (cs : List Char) : Bool :=
  let isClock := fun (c : Char) => isDigit c || c == ':' || c == '.'
  isDate cs || isTime cs ||
    (isDate (cs.take 10) &&
      match cs.drop 10 with
      | sep :: rest =>
        (sep == 'T' || sep == 't' || sep == ' ') && isTime (rest.takeWhile isClock) &&
          (let offset := rest.dropWhile isClock; offset.isEmpty || isOffset offset)
      | [] => false)

/-! ### Scalars without quotes -/

def isScalarChar (c : Char) : Bool :=
  c.isAlphanum || c == '_' || c == '+' || c == '-' || c == '.' || c == ':'

/-- Splits off the characters of a scalar; a date may be followed by a blank and a time. -/
def scalarRun (cs : List Char) : List Char × List Char :=
  let run := cs.takeWhile isScalarChar
  let rest := cs.dropWhile isScalarChar
  match rest with
  | ' ' :: d :: _ =>
    if isDate run && isDigit d then
      let tail := rest.tail
      (run ++ ' ' :: tail.takeWhile isScalarChar, tail.dropWhile isScalarChar)
    else (run, rest)
  | _ => (run, rest)

def readBareScalar (cs : List Char) : Option (Value × List Char) :=
  let (run, rest) := scalarRun cs
  if run == "true".toList then some (.boolean true, rest)
  else if run == "false".toList then some (.boolean false, rest)
  else
    match integer? run with
    | some n => some (.integer n, rest)
    | none =>
      if isFloat run then some (.float (String.ofList run), rest)
      else if isDatetime run then some (.datetime (String.ofList run), rest)
      else none

end CodeAtlas.Toml
