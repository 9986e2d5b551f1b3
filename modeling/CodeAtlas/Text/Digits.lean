/-!
# Digits

Reading runs of decimal and hexadecimal digits as numbers, and telling which decimals a double can hold.
-/

namespace CodeAtlas.Text

def isDigit (c : Char) : Bool :=
  '0' ≤ c && c ≤ '9'

/-- The number written by a run of decimal digits. -/
def ofDigits (cs : List Char) : Nat :=
  cs.foldl (fun n c => 10 * n + (c.toNat - '0'.toNat)) 0

/-- The value of a hexadecimal digit in either case. -/
def hexDigit? (c : Char) : Option Nat :=
  if isDigit c then some (c.toNat - '0'.toNat)
  else if 'a' ≤ c ∧ c ≤ 'f' then some (c.toNat - 'a'.toNat + 10)
  else if 'A' ≤ c ∧ c ≤ 'F' then some (c.toNat - 'A'.toNat + 10)
  else none

/-- The number written by hexadecimal digits, if all of them are. -/
def ofHex? (cs : List Char) : Option Nat :=
  cs.foldlM (fun n c => (hexDigit? c).map (16 * n + ·)) 0

/-- The hexadecimal digit of a number below 16, in lower case. -/
def hexDigit (n : Nat) : Char :=
  if n < 10 then Char.ofNat ('0'.toNat + n) else Char.ofNat ('a'.toNat + (n - 10))

/-! ### Bounds -/

/-- One more than the largest word of 32 bits. -/
def wordBound : Nat := 0x100000000

/-- One more than the largest word of 64 bits. -/
def longWordBound : Nat := 0x10000000000000000

/-- The midpoint between the largest double and the next power of two; from here on numbers round to infinity. -/
def overflowBound : Nat :=
  Nat.pow 2 1024 - Nat.pow 2 970

/-- Whether a double can hold `digits * 10 ^ exponent` without overflowing. -/
def fitsDouble (digits : Nat) (exponent : Int) : Bool :=
  digits == 0 ||
    match exponent with
    | .ofNat e => e ≤ 400 && digits * Nat.pow 10 e < overflowBound
    | .negSucc e => e ≥ digits.log2 || digits < overflowBound * Nat.pow 10 (e + 1)

/-- The double nearest to a natural number: 53 binary digits are kept, and a tie goes to the even neighbour. -/
def nearestDouble (n : Nat) : Nat :=
  let unit := Nat.pow 2 (n.log2 - 52)
  let low := n / unit
  let rest := n % unit
  if 2 * rest < unit || (2 * rest == unit && low % 2 == 0) then low * unit else (low + 1) * unit

/-- The first digits of `digits * 10 ^ exponent`, as many as fit in 64 bits, with the power of ten that goes with
them. -/
def leadingWord (digits : Nat) (exponent : Int) : Nat × Int :=
  if digits < longWordBound then (digits, exponent) else leadingWord (digits / 10) (exponent + 1)
termination_by digits
decreasing_by
  simp only [longWordBound] at *
  omega

/-- Whether the product of the first digits and the power of ten, each rounded to a double, does not overflow. -/
def fitsRounded (digits : Nat) (exponent : Int) : Bool :=
  match leadingWord digits exponent with
  | (0, _) => true
  | (_, .negSucc _) => true
  | (n, .ofNat e) => e ≤ 308 && nearestDouble n * nearestDouble (Nat.pow 10 e) < overflowBound

end CodeAtlas.Text
