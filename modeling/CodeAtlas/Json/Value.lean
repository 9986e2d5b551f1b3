import CodeAtlas.Text.Digits

/-!
# JSON values

Objects keep their fields in the order in which they are written, repeated ones included.  A string is held as `none`
when an escape in it names one half of a surrogate pair only, so that it denotes no text.
-/

namespace CodeAtlas.Json

/-- A natural number, or any other decimal: its sign, its digits and a power of ten. -/
inductive Number where
  | nat (n : Nat)
  | decimal (negative : Bool) (digits : Nat) (exponent : Int)
  deriving DecidableEq, Repr

inductive Value where
  | null
  | bool (b : Bool)
  | number (n : Number)
  | string (s : Option String)
  | array (items : List Value)
  | object (fields : List (Option String × Value))
  deriving Inhabited

namespace Value

def ofNat (n : Nat) : Value :=
  .number (.nat n)

def ofString (s : String) : Value :=
  .string (some s)

/-- An object with distinct, proper names. -/
def record (fields : List (String × Value)) : Value :=
  .object (fields.map fun (name, value) => (some name, value))

def ofOption {α : Type} (f : α → Value) : Option α → Value
  | none => .null
  | some a => f a

def text? : Value → Option String
  | .string s => s
  | _ => none

def bool? : Value → Option Bool
  | .bool b => some b
  | _ => none

/-- A natural number below `bound`. -/
def natBelow? (bound : Nat) : Value → Option Nat
  | .number (.nat n) => if n < bound then some n else none
  | _ => none

def items? : Value → Option (List Value)
  | .array items => some items
  | _ => none

end Value

/-- Whether the number does not overflow when it is made of doubles. -/
def Number.isFinite : Number → Bool
  | .nat n => Text.fitsRounded n 0
  | .decimal _ digits exponent => Text.fitsRounded digits exponent

namespace Value

mutual

/-- Whether every text is proper, every number finite, and at most `depth` containers are nested. -/
def isPlain (depth : Nat) : Value → Bool
  | .null => true
  | .bool _ => true
  | .number n => n.isFinite
  | .string s => s.isSome
  | .array items => depth != 0 && arePlain (depth - 1) items
  | .object fields => depth != 0 && fieldsArePlain (depth - 1) fields

def arePlain (depth : Nat) : List Value → Bool
  | [] => true
  | v :: vs => isPlain depth v && arePlain depth vs

def fieldsArePlain (depth : Nat) : List (Option String × Value) → Bool
  | [] => true
  | (name, v) :: fields => name.isSome && isPlain depth v && fieldsArePlain depth fields

end

end Value

end CodeAtlas.Json
