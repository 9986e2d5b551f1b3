import CodeAtlas.Text.Blank
import CodeAtlas.Name.Resolver

/-!
# Union types as texts

A type is an ordered set of parts such as `int`, `Foo[]` or `(A|B)[]`, written with `|` between them.  The order only
matters for display: `sameParts` compares types as sets.
-/

namespace CodeAtlas

structure TypeText where
  parts : List String
  deriving DecidableEq, Repr

namespace TypeText

/-! ### Reading and writing -/

/-- The depth of parentheses after a character. -/
def depthAfter (depth : Nat) (c : Char) : Nat :=
  if c = '(' then depth + 1 else if c = ')' then depth - 1 else depth

/-- The pieces between the bars that stand outside all parentheses, from a place at the given depth on. -/
def pieces (depth : Nat) : List Char → List (List Char)
  | [] => [[]]
  | c :: cs =>
    if c = '|' ∧ depth = 0 then [] :: pieces 0 cs
    else Text.consFirst c (pieces (depthAfter depth c) cs)

def splitUnionChars (cs : List Char) : List (List Char) :=
  ((pieces 0 cs).map Text.trimChars).filter (!·.isEmpty)

/-- The parts of a union, trimmed and without empty ones. -/
def splitUnion (text : String) : List String :=
  (splitUnionChars text.toList).map String.ofList

def empty : TypeText :=
  ⟨[]⟩

def isEmpty (t : TypeText) : Bool :=
  t.parts.isEmpty

/-- Adds a part at the end unless it is there already. -/
def insert (t : TypeText) (part : String) : TypeText :=
  if part ∈ t.parts then t else ⟨t.parts ++ [part]⟩

def insertAll (t : TypeText) (parts : List String) : TypeText :=
  parts.foldl insert t

/-- What a written part stands for: `?T` means `T` or `null`. -/
def expand (part : String) : List String :=
  let part := Text.trim part
  match Text.afterStart? "?" part with
  | some inner => [inner, "null"]
  | none => if part.isEmpty then [] else [part]

def ofText (text : String) : TypeText :=
  empty.insertAll ((splitUnion text).flatMap expand)

def text (t : TypeText) : String :=
  "|".intercalate t.parts

/-! ### Comparison -/

/-- Equality as sets, for types whose parts are distinct. -/
def sameParts (a b : TypeText) : Bool :=
  a.parts.length == b.parts.length && a.parts.all (b.parts.contains ·)

/-- The parts in increasing order, the same for all types with the same parts. -/
def sortedParts (t : TypeText) : List String :=
  t.parts.mergeSort (fun a b => decide (a ≤ b))

/-! ### Union and arrays -/

/-- The union, with the parts of the first type before the new ones of the second. -/
def merge (a b : TypeText) : TypeText :=
  a.insertAll b.parts

/-- The type of arrays with elements of this type. -/
def array (t : TypeText) : TypeText :=
  match t.parts with
  | [] => empty
  | [part] => ⟨[part ++ "[]"]⟩
  | parts => ⟨["(" ++ "|".intercalate parts ++ ")[]"]⟩

/-- What stands between an opening parenthesis at the start and a closing one at the end. -/
def inParens? (cs : List Char) : Option (List Char) :=
  match cs with
  | '(' :: rest => [')'].isSuffixOf? rest
  | _ => none

/-- The element types of a part, none if it is not an array. -/
def elementsOf (part : String) : List String :=
  match "[]".toList.isSuffixOf? part.toList with
  | none => []
  | some element =>
    match inParens? element with
    | some inner => (splitUnion (String.ofList inner)).flatMap expand
    | none => [String.ofList element]

/-- The type of the elements; parts that are not arrays have none. -/
def element (t : TypeText) : TypeText :=
  empty.insertAll (t.parts.flatMap elementsOf)

/-! ### Names in types -/

/-- Words that are types by themselves and never class names. -/
def keywords : List String :=
  [ "string", "int", "integer", "float", "double", "bool", "boolean", "true", "false", "null", "void", "never",
    "mixed", "object", "array", "iterable", "callable", "resource", "self", "static", "$this", "parent" ]

def isReserved (name : String) : Bool :=
  keywords.contains (Text.asciiLower name)

/-- The words for the class in which a type is written. -/
def isSelfWord (name : String) : Bool :=
  ["self", "static", "$this"].any (Text.sameFolded · name)

/-- Takes the pairs of brackets off the front of a reversed part, and counts them. -/
def stripBrackets : List Char → List Char × Nat
  | ']' :: '[' :: rest => let (base, n) := stripBrackets rest; (base, n + 1)
  | cs => (cs, 0)

/-- The part without its final pairs of brackets, and their number. -/
def splitArray (part : String) : List Char × Nat :=
  let (base, n) := stripBrackets part.toList.reverse
  (base.reverse, n)

/-- `n` pairs of brackets. -/
def brackets (n : Nat) : String :=
  String.ofList ((List.replicate n ['[', ']']).flatten)

/-- Applies `f` to the name in a part, or to each name of a group in parentheses. -/
def mapPart (f : String → String) (part : String) : String :=
  let (base, n) := splitArray part
  match inParens? base with
  | some inner => "(" ++ "|".intercalate ((splitUnion (String.ofList inner)).map f) ++ ")" ++ brackets n
  | none => f (String.ofList base) ++ brackets n

def mapLeaves (f : String → String) (t : TypeText) : TypeText :=
  empty.insertAll (t.parts.map (mapPart f))

/-- What a name in a type stands for.  With `deferred`, the words for the current class are kept. -/
def resolveName (r : Resolver) (deferred : Bool) (name : String) : String :=
  if isSelfWord name then (if deferred then Text.asciiLower name else r.className)
  else if Text.sameFolded name "parent" then r.baseName
  else if isReserved name then Text.asciiLower name
  else
    match Text.afterStart? "\\" name with
    | some absolute => absolute
    | none => r.resolvePlain name .cls

/-- Every name resolved. -/
def resolve (t : TypeText) (r : Resolver) : TypeText :=
  t.mapLeaves (resolveName r false)

/-- Every name resolved except the words for the current class, which `withSelf` can bind later. -/
def resolveDeferred (t : TypeText) (r : Resolver) : TypeText :=
  t.mapLeaves (resolveName r true)

/-- The words for the current class replaced by `cls`. -/
def withSelf (t : TypeText) (cls : String) : TypeText :=
  t.mapLeaves fun name => if isSelfWord name then cls else name

/-- Whether a word for the current class occurs in the type. -/
def refersToSelf (t : TypeText) : Bool :=
  t.parts.any fun part =>
    let base := (splitArray part).1
    let inner := Text.dropEndWhile (· == ')') (base.dropWhile (· == '('))
    (splitUnion (String.ofList inner)).any isSelfWord

/-- The parts that are names of classes and not arrays. -/
def classNames (t : TypeText) : List String :=
  t.parts.filter fun part => !("[]".toList.isSuffixOf part.toList) && !isReserved part

end TypeText

end CodeAtlas
