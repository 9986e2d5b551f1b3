import CodeAtlas.TypeText

/-!
# Documentation comments

A documentation comment is a description followed by tags, one on each line.  The tags that say something about types
are read: `@param`, `@return`, `@var`, `@property` with its variants, `@method` and `@inheritDoc`.  Collections written
as generics become arrays, so that `array<int, Foo>` reads as `Foo[]`.
-/

namespace CodeAtlas

inductive TagAccess where
  | readWrite | read | write
  deriving DecidableEq, Repr

/-- A parameter in a `@method` tag. -/
structure MethodTagParameter where
  type : String
  name : String
  deriving DecidableEq, Repr

inductive DocTag where
  | param (type name description : String)
  | returns (type description : String)
  | var (type : String) (name : Option String) (description : String)
  | property (type name : String) (access : TagAccess) (description : String)
  | method (returnType name : String) (isStatic : Bool) (parameters : List MethodTagParameter) (description : String)
  | inheritDoc
  deriving DecidableEq, Repr

structure DocBlock where
  description : String
  tags : List DocTag
  deriving DecidableEq, Repr

namespace DocBlock

open Text

/-! ### Words -/

/-- The depth of brackets after a character. -/
def depthAfter (depth : Nat) (c : Char) : Nat :=
  if c = '<' ∨ c = '(' ∨ c = '\x7b' then depth + 1
  else if c = '>' ∨ c = ')' ∨ c = '\x7d' then depth - 1
  else depth

/-- A word, and the text from its first character to the end. -/
structure Word where
  chars : List Char
  onward : List Char

def Word.text (w : Word) : String :=
  String.ofList w.chars

/-- The words of a text; `current` holds the characters of an unfinished word in reverse. -/
def wordsFrom (depth : Nat) (current : Option Word) : List Char → List Word
  | [] => (current.map fun w => ⟨w.chars.reverse, w.onward⟩).toList
  | c :: cs =>
    let depth := depthAfter depth c
    if isBlank c && depth == 0 then (current.map fun w => ⟨w.chars.reverse, w.onward⟩).toList ++ wordsFrom depth none cs
    else
      match current with
      | none => wordsFrom depth (some ⟨[c], c :: cs⟩) cs
      | some w => wordsFrom depth (some ⟨c :: w.chars, w.onward⟩) cs

/-- The words between blanks outside all brackets. -/
def words (cs : List Char) : List Word :=
  wordsFrom 0 none cs

/-- The text after the first `n` words. -/
def textAfter (ws : List Word) (n : Nat) : String :=
  match ws[n]? with
  | some w => String.ofList (trimChars w.onward)
  | none => ""

/-! ### Types -/

/-- The generic types that stand for arrays of their last argument. -/
def collections : List String :=
  ["array", "list", "iterable", "non-empty-array", "non-empty-list"]

/-- The name and the arguments of a generic type. -/
def generic? (part : List Char) : Option (List Char × List Char) :=
  (['>'].isSuffixOf? part).bind (splitOnce? (· == '<'))

/-- What stands after the last comma, trimmed. -/
def lastArgument (args : List Char) : List Char :=
  trimChars (args.reverse.takeWhile (· != ',')).reverse

/-- Turns generic collections into arrays and drops the arguments of other generic types; `fuel` bounds the nesting. -/
def arrayFormWithin (fuel : Nat) (cs : List Char) : String :=
  match fuel with
  | 0 => ""
  | fuel + 1 =>
    "|".intercalate <| (TypeText.splitUnionChars cs).map fun part =>
      match generic? part with
      | none => String.ofList part
      | some (base, args) =>
        if collections.any (sameFolded (String.ofList base)) then
          (TypeText.ofText (arrayFormWithin fuel (lastArgument args))).array.text
        else String.ofList base

/-- The type with generic collections written as arrays.  Each level of nesting is shorter, so the length bounds it. -/
def arrayForm (cs : List Char) : String :=
  arrayFormWithin cs.length cs

/-! ### Tags -/

def isVariable (cs : List Char) : Bool :=
  cs.head? == some '$'

/-- A parameter's name without the marks for references and variable arguments. -/
def withoutMarks (cs : List Char) : List Char :=
  cs.dropWhile fun c => c == '&' || c == '.'

def readParam? (rest : List Char) : Option DocTag :=
  let ws := words rest
  let isName := fun (w : Word) => isVariable (withoutMarks w.chars)
  match ws with
  | [] => none
  | w :: tail =>
    if isName w then some (.param "" (String.ofList (withoutMarks w.chars)) (textAfter ws 1))
    else
      match tail with
      | [] => none
      | n :: _ =>
        if isName n then
          some (.param (arrayForm w.chars) (String.ofList (withoutMarks n.chars)) (textAfter ws 2))
        else none

def readReturn? (rest : List Char) : Option DocTag :=
  let ws := words rest
  match ws with
  | [] => none
  | w :: _ => some (.returns (arrayForm w.chars) (textAfter ws 1))

def readVar? (rest : List Char) : Option DocTag :=
  let ws := words rest
  match ws with
  | [] => none
  | w :: tail =>
    if isVariable w.chars then some (.var "" (some w.text) (textAfter ws 1))
    else
      match tail.head?.filter (isVariable ·.chars) with
      | some n => some (.var (arrayForm w.chars) (some n.text) (textAfter ws 2))
      | none => some (.var (arrayForm w.chars) none (textAfter ws 1))

def readProperty? (access : TagAccess) (rest : List Char) : Option DocTag :=
  let ws := words rest
  match ws with
  | [] => none
  | w :: tail =>
    if isVariable w.chars then some (.property "" w.text access (textAfter ws 1))
    else
      match tail.head?.filter (isVariable ·.chars) with
      | some n => some (.property (arrayForm w.chars) n.text access (textAfter ws 2))
      | none => none

def readMethodParameter? (param : List Char) : Option MethodTagParameter :=
  match words (param.takeWhile (· != '=')) with
  | [] => none
  | [n] => some ⟨"", String.ofList (withoutMarks n.chars)⟩
  | t :: n :: _ => some ⟨arrayForm t.chars, String.ofList (withoutMarks n.chars)⟩

/-- What stands before the parentheses of a `@method` tag: whether it is static, the return type and the name. -/
def readMethodHead? (ws : List Word) : Option (Bool × String × String) :=
  match ws with
  | [n] => some (false, "", n.text)
  | [t, n] => some (false, arrayForm t.chars, n.text)
  | [m, t, n] => if sameFolded m.text "static" then some (true, arrayForm t.chars, n.text) else none
  | _ => none

def readMethod? (rest : List Char) : Option DocTag :=
  (splitOnce? (· == '(') rest).bind fun (head, rest) =>
    (splitOnce? (· == ')') rest).bind fun (params, rest) =>
      (readMethodHead? (words head)).map fun (isStatic, returnType, name) =>
        .method returnType name isStatic ((splitChars ',' params).filterMap readMethodParameter?)
          (String.ofList (trimChars rest))

/-- Reads a line that starts with `@`. -/
def readTag? (line : List Char) : Option DocTag :=
  let (tag, rest) :=
    match splitOnce? isBlank line with
    | some (tag, rest) => (tag, trimChars rest)
    | none => (line, [])
  match asciiLower (String.ofList tag) with
  | "@param" => readParam? rest
  | "@return" | "@returns" => readReturn? rest
  | "@var" => readVar? rest
  | "@property" => readProperty? .readWrite rest
  | "@property-read" => readProperty? .read rest
  | "@property-write" => readProperty? .write rest
  | "@method" => readMethod? rest
  | "@inheritdoc" => some .inheritDoc
  | _ => none

/-! ### The whole comment -/

/-- Drops every opening mark at the front. -/
def dropOpening : List Char → List Char
  | '/' :: '*' :: '*' :: rest => dropOpening rest
  | cs => cs

/-- Drops every closing mark from the front of a reversed text. -/
def dropClosing : List Char → List Char
  | '/' :: '*' :: rest => dropClosing rest
  | cs => cs

/-- The lines between the marks, without the stars in front. -/
def contentLines (text : String) : List (List Char) :=
  let body := (dropClosing (dropOpening (trimChars text.toList)).reverse).reverse
  (splitChars '\n' body).map fun line => trimChars ((trimChars line).dropWhile (· == '*'))

def isTagLine (line : List Char) : Bool :=
  line.head? == some '@'

/-- The tags on a line: the mark for inherited documentation anywhere in it, and the tag it starts with. -/
def tagsOf (line : List Char) : List DocTag :=
  (if occursIn "\x7b@inheritdoc\x7d".toList (line.map asciiLowerChar) then [.inheritDoc] else []) ++
    (if isTagLine line then (readTag? line).toList else [])

/-- Reads a comment.  The description is what stands before the first tag line. -/
def parse (text : String) : DocBlock :=
  let lines := contentLines text
  let description := (lines.takeWhile (!isTagLine ·)).filter (!·.isEmpty)
  { description := "\n".intercalate (description.map String.ofList), tags := lines.flatMap tagsOf }

/-! ### Questions about a comment -/

/-- The type and the description of a parameter. -/
def param? (d : DocBlock) (name : String) : Option (String × String) :=
  d.tags.findSome? fun
    | .param type n description => if n = name then some (type, description) else none
    | _ => none

def returnType? (d : DocBlock) : Option String :=
  d.tags.findSome? fun
    | .returns type _ => some type
    | _ => none

/-- The type in the first `@var` tag that names the variable or names none. -/
def typeOfVar? (d : DocBlock) (name : Option String) : Option String :=
  d.tags.findSome? fun
    | .var type none _ => some type
    | .var type (some n) _ => if name = some n then some type else none
    | _ => none

/-- The variables named by `@var` tags, with their types. -/
def variableTypes (d : DocBlock) : List (String × String) :=
  d.tags.filterMap fun
    | .var type (some name) _ => some (name, type)
    | _ => none

def inherits (d : DocBlock) : Bool :=
  d.tags.any (· == .inheritDoc)

end DocBlock

end CodeAtlas
