import CodeAtlas.Json.Library
import CodeAtlas.Tree.Document

/-!
# Written documents

The JSON form in which parsers hand over documents: a phrase is a record of its kind and its children, and each child
is marked as a phrase or a token.  Numbers are words of 32 bits.
-/

namespace CodeAtlas

open Json

/-! ### Writing -/

def Token.toJson (t : Token) : Value :=
  .record [("kind", .ofString t.kind.label), ("offset", .ofNat t.offset), ("length", .ofNat t.length)]

namespace Node

mutual

def toJson : Node → Value
  | .token t => .record [("Token", t.toJson)]
  | .phrase kind children =>
    .record [("Phrase", .record [("kind", .ofString kind.label), ("children", .array (toJsonAll children))])]

def toJsonAll : List Node → List Value
  | [] => []
  | n :: rest => toJson n :: toJsonAll rest

end

end Node

def Phrase.toJson (p : Phrase) : Value :=
  .record [("kind", .ofString p.kind.label), ("children", .array (Node.toJsonAll p.children))]

def Document.toJson (d : Document) : Value :=
  .record [("uri", .ofString d.uri), ("text", .ofString d.text), ("tree", d.tree.toJson)]

/-! ### Reading -/

section

variable [Library]

def Token.ofJson? (depth : Nat) (v : Value) : Option Token :=
  match depth with
  | 0 => none
  | depth + 1 =>
    match Library.fields? ["kind", "offset", "length"] v with
    | some [some kind, some offset, some length] => do
      let kind ← (Library.word? depth kind).bind TokenKind.ofLabel?
      let offset ← offset.natBelow? Text.wordBound
      let length ← length.natBelow? Text.wordBound
      some ⟨kind, offset, length⟩
    | _ => none

mutual

/-- Reads a phrase in which at most `depth` containers are nested. -/
def Phrase.ofJson? (depth : Nat) (v : Value) : Option Phrase :=
  match depth with
  | 0 => none
  | depth + 1 =>
    match Library.fields? ["kind", "children"] v with
    | some [some kind, children] => do
      let kind ← (Library.word? depth kind).bind PhraseKind.ofLabel?
      let children ←
        match children with
        | none => some []
        | some v => Node.listOfJson? depth v
      some ⟨kind, children⟩
    | _ => none

def Node.listOfJson? (depth : Nat) (v : Value) : Option (List Node) :=
  match depth with
  | 0 => none
  | depth + 1 => v.items?.bind fun items => items.mapM (Node.ofJson? depth)

def Node.ofJson? (depth : Nat) (v : Value) : Option Node :=
  match depth with
  | 0 => none
  | depth + 1 =>
    match v with
    | .object [(some "Phrase", v)] => (Phrase.ofJson? depth v).map Phrase.toNode
    | .object [(some "Token", v)] => (Token.ofJson? depth v).map Node.token
    | _ => none

end

def Document.ofJson? (depth : Nat) (v : Value) : Option Document :=
  match depth with
  | 0 => none
  | depth + 1 =>
    match Library.fields? ["uri", "text", "tree"] v with
    | some [some uri, some text, some tree] => do
      let uri ← uri.text?
      let text ← text.text?
      let tree ← Phrase.ofJson? depth tree
      some ⟨uri, text, tree⟩
    | _ => none

/-- Reads the JSON text of a document. -/
def Document.ofJsonText? (text : String) : Option Document :=
  (Library.parse? text).bind (Document.ofJson? Library.depthLimit)

end

end CodeAtlas
