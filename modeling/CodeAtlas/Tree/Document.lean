import CodeAtlas.Text.Cut
import CodeAtlas.Source.LineMap
import CodeAtlas.Tree.Basic

/-!
# Parsed documents

A document is a text under a name, its uri, together with a syntax tree whose tokens point into the text.
-/

namespace CodeAtlas

/-- How a name was written. -/
inductive NameStyle where
  | unqualified | qualified | fullyQualified | relative
  deriving DecidableEq, Repr

structure Document where
  uri : String
  text : String
  tree : Phrase

namespace Document

def lines (d : Document) : LineMap :=
  LineMap.ofText d.text

/-- The text of a token, empty when the token is outside the text or cuts a character. -/
def tokenText (d : Document) (t : Token) : String :=
  Text.slice d.text t.offset t.stop

/-- The text from the first to the last token of a phrase. -/
def phraseText (d : Document) (p : Phrase) : String :=
  match p.span? with
  | some (offset, length) => Text.slice d.text offset (offset + length)
  | none => ""

/-- The name tokens directly inside a phrase, joined with backslashes. -/
def joinedNames (d : Document) (p : Phrase) : String :=
  "\\".intercalate ((p.tokens.filter (·.kind == .name)).map d.tokenText)

/-- The text of a written name and the form it has, if the phrase holds a name at all. -/
def qualifiedName? (d : Document) (p : Phrase) : Option (String × NameStyle) :=
  (p.phrase? .namespaceName).map fun name =>
    let text := d.joinedNames name
    let form :=
      match p.kind with
      | .fullyQualifiedName => NameStyle.fullyQualified
      | .relativeQualifiedName => .relative
      | _ => if text.toList.contains '\\' then .qualified else .unqualified
    (text, form)

end Document

end CodeAtlas
