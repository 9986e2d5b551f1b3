import CodeAtlas.Tree.Document

/-!
# Building documents

A builder takes the tokens of a document one by one, writes a text that holds them in that order, separated where
they would otherwise run together, and collects them in a tree.  Surplus `close` steps do nothing and phrases left
open are closed at the end.
-/

namespace CodeAtlas

structure Builder where
  text : String
  /-- The phrase that takes the next token. -/
  current : Phrase
  /-- The phrases around it, innermost first. -/
  outer : List Phrase
  /-- The kind of the token just written, unless a line was ended after it. -/
  last : Option TokenKind

namespace Builder

def empty : Builder :=
  { text := "<?php\n", current := ⟨.statementList, []⟩, outer := [], last := none }

/-- Tokens that attach to what stands before them. -/
def isTightBefore : TokenKind → Bool
  | .backslash | .openParen | .closeParen | .openBracket | .closeBracket | .semicolon | .comma | .arrow
  | .nullsafeArrow | .colonColon => true
  | _ => false

/-- Tokens that attach to what stands after them. -/
def isTightAfter : TokenKind → Bool
  | .backslash | .openParen | .openBracket | .arrow | .nullsafeArrow | .colonColon | .question => true
  | _ => false

/-- Tokens that end their line. -/
def endsLine : TokenKind → Bool
  | .semicolon | .openBrace | .closeBrace | .documentComment => true
  | _ => false

def wantsBlank (b : Builder) (next : TokenKind) : Bool :=
  match b.last with
  | none => false
  | some last => !(isTightBefore next || isTightAfter last)

def offset (b : Builder) : Nat :=
  b.text.utf8ByteSize

def append (parent : Phrase) (child : Node) : Phrase :=
  { parent with children := parent.children ++ [child] }

def enter (b : Builder) (kind : PhraseKind) : Builder :=
  { b with current := ⟨kind, []⟩, outer := b.current :: b.outer }

def close (b : Builder) : Builder :=
  match b.outer with
  | [] => b
  | parent :: rest => { b with current := append parent b.current.toNode, outer := rest }

def newline (b : Builder) : Builder :=
  { b with text := b.text ++ "\n", last := none }

def token (b : Builder) (kind : TokenKind) (text : String) : Builder :=
  let before := if b.wantsBlank kind then b.text ++ " " else b.text
  let node := Node.token ⟨kind, before.utf8ByteSize, text.utf8ByteSize⟩
  let b := { b with text := before ++ text, current := append b.current node, last := some kind }
  if endsLine kind then b.newline else b

def name (b : Builder) (text : String) : Builder :=
  b.token .name text

/-- The segments of a name with backslashes between them. -/
def segments (b : Builder) : List String → Builder
  | [] => b
  | [s] => b.name s
  | s :: rest => segments ((b.name s).token .backslash "\\") rest

def namespaceName (b : Builder) (text : String) : Builder :=
  ((b.enter .namespaceName).segments (Text.split '\\' text)).close

/-- A name in the form in which `text` is written: with a leading backslash, after `namespace`, or plain. -/
def qualifiedName (b : Builder) (text : String) : Builder :=
  match Text.afterStart? "\\" text with
  | some rest => (((b.enter .fullyQualifiedName).token .backslash "\\").namespaceName rest).close
  | none =>
    match Text.afterStart? "namespace\\" text with
    | some rest =>
      ((((b.enter .relativeQualifiedName).token .namespaceKeyword "namespace").token .backslash
        "\\").namespaceName rest).close
    | none => ((b.enter .qualifiedName).namespaceName text).close

/-- A variable written `name`, as a phrase of its own. -/
def simpleVariable (b : Builder) (name : String) : Builder :=
  ((b.enter .simpleVariable).token .variableName name).close

/-- The outermost phrase once every open phrase is closed. -/
def closed (current : Phrase) : List Phrase → Phrase
  | [] => current
  | parent :: rest => closed (append parent current.toNode) rest

def finish (b : Builder) (uri : String) : Document :=
  ⟨uri, b.text, closed b.current b.outer⟩

end Builder

end CodeAtlas
