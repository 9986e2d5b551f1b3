import CodeAtlas.Tree.Kind

/-!
# Syntax trees

A token is a leaf with a place in the text; a phrase is a kind and the list of its children.  A tree may have any
shape: phrases can be empty or out of place, and tokens need not lie inside the text.
-/

namespace CodeAtlas

/-- A leaf: `length` bytes of the text from `offset` on. -/
structure Token where
  kind : TokenKind
  offset : Nat
  length : Nat
  deriving DecidableEq, Repr

namespace Token

def stop (t : Token) : Nat :=
  t.offset + t.length

end Token

/-- A child of a phrase: a token, or a phrase given by its kind and its children. -/
inductive Node where
  | token (t : Token)
  | phrase (kind : PhraseKind) (children : List Node)

structure Phrase where
  kind : PhraseKind
  children : List Node

namespace Node

def asPhrase? : Node → Option Phrase
  | .token _ => none
  | .phrase kind children => some ⟨kind, children⟩

def asToken? : Node → Option Token
  | .token t => some t
  | .phrase _ _ => none

mutual

/-- The leftmost token at or below the node. -/
def firstToken? : Node → Option Token
  | .token t => some t
  | .phrase _ children => firstTokenOf? children

def firstTokenOf? : List Node → Option Token
  | [] => none
  | n :: ns => n.firstToken?.or (firstTokenOf? ns)

end

mutual

/-- The rightmost token at or below the node. -/
def lastToken? : Node → Option Token
  | .token t => some t
  | .phrase _ children => lastTokenOf? children

def lastTokenOf? : List Node → Option Token
  | [] => none
  | n :: ns => (lastTokenOf? ns).or n.lastToken?

end

end Node

namespace Phrase

def toNode (p : Phrase) : Node :=
  .phrase p.kind p.children

def phrases (p : Phrase) : List Phrase :=
  p.children.filterMap Node.asPhrase?

def tokens (p : Phrase) : List Token :=
  p.children.filterMap Node.asToken?

/-- The first child phrase of the given kind. -/
def phrase? (p : Phrase) (kind : PhraseKind) : Option Phrase :=
  p.phrases.find? (·.kind == kind)

/-- The first child token of the given kind. -/
def token? (p : Phrase) (kind : TokenKind) : Option Token :=
  p.tokens.find? (·.kind == kind)

def hasToken (p : Phrase) (kind : TokenKind) : Bool :=
  (p.token? kind).isSome

def firstToken? (p : Phrase) : Option Token :=
  Node.firstTokenOf? p.children

def lastToken? (p : Phrase) : Option Token :=
  Node.lastTokenOf? p.children

/-- The offset of the first token and the distance from there to the end of the last one. -/
def span? (p : Phrase) : Option (Nat × Nat) :=
  match p.firstToken?, p.lastToken? with
  | some first, some last => some (first.offset, last.stop - first.offset)
  | _, _ => none

end Phrase

end CodeAtlas
