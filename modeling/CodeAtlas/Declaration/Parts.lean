import CodeAtlas.DocBlock
import CodeAtlas.Symbol.Basic
import CodeAtlas.Tree.Document

/-!
# Parts of declarations

What the phrases inside a declaration say: the names in a clause, a declared type, an initial value, the modifiers of
a member and the parameters of a function.  Everything here reads the tree and the naming context and changes neither.
-/

namespace CodeAtlas

/-- A document with its line map. -/
structure Source where
  document : Document
  lines : LineMap

namespace Source

def ofDocument (d : Document) : Source :=
  ⟨d, d.lines⟩

def text (src : Source) (t : Token) : String :=
  src.document.tokenText t

def tokenRange (src : Source) (t : Token) : Range :=
  src.lines.range t.offset t.length

def tokenLocation (src : Source) (t : Token) : Location :=
  ⟨src.document.uri, src.tokenRange t⟩

def range? (src : Source) (p : Phrase) : Option Range :=
  p.span?.map fun (offset, length) => src.lines.range offset length

def location? (src : Source) (p : Phrase) : Option Location :=
  (src.range? p).map fun range => ⟨src.document.uri, range⟩

/-- The symbol with the location of the phrase, if the phrase has one. -/
def placed (src : Source) (s : Symbol) (p : Phrase) : Symbol :=
  match src.location? p with
  | some location => s.withLocation location
  | none => s

/-! ### Names and types -/

/-- The fully qualified name that a written name stands for. -/
def resolvedName? (src : Source) (r : Resolver) (kind : SymbolKind) (p : Phrase) : Option String :=
  (src.document.qualifiedName? p).map fun (text, form) => r.resolve text form kind

mutual

/-- The class names in a node of a clause: a name, or a list of names. -/
def namesInNode (src : Source) (r : Resolver) : Node → List String
  | .token _ => []
  | .phrase kind children =>
    if kind.isQualifiedName then (src.resolvedName? r .cls ⟨kind, children⟩).toList
    else if kind = .qualifiedNameList then namesInNodes src r children
    else []

def namesInNodes (src : Source) (r : Resolver) : List Node → List String
  | [] => []
  | n :: ns => namesInNode src r n ++ namesInNodes src r ns

end

/-- The class names listed in a clause. -/
def listedNames (src : Source) (r : Resolver) (clause : Phrase) : List String :=
  src.namesInNodes r clause.children

/-- The type in a documentation tag, with the words for the current class kept. -/
def documentedType (r : Resolver) (text : String) : TypeText :=
  (TypeText.ofText text).resolveDeferred r

/-- The type that one node of a type declaration names. -/
def writtenPart? (src : Source) (r : Resolver) : Node → Option String
  | .token t =>
    match t.kind with
    | .selfKeyword => some "self"
    | .staticKeyword => some "static"
    | .parentKeyword => some r.baseName
    | .arrayKeyword => some "array"
    | .callableKeyword => some "callable"
    | .name => some (Text.asciiLower (src.text t))
    | _ => none
  | .phrase kind children =>
    if kind.isQualifiedName then
      (src.document.qualifiedName? ⟨kind, children⟩).map fun (text, form) =>
        if TypeText.isReserved text then Text.asciiLower text else r.resolve text form .cls
    else none

/-- The type of a type declaration; a question mark adds `null`. -/
def writtenType (src : Source) (r : Resolver) (declaration : Phrase) : TypeText :=
  let parts := (declaration.children.filterMap (src.writtenPart? r)).filter (!·.isEmpty)
  let type := parts.foldl (fun type part => type.merge (TypeText.ofText part)) TypeText.empty
  if declaration.hasToken .question && !type.isEmpty then type.merge (TypeText.ofText "null") else type

/-- The declared type of a phrase that holds a type declaration, empty without one. -/
def typeOfOwner (src : Source) (r : Resolver) (owner : Phrase) : TypeText :=
  match owner.phrase? .typeDeclaration with
  | some declaration => src.writtenType r declaration
  | none => TypeText.empty

/-- The declared return type of a function with this header. -/
def returnType (src : Source) (r : Resolver) (header : Phrase) : TypeText :=
  match header.phrase? .returnType with
  | some p => src.typeOfOwner r p
  | none => TypeText.empty

/-- The first child that is a written name. -/
def nameChild? (p : Phrase) : Option Phrase :=
  p.phrases.find? (·.kind.isQualifiedName)

mutual

/-- The type of an expression as far as it shows without knowing its surroundings. -/
def plainType (src : Source) (r : Resolver) : Node → TypeText
  | .token t =>
    match t.kind with
    | .integerLiteral => TypeText.ofText "int"
    | .floatingLiteral => TypeText.ofText "float"
    | .stringLiteral => TypeText.ofText "string"
    | _ => TypeText.empty
  | .phrase kind children =>
    match kind with
    | .arrayCreationExpression => TypeText.ofText "array"
    | .constantAccessExpression =>
      match (nameChild? ⟨kind, children⟩).bind src.document.qualifiedName? with
      | none => TypeText.empty
      | some (text, _) =>
        match Text.asciiLower text with
        | "true" | "false" => TypeText.ofText "bool"
        | "null" => TypeText.ofText "null"
        | _ => TypeText.empty
    | .unaryExpression => plainTypeOfLast src r children
    | .objectCreationExpression =>
      match ((Phrase.mk kind children).phrase? .classTypeDesignator).bind nameChild? with
      | none => TypeText.empty
      | some name =>
        match src.resolvedName? r .cls name with
        | none => TypeText.empty
        | some name => TypeText.ofText name
    | _ => TypeText.empty

/-- The type of the last of some nodes. -/
def plainTypeOfLast (src : Source) (r : Resolver) : List Node → TypeText
  | [] => TypeText.empty
  | [n] => plainType src r n
  | _ :: ns => plainTypeOfLast src r ns

end

def isEquals : Node → Bool
  | .token t => t.kind == .equals
  | .phrase _ _ => false

/-- The text and the type of what follows the equals sign of an element. -/
def initialValue (src : Source) (r : Resolver) (element : Phrase) : Option String × TypeText :=
  match element.children.dropWhile (!isEquals ·) with
  | [] => (none, TypeText.empty)
  | _ :: nodes =>
    let text :=
      match Node.firstTokenOf? nodes, Node.lastTokenOf? nodes with
      | some first, some last => Text.slice? src.document.text first.offset last.stop
      | _, _ => none
    let type :=
      match nodes with
      | [node] => src.plainType r node
      | _ => TypeText.empty
    (text, type)

/-! ### Modifiers and documentation -/

/-- The modifier that a keyword stands for. -/
def modifierOf : TokenKind → Modifiers
  | .publicKeyword | .varKeyword => Modifiers.publicBit
  | .protectedKeyword => Modifiers.protectedBit
  | .privateKeyword => Modifiers.privateBit
  | .staticKeyword => Modifiers.staticBit
  | .abstractKeyword => Modifiers.abstractBit
  | .finalKeyword => Modifiers.finalBit
  | .readonlyKeyword => Modifiers.readOnlyBit
  | _ => Modifiers.empty

/-- The modifiers in front of a member; a member without visibility is public. -/
def allModifiers (owner : Phrase) : Modifiers :=
  let listed :=
    match owner.phrase? .memberModifierList with
    | some l => l.tokens
    | none => []
  let modifiers := (listed ++ owner.tokens).foldl (fun m t => m ||| modifierOf t.kind) Modifiers.empty
  if modifiers.meets Modifiers.visibility then modifiers else modifiers ||| Modifiers.publicBit

/-- The documentation of a symbol, absent if it says nothing. -/
def docFrom (description : String) (type : Option TypeText) (inherit : Bool) : Option Documentation :=
  if !description.isEmpty || type.isSome || inherit then some ⟨description, type, inherit⟩ else none

/-! ### Parameters and functions -/

/-- The parameter that a phrase declares, if it names one.  A documented type takes the place of the declared one. -/
def parameter? (src : Source) (r : Resolver) (doc : Option DocBlock) (p : Phrase) : Option Symbol :=
  (p.token? .variableName).map fun token =>
    let name := src.text token
    let variadic := p.hasToken .ellipsis
    let modifiers :=
      (if p.hasToken .ampersand then Modifiers.referenceBit else Modifiers.empty) |||
        (if variadic then Modifiers.variadicBit else Modifiers.empty)
    let declared := src.typeOfOwner r p
    let declared := if variadic then declared.array else declared
    let documented := doc.bind (·.param? name)
    let docType := (documented.map fun (type, _) => documentedType r type).filter (!·.isEmpty)
    let description := (documented.map (·.2)).getD ""
    let symbol :=
      ((src.placed (Symbol.bare .parameter name) p).withModifiers modifiers).withType (docType.getD declared)
    { symbol with value := (src.initialValue r p).1, doc := docFrom description docType false }

def parameters (src : Source) (r : Resolver) (doc : Option DocBlock) (header : Phrase) : List Symbol :=
  match header.phrase? .parameterDeclarationList with
  | none => []
  | some l => (l.phrases.filter (·.kind == .parameterDeclaration)).filterMap (src.parameter? r doc)

/-- A function, method or closure with its parameters as children. -/
def callableSymbol (src : Source) (r : Resolver) (doc : Option DocBlock) (kind : SymbolKind) (name : String)
    (p header : Phrase) : Symbol :=
  let docType := ((doc.bind (·.returnType?)).map (documentedType r)).filter (!·.isEmpty)
  let symbol := (src.placed (Symbol.bare kind name) p).withType (docType.getD (src.returnType r header))
  let symbol := if header.hasToken .ampersand then symbol.withModifiers Modifiers.referenceBit else symbol
  { symbol with
    doc := doc.bind fun doc => docFrom doc.description docType doc.inherits
    children := src.parameters r doc header }

end Source

end CodeAtlas
