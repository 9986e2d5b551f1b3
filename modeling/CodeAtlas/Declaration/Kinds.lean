import CodeAtlas.Declaration.Parts

/-!
# Declarations by kind

The symbols that each kind of declaration phrase stands for: imports, classes, members, functions, closures and
constants.
-/

namespace CodeAtlas

/-- The name of every closure. -/
def closureName : String := "\x7bclosure\x7d"

/-- The name of the anonymous class at an offset of a document. -/
def unnamedClassName (uri : String) (offset : Nat) : String :=
  "#anon#" ++ uri ++ "#" ++ toString offset

namespace Source

/-! ### Namespaces and imports -/

/-- The name of a namespace definition, empty for the global namespace. -/
def spaceName (src : Source) (p : Phrase) : String :=
  match p.phrase? .namespaceName with
  | some name => src.document.joinedNames name
  | none => ""

/-- Whether a namespace definition has a body of its own. -/
def isBraced (p : Phrase) : Bool :=
  p.phrases.any fun child => child.kind == .statementList || child.kind == .compoundStatement

/-- What an import or one of its clauses imports, if it says so. -/
def importedKind (owner : Phrase) (default : SymbolKind) : SymbolKind :=
  if owner.hasToken .functionKeyword then .function
  else if owner.hasToken .constKeyword then .constant
  else default

/-- An import: the rule it adds, and the clause that it is written in. -/
structure Import where
  kind : SymbolKind
  localName : String
  target : String
  clause : Phrase

def Import.rule (i : Import) : ImportedName :=
  ImportedName.of i.kind i.localName i.target

/-- The import of one clause; a clause without a name imports nothing. -/
def importOfClause? (src : Source) (kind : SymbolKind) (outer : String) (clause : Phrase) : Option Import :=
  (clause.phrase? .namespaceName).map fun name =>
    let target := Resolver.joinNames outer (src.document.joinedNames name)
    let localName :=
      match (clause.phrase? .namespaceAliasingClause).bind (·.token? .name) with
      | some token => src.text token
      | none => Text.lastSegment target
    ⟨importedKind clause kind, localName, target, clause⟩

/-- The imports of a use declaration; a name in front of its clauses is common to all of them. -/
def imports (src : Source) (p : Phrase) : List Import :=
  let kind := importedKind p .cls
  let outer := src.spaceName p
  (p.phrases.filter (·.kind == .namespaceUseClause)).filterMap (src.importOfClause? kind outer)

def importSymbol (src : Source) (i : Import) : Symbol :=
  let symbol := (src.placed (Symbol.bare i.kind i.localName) i.clause).withModifiers Modifiers.importBit
  { symbol with associated := [⟨i.kind, i.target⟩] }

/-! ### Classes -/

/-- The kind of a class-like declaration, and the kind of its header. -/
def classKinds : PhraseKind → SymbolKind × PhraseKind
  | .interfaceDeclaration => (.interface, .interfaceDeclarationHeader)
  | .traitDeclaration => (.trait, .traitDeclarationHeader)
  | _ => (.cls, .classDeclarationHeader)

/-- The base class and the interfaces named in a header. -/
def parents (src : Source) (r : Resolver) (kind : SymbolKind) (header : Phrase) : List SymbolLink :=
  let namesOf := fun (clause : Option Phrase) =>
    match clause with
    | some clause => src.listedNames r clause
    | none => []
  let bases := (namesOf (header.phrase? .classBaseClause)).take 1
  let interfaces :=
    namesOf (header.phrase? (if kind == .interface then .interfaceBaseClause else .classInterfaceClause))
  bases.map (SymbolLink.mk .cls ·) ++ interfaces.map (SymbolLink.mk .interface ·)

/-- A class, interface or trait without its members. -/
def classSymbol (src : Source) (r : Resolver) (p : Phrase) : Symbol :=
  let (kind, headerKind) := classKinds p.kind
  match p.phrase? headerKind with
  | none => src.placed (Symbol.bare kind "") p
  | some header =>
    let name :=
      match header.token? .name with
      | some token => r.relative (src.text token)
      | none => ""
    let kept := Modifiers.abstractBit ||| Modifiers.finalBit ||| Modifiers.readOnlyBit
    let symbol := (src.placed (Symbol.bare kind name) p).withModifiers (allModifiers header &&& kept)
    { symbol with associated := src.parents r kind header }

def anonymousClassSymbol (src : Source) (r : Resolver) (p : Phrase) : Symbol :=
  let offset := (p.span?.map (·.1)).getD 0
  let name := unnamedClassName src.document.uri offset
  let symbol := (src.placed (Symbol.bare .cls name) p).withModifiers Modifiers.anonymousBit
  match p.phrase? .anonymousClassDeclarationHeader with
  | none => symbol
  | some header => { symbol with associated := src.parents r .cls header }

/-- The member that a tag in the documentation of a class declares. -/
def taggedMember? (r : Resolver) : DocTag → Option Symbol
  | .property type name access description =>
    let modifiers :=
      match access with
      | .readWrite => Modifiers.magicBit ||| Modifiers.publicBit
      | .read => Modifiers.magicBit ||| Modifiers.publicBit ||| Modifiers.readOnlyBit
      | .write => Modifiers.magicBit ||| Modifiers.publicBit ||| Modifiers.writeOnlyBit
    let symbol := ((Symbol.bare .property name).withModifiers modifiers).withType (documentedType r type)
    some { symbol with doc := docFrom description none false }
  | .method type name isStatic parameters description =>
    let modifiers := Modifiers.magicBit ||| Modifiers.publicBit
    let modifiers := if isStatic then modifiers ||| Modifiers.staticBit else modifiers
    let symbol := ((Symbol.bare .method name).withModifiers modifiers).withType (documentedType r type)
    some { symbol with
      doc := docFrom description none false
      children := parameters.map fun p => (Symbol.bare .parameter p.name).withType (documentedType r p.type) }
  | _ => none

/-- The members that the documentation of a class declares; they share the location of the class. -/
def taggedMembers (r : Resolver) (doc : DocBlock) (location : Option Location) : List Symbol :=
  (doc.tags.filterMap (taggedMember? r)).map fun s => { s with scope := some r.className, location := location }

/-- A class with its documentation and the members declared there; `r` is the context inside the class. -/
def withClassDoc (r : Resolver) (doc : Option DocBlock) (s : Symbol) : Symbol :=
  match doc with
  | none => s
  | some doc =>
    { s with
      doc := docFrom doc.description none doc.inherits
      children := s.children ++ taggedMembers r doc s.location }

/-! ### Members -/

/-- The class constants of a declaration. -/
def classConstants (src : Source) (r : Resolver) (doc : Option DocBlock) (p : Phrase) : List Symbol :=
  let modifiers := allModifiers p ||| Modifiers.staticBit
  let docType := (doc.bind (·.typeOfVar? none)).map (documentedType r)
  (p.phrases.filter (·.kind == .classConstElement)).filterMap fun element =>
    (element.token? .name).map fun token =>
      let (value, literal) := src.initialValue r element
      let symbol := (src.placed (Symbol.bare .classConstant (src.text token)) element).withModifiers modifiers
      let symbol := (symbol.withScope r.className).withType (docType.getD literal)
      { symbol with value := value, doc := doc.bind fun doc => docFrom doc.description docType false }

/-- The properties of a declaration: the documented type comes first, then the declared one, then that of the initial
value. -/
def properties (src : Source) (r : Resolver) (doc : Option DocBlock) (p : Phrase) : List Symbol :=
  let modifiers := allModifiers p
  let declared := src.typeOfOwner r p
  (p.phrases.filter (·.kind == .propertyElement)).filterMap fun element =>
    (element.token? .variableName).map fun token =>
      let name := src.text token
      let (value, literal) := src.initialValue r element
      let docType := ((doc.bind (·.typeOfVar? (some name))).map (documentedType r)).filter (!·.isEmpty)
      let effective := docType.getD (if declared.isEmpty then literal else declared)
      let symbol := (src.placed (Symbol.bare .property name) element).withModifiers modifiers
      let symbol := (symbol.withScope r.className).withType effective
      { symbol with
        value := value
        doc := doc.bind fun doc => docFrom doc.description docType doc.inherits }

/-- The properties that the parameters of a constructor declare by carrying modifiers. -/
def constructorProperties (src : Source) (r : Resolver) (header : Phrase) : List Symbol :=
  match header.phrase? .parameterDeclarationList with
  | none => []
  | some l =>
    let promoted := l.phrases.filter fun p =>
      p.kind == .parameterDeclaration && (p.phrase? .memberModifierList).isSome
    promoted.filterMap fun p =>
      (src.parameter? r none p).map fun parameter =>
        let symbol := ((Symbol.bare .property parameter.name).withModifiers (allModifiers p)).withScope r.className
        { symbol with location := parameter.location, type := parameter.type }

/-- The name of a method, empty if it has none. -/
def methodName (src : Source) (header : Phrase) : String :=
  match header.token? .name with
  | some token => src.text token
  | none => ""

/-- Whether a method is declared without a body: it has a body phrase with no statements in it. -/
def lacksBody (p : Phrase) : Bool :=
  match p.phrase? .methodDeclarationBody with
  | none => false
  | some body => (body.phrase? .compoundStatement).isNone

/-- A method; without a body it is abstract in an interface. -/
def methodSymbol (src : Source) (r : Resolver) (doc : Option DocBlock) (inInterface : Bool) (p header : Phrase) :
    Symbol :=
  let symbol := src.callableSymbol r doc .method (src.methodName header) p header
  let symbol := (symbol.withModifiers (allModifiers header)).withScope r.className
  if lacksBody p && inInterface then symbol.withModifiers Modifiers.abstractBit else symbol

/-! ### Functions, closures and constants -/

def functionSymbol (src : Source) (r : Resolver) (doc : Option DocBlock) (p header : Phrase) : Symbol :=
  let name :=
    match header.token? .name with
    | some token => r.relative (src.text token)
    | none => ""
  src.callableSymbol r doc .function name p header

/-- The variables that a closure takes from outside; an ampersand marks the next one as taken by reference. -/
def capturedVariables (src : Source) (byReference : Bool) : List Token → List Symbol
  | [] => []
  | t :: rest =>
    match t.kind with
    | .ampersand => capturedVariables src true rest
    | .variableName =>
      let symbol := (Symbol.bare .var (src.text t)).withLocation (src.tokenLocation t)
      (if byReference then symbol.withModifiers Modifiers.referenceBit else symbol) ::
        capturedVariables src false rest
    | _ => capturedVariables src byReference rest

/-- A closure or arrow function with the given header. -/
def anonymousFunction (src : Source) (r : Resolver) (doc : Option DocBlock) (p header : Phrase) : Symbol :=
  let symbol := (src.callableSymbol r doc .function closureName p header).withModifiers Modifiers.anonymousBit
  if p.hasToken .staticKeyword then symbol.withModifiers Modifiers.staticBit else symbol

def closureSymbol (src : Source) (r : Resolver) (doc : Option DocBlock) (p : Phrase) : Symbol :=
  let header := (p.phrase? .anonymousFunctionHeader).getD p
  let symbol := src.anonymousFunction r doc p header
  match header.phrase? .anonymousFunctionUseClause with
  | none => symbol
  | some uses => { symbol with children := symbol.children ++ src.capturedVariables false uses.tokens }

/-- The constants of a declaration. -/
def constants (src : Source) (r : Resolver) (doc : Option DocBlock) (p : Phrase) : List Symbol :=
  let docType := (doc.bind (·.typeOfVar? none)).map (documentedType r)
  (p.phrases.filter (·.kind == .constElement)).filterMap fun element =>
    (element.token? .name).map fun token =>
      let (value, literal) := src.initialValue r element
      let symbol := src.placed (Symbol.bare .constant (r.relative (src.text token))) element
      let symbol := symbol.withType (docType.getD literal)
      { symbol with value := value, doc := doc.bind fun doc => docFrom doc.description none false }

/-! ### Variables -/

/-- A variable that is given a value, by its token, with the type of the value. -/
structure Assigned where
  token : Token
  type : TypeText

/-- The name token of a plain variable. -/
def nameToken? (p : Phrase) : Option Token :=
  if p.kind == .simpleVariable then p.token? .variableName else none

/-- The variable on the left of an assignment.  Its type is the documented one, or that of the value. -/
def assignedVariable? (src : Source) (r : Resolver) (doc : Option DocBlock) (p : Phrase) : Option Assigned :=
  (p.phrases.head?.bind nameToken?).map fun token =>
    let documented :=
      ((doc.bind (·.typeOfVar? (some (src.text token)))).map (documentedType r)).filter (!·.isEmpty)
    ⟨token, documented.getD (src.plainTypeOfLast r p.children)⟩

/-- The variables for the keys and values of a loop over a collection. -/
def loopVariables (p : Phrase) : List Assigned :=
  let slots := p.phrases.filter fun child => child.kind == .foreachKey || child.kind == .foreachValue
  slots.filterMap fun slot => (slot.phrases.findSome? nameToken?).map (⟨·, TypeText.empty⟩)

/-- The variable of a catch clause, with the union of the classes that are caught. -/
def caughtVariable? (src : Source) (r : Resolver) (p : Phrase) : Option Assigned :=
  (p.token? .variableName).map fun token =>
    let names :=
      match p.phrase? .catchNameList with
      | some l => src.listedNames r l
      | none => []
    ⟨token, names.foldl (fun type name => type.merge (TypeText.ofText name)) TypeText.empty⟩

/-- The variables of a global declaration. -/
def globalVariables (p : Phrase) : List Assigned :=
  (p.phrases.filterMap nameToken?).map (⟨·, TypeText.empty⟩)

end Source

end CodeAtlas
