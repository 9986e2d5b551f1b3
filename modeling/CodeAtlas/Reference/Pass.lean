import CodeAtlas.Declaration.Pass
import CodeAtlas.Reference.Frame
import CodeAtlas.Reference.Scope
import CodeAtlas.Reference.FlowTypes
import CodeAtlas.Pool.Lookup

/-!
# Reading references

A second walk over a tree records every use of a name, with the types that follow from the declarations of the
workspace and from the assignments before it.  Declarations are not read again: each is paired, in order, with the
symbol that the first walk made for it.

The walk keeps a naming context, the types of variables, a cursor for each open declaration and a scope for each open
function; all of them are back where they were when the walk ends.
-/

namespace CodeAtlas

/-- What the walk reads: a document, the uri of its table, and the symbols of the workspace. -/
structure ReferenceInput where
  source : Source
  uri : String
  pool : SymbolPool

structure ReferenceState where
  resolver : Resolver
  locals : FlowTypes
  /-- One frame for each open phrase, innermost first. -/
  frames : List ReferenceFrame
  /-- One cursor for each open declaration, innermost first. -/
  cursors : List Cursor
  /-- One scope for each open function, innermost first; the last one is the file. -/
  scopes : List ScopeTree
  /-- The documentation comment that waits for an assignment. -/
  doc : Option DocBlock

/-- The range of a phrase; one without tokens is at the start of the document. -/
def Source.range (src : Source) (p : Phrase) : Range :=
  (src.range? p).getD ⟨⟨0, 0⟩, ⟨0, 0⟩⟩

namespace ReferenceState

/-- The state before the walk: one scope for the whole file, and a cursor on its symbol. -/
def initial (src : Source) (root : Symbol) : ReferenceState :=
  { resolver := Resolver.empty
    locals := FlowTypes.empty
    frames := []
    cursors := [Cursor.ofSymbol root]
    scopes := [⟨src.lines.range 0 src.document.text.utf8ByteSize, [], []⟩]
    doc := none }

/-- Whether every stack is as it was before the walk. -/
def isRestored (s : ReferenceState) : Bool :=
  s.frames.isEmpty && s.cursors.length == 1 && s.scopes.length == 1 && s.locals.depth == 1 &&
    s.resolver.classes.isEmpty

/-! ### Recording -/

/-- Adds a reference to the innermost scope. -/
def record (s : ReferenceState) (r : Reference) : ReferenceState :=
  match s.scopes with
  | [] => s
  | scope :: rest => { s with scopes := { scope with references := scope.references ++ [r] } :: rest }

/-- The place that the next reference gets. -/
def nextPlace? (s : ReferenceState) : Option Nat :=
  s.scopes.head?.map (·.references.length)

/-- Gives a recorded reference another type. -/
def changeType (s : ReferenceState) (place : Option Nat) (type : TypeText) : ReferenceState :=
  match place, s.scopes with
  | some n, scope :: rest =>
    { s with scopes := { scope with references := scope.references.modify n (·.withType type) } :: rest }
  | _, _ => s

/-- Hands an outcome to the innermost open phrase. -/
def pushOutcome (s : ReferenceState) (o : Outcome) : ReferenceState :=
  match s.frames with
  | [] => s
  | frame :: rest => { s with frames := { frame with outcomes := frame.outcomes ++ [o] } :: rest }

/-- Makes the innermost scope a child of the one around it. -/
def closeScope (s : ReferenceState) : ReferenceState :=
  match s.scopes with
  | scope :: parent :: rest => { s with scopes := { parent with children := parent.children ++ [scope] } :: rest }
  | _ => s

/-! ### Pairing with symbols -/

/-- The next symbol of a family in the innermost open declaration. -/
def nextSymbol? (s : ReferenceState) (family : DeclarationFamily) : Option Symbol :=
  s.cursors.head?.bind (·.next? family)

/-- The state after the next symbol of a family is taken, if there is one. -/
def advance (s : ReferenceState) (family : DeclarationFamily) : ReferenceState :=
  match s.cursors with
  | [] => s
  | c :: rest => if (c.next? family).isSome then { s with cursors := c.advance family :: rest } else s

def pushCursor (s : ReferenceState) (symbol : Symbol) : ReferenceState :=
  { s with cursors := Cursor.ofSymbol symbol :: s.cursors }

/-- Leaves the innermost declaration; the file is never left. -/
def popCursor (s : ReferenceState) : ReferenceState :=
  match s.cursors with
  | _ :: c :: rest => { s with cursors := c :: rest }
  | _ => s

/-- A declared type in which the words for the current class stand for the class around the place. -/
def withSelf (s : ReferenceState) (type : TypeText) : TypeText :=
  if s.resolver.className.isEmpty then type else type.withSelf s.resolver.className

/-! ### Declarations -/

/-- A namespace definition records its name. -/
def spaceDefinition (src : Source) (s : ReferenceState) (p : Phrase) : ReferenceState :=
  let name := src.spaceName p
  let s := { s with resolver := s.resolver.setSpace name }
  match p.phrase? .namespaceName with
  | none => s
  | some namePhrase =>
    if name.isEmpty then s else s.record (Reference.bare .space name (src.range namePhrase))

/-- One clause of a use declaration: its symbol gives the import rule and the reference. -/
def useClause (src : Source) (s : ReferenceState) (clause : Phrase) : ReferenceState :=
  match clause.phrase? .namespaceName with
  | none => s
  | some name =>
    match s.nextSymbol? .imported with
    | none => s
    | some symbol =>
      let s := s.advance .imported
      match symbol.associated.head? with
      | none => s
      | some target =>
        let rule := ImportedName.of symbol.kind symbol.name target.name
        { s with resolver := s.resolver.addImport rule }.record
          (Reference.bare symbol.kind target.name (src.range name))

def importNames (src : Source) (s : ReferenceState) (p : Phrase) : ReferenceState :=
  (p.phrases.filter (·.kind == .namespaceUseClause)).foldl (useClause src) s

/-- Opens a class, after a reference to its name if it has one. -/
def openClassBody (src : Source) (s : ReferenceState) (symbol : Symbol) (name : Option Token) : ReferenceState :=
  let s :=
    match name with
    | none => s
    | some token => s.record (Reference.bare symbol.kind symbol.name (src.tokenRange token))
  let base := (symbol.baseClass?.map (·.name)).getD ""
  { s with resolver := s.resolver.intoClass symbol.name base }.pushCursor symbol

/-- The text of a token, empty if there is none. -/
def textOf (src : Source) (t : Option Token) : String :=
  (t.map src.text).getD ""

def classDeclaration (src : Source) (s : ReferenceState) (p : Phrase) : ReferenceState :=
  let (kind, headerKind) := Source.classKinds p.kind
  let name := (p.phrase? headerKind).bind (·.token? .name)
  let symbol := (s.nextSymbol? .classLike).getD (Symbol.bare kind (s.resolver.relative (textOf src name)))
  (s.advance .classLike).openClassBody src symbol name

/-- The symbol of an anonymous class. -/
def unnamedClass (env : ReferenceInput) (s : ReferenceState) (p : Phrase) : Symbol :=
  (s.nextSymbol? .anonymousClass).getD
    (Symbol.bare .cls (unnamedClassName env.uri ((p.span?.map (·.1)).getD 0)))

/-- Opens a function: a scope for its references, and a frame for its variables in which its parameters have their
declared types. -/
def openFunctionBody (src : Source) (s : ReferenceState) (p : Phrase) (symbol : Symbol) (carried : List String) :
    ReferenceState :=
  let locals := s.locals.enterScope carried
  let locals :=
    if symbol.kind == .method && !symbol.isStatic then
      locals.setType "$this" (TypeText.ofText s.resolver.className)
    else locals
  let locals := (symbol.children.filter (·.kind == .parameter)).foldl
    (fun locals parameter => locals.setType parameter.name (s.withSelf parameter.knownType)) locals
  let s := { s with locals := locals }.pushCursor symbol
  { s with scopes := ⟨src.range p, [], []⟩ :: s.scopes }

def methodDeclaration (src : Source) (s : ReferenceState) (p : Phrase) : ReferenceState :=
  let cls := s.resolver.className
  let name := (p.phrase? .methodDeclarationHeader).bind (·.token? .name)
  let symbol := (s.nextSymbol? .method).getD ((Symbol.bare .method (textOf src name)).withScope cls)
  let s := s.advance .method
  let s :=
    match name with
    | none => s
    | some token =>
      let r := (Reference.bare .method symbol.name (src.tokenRange token)).withScope cls
      s.record (r.withType (s.withSelf symbol.knownType))
  s.openFunctionBody src p symbol []

def functionDeclaration (src : Source) (s : ReferenceState) (p : Phrase) : ReferenceState :=
  let name := (p.phrase? .functionDeclarationHeader).bind (·.token? .name)
  let symbol := (s.nextSymbol? .function).getD (Symbol.bare .function (s.resolver.relative (textOf src name)))
  let s := s.advance .function
  let s :=
    match name with
    | none => s
    | some token =>
      s.record ((Reference.bare .function symbol.name (src.tokenRange token)).withType symbol.knownType)
  s.openFunctionBody src p symbol []

/-- The variables that a closure sees: an arrow function all visible ones, any other those in its use clause, and
both the current object unless they are static. -/
def carriedVariables (src : Source) (s : ReferenceState) (p : Phrase) : List String :=
  let named :=
    if p.kind = .arrowFunctionCreationExpression then s.locals.visibleNames
    else
      match (p.phrase? .anonymousFunctionHeader).bind (·.phrase? .anonymousFunctionUseClause) with
      | none => []
      | some uses => (uses.tokens.filter (·.kind == .variableName)).map src.text
  if !p.hasToken .staticKeyword && !named.contains "$this" then named ++ ["$this"] else named

def closureExpression (src : Source) (s : ReferenceState) (p : Phrase) : ReferenceState :=
  let symbol := (s.nextSymbol? .closure).getD (Symbol.bare .function "")
  let s := s.advance .closure
  s.openFunctionBody src p symbol (carriedVariables src s p)

def parameterDeclaration (src : Source) (s : ReferenceState) (p : Phrase) : ReferenceState :=
  match p.token? .variableName with
  | none => s
  | some token =>
    let name := src.text token
    s.record ((Reference.bare .parameter name (src.tokenRange token)).withType (s.locals.typeOf name))

/-- An element of a property, class constant or constant declaration; its type is that of its symbol. -/
def declaredMember (src : Source) (s : ReferenceState) (p : Phrase) : ReferenceState :=
  let (kind, tokenKind) :=
    match p.kind with
    | .propertyElement => (SymbolKind.property, TokenKind.variableName)
    | .classConstElement => (.classConstant, .name)
    | _ => (.constant, .name)
  match p.token? tokenKind with
  | none => s
  | some token =>
    let text := src.text token
    let name := if kind == .constant then s.resolver.relative text else text
    let type :=
      match s.cursors.head?.bind (·.child? kind name) with
      | none => TypeText.empty
      | some symbol => s.withSelf symbol.knownType
    let r := (Reference.bare kind name (src.tokenRange token)).withType type
    s.record (if kind == .constant then r else r.withScope s.resolver.className)

/-! ### Conditionals -/

/-- The next arm of a conditional: the arm before it is finished.  Outside of a conditional nothing happens. -/
def nextConditionalArm (s : ReferenceState) (kind : PhraseKind) : ReferenceState :=
  match s.frames with
  | frame :: rest =>
    match frame.transform with
    | .conditional hasElse =>
      { s with
        frames := { frame with transform := .conditional (hasElse || kind == .elseClause) } :: rest
        locals := s.locals.endBranch.startBranch }
    | _ => s
  | [] => s

/-- The next arm of a switch.  Outside of a switch nothing happens. -/
def nextSwitchArm (s : ReferenceState) (kind : PhraseKind) : ReferenceState :=
  match s.frames with
  | frame :: rest =>
    match frame.transform with
    | .switch armOpen hasDefault =>
      let locals := if armOpen then s.locals.endBranch else s.locals
      { s with
        frames := { frame with transform := .switch true (hasDefault || kind == .defaultStatement) } :: rest
        locals := locals.startBranch }
    | _ => s
  | [] => s

/-- Merges the arms; if they do not cover all cases, there is one more arm that does nothing. -/
def closeArms (s : ReferenceState) (armOpen exhaustive : Bool) : ReferenceState :=
  let locals := if armOpen then s.locals.endBranch else s.locals
  let locals := if exhaustive then locals else locals.startBranch.endBranch
  { s with locals := locals.mergeBranches }

/-! ### Tokens -/

/-- A word for the current class or its base, where it designates a class. -/
def classWord (src : Source) (s : ReferenceState) (t : Token) : ReferenceState :=
  let designates :=
    match s.frames with
    | [] => false
    | frame :: _ =>
      frame.kind == .scopeResolutionQualifier || frame.kind == .classTypeDesignator ||
        frame.kind == .instanceofTypeDesignator
  let name := if t.kind == .parentKeyword then s.resolver.baseName else s.resolver.className
  if !designates || name.isEmpty then s
  else
    (s.record (Reference.bare .cls name (src.tokenRange t))).pushOutcome
      ⟨TypeText.ofText name, none, s.nextPlace?⟩

/-- A variable that stands directly in a catch clause or in the use clause of a closure. -/
def boundVariable (src : Source) (s : ReferenceState) (t : Token) : ReferenceState :=
  match s.frames with
  | [] => s
  | frame :: _ =>
    let name := src.text t
    let bare := Reference.bare .var name (src.tokenRange t)
    match frame.transform with
    | .catching =>
      let caught := Outcome.union frame.outcomes
      { s with locals := s.locals.setType name caught }.record (bare.withType caught)
    | .closureUse => s.record (bare.withType (s.locals.typeOf name))
    | _ => s

def token (src : Source) (s : ReferenceState) (t : Token) : ReferenceState :=
  match t.kind with
  | .documentComment => { s with doc := some (DocBlock.parse (src.text t)) }
  | .integerLiteral => s.pushOutcome (.typed (TypeText.ofText "int"))
  | .floatingLiteral => s.pushOutcome (.typed (TypeText.ofText "float"))
  | .stringLiteral => s.pushOutcome (.typed (TypeText.ofText "string"))
  | .selfKeyword | .staticKeyword | .parentKeyword => s.classWord src t
  | .variableName => s.boundVariable src t
  | _ => s

/-! ### Expressions -/

/-- The union of the types of some symbols. -/
def typesOf (symbols : List Symbol) : TypeText :=
  symbols.foldl (fun type s => type.merge s.knownType) TypeText.empty

/-- Records a reference with its type, and gives the outcome that goes with it. -/
def recordTyped (s : ReferenceState) (r : Reference) (type : TypeText) (variableName : Option String) :
    ReferenceState × Option Outcome :=
  (s.record (r.withType type), some ⟨type, variableName, s.nextPlace?⟩)

/-- The reference of a name that stands for something of the given kind. -/
def nameReference (src : Source) (s : ReferenceState) (p : Phrase) (kind : SymbolKind) (text : String)
    (form : NameStyle) : Reference :=
  let lookup := if kind == .constructor then .cls else kind
  let r := Reference.bare kind (s.resolver.resolve text form lookup) (src.range p)
  if s.resolver.mayBeGlobal text form lookup then r.withAltName text else r

/-- The type of a name that is a word of the language where something of the given kind is expected. -/
def wordType? (kind : SymbolKind) (text : String) : Option TypeText :=
  let word := Text.asciiLower text
  if kind == .constant && (word == "true" || word == "false") then some (TypeText.ofText "bool")
  else if kind == .constant && word == "null" then some (TypeText.ofText "null")
  else if kind == .cls && !text.toList.contains '\\' && TypeText.isReserved text then some (TypeText.ofText word)
  else none

def qualifiedName (env : ReferenceInput) (s : ReferenceState) (p : Phrase) (kind : SymbolKind) :
    ReferenceState × Option Outcome :=
  match env.source.document.qualifiedName? p with
  | none => (s, none)
  | some (text, form) =>
    match wordType? kind text with
    | some type => (s, some (.typed type))
    | none =>
      let r := s.nameReference env.source p kind text form
      let type :=
        if kind == .cls || kind == .constructor then TypeText.ofText r.name
        else typesOf (env.pool.findByReference r .documented)
      s.recordTyped r type none

def simpleVariable (src : Source) (s : ReferenceState) (p : Phrase) : ReferenceState × Option Outcome :=
  match p.token? .variableName with
  | none => (s, none)
  | some token =>
    let name := src.text token
    s.recordTyped (Reference.bare .var name (src.tokenRange token)) (s.locals.typeOf name) (some name)

/-- An assignment gives its target the documented type, or else that of the value. -/
def assignment (s : ReferenceState) (outcomes : List Outcome) : ReferenceState × Option Outcome :=
  match outcomes with
  | [] => (s, none)
  | target :: rest =>
    let assigned := (rest.getLast?.map (·.type)).getD TypeText.empty
    let s :=
      match target.variableName with
      | none => s
      | some name =>
        let documented := ((s.doc.bind (·.typeOfVar? (some name))).map fun text =>
          (TypeText.ofText text).resolve s.resolver).filter (!·.isEmpty)
        let type := documented.getD assigned
        let s := s.changeType target.reference type
        { s with locals := s.locals.setType name type }
    (s, some (.typed assigned))

/-- The member name after an arrow or a double colon. -/
def accessedName? (p : Phrase) : Option Token :=
  let isAccess := fun (t : Token) => t.kind == .arrow || t.kind == .nullsafeArrow || t.kind == .colonColon
  match p.tokens.dropWhile (!isAccess ·) with
  | _ :: t :: _ => if t.kind == .name || t.kind == .variableName || t.kind == .classKeyword then some t else none
  | _ => none

/-- An access to a member of whatever the first outcome is. -/
def accessMember (env : ReferenceInput) (s : ReferenceState) (p : Phrase) (kind : SymbolKind)
    (outcomes : List Outcome) : ReferenceState × Option Outcome :=
  let scope := (outcomes.head?.map (·.type)).getD TypeText.empty
  match accessedName? p with
  | none => (s, none)
  | some token =>
    if token.kind == .classKeyword then (s, some (.typed (TypeText.ofText "string")))
    else
      let text := env.source.text token
      let name := if kind == .property && token.kind == .name then "$" ++ text else text
      let r := Reference.bare kind name (env.source.tokenRange token)
      let r := if scope.isEmpty then r else r.withScope scope.text
      s.recordTyped r (typesOf (env.pool.membersOf scope kind name .documented)) none

/-- The loop variable takes the type of the elements of what is looped over. -/
def bindLoopVariable (s : ReferenceState) (outcomes : List Outcome) : ReferenceState :=
  match outcomes with
  | ⟨_, some name, reference⟩ :: _ =>
    let collection := s.frames.head?.bind (·.outcomes.head?)
    let type := (collection.map (·.type.element)).getD TypeText.empty
    let s := s.changeType reference type
    { s with locals := s.locals.setType name type }
  | _ => s

/-- An instance test gives the tested variable the type of the class. -/
def instanceTest (s : ReferenceState) (outcomes : List Outcome) : ReferenceState :=
  match outcomes with
  | ⟨_, some name, _⟩ :: cls :: _ =>
    if cls.type.isEmpty then s else { s with locals := s.locals.setType name cls.type }
  | _ => s

/-- Whether a call names the function that it calls. -/
def callsByName (p : Phrase) : Bool :=
  match p.phrases with
  | [] => false
  | callee :: _ => callee.kind.isQualifiedName

/-- Makes the outcome of a phrase out of those inside it. -/
def finishPhrase (env : ReferenceInput) (s : ReferenceState) (p : Phrase) (transform : Reduction)
    (outcomes : List Outcome) : ReferenceState × Option Outcome :=
  match transform with
  | .discard | .catching | .closureUse => (s, none)
  | .conditional hasElse => (s.closeArms true hasElse, none)
  | .switch armOpen hasDefault => (s.closeArms armOpen hasDefault, none)
  | .typed type => (s, some (.typed type))
  | .first => (s, outcomes.head?)
  | .union => (s, some (.typed (Outcome.union outcomes)))
  | .ternary => (s, some (.typed (Outcome.union (if outcomes.length ≥ 3 then outcomes.tail else outcomes))))
  | .name kind => s.qualifiedName env p kind
  | .variableName => s.simpleVariable env.source p
  | .assignment => s.assignment outcomes
  | .objectCreation => (s, outcomes.head?.map fun o => .typed o.type)
  | .call =>
    match outcomes with
    | callee :: _ => (s, some (.typed (if callsByName p then callee.type else TypeText.empty)))
    | [] => (s, some (.typed TypeText.empty))
  | .member kind => s.accessMember env p kind outcomes
  | .instanceOf => (s.instanceTest outcomes, some (.typed (TypeText.ofText "bool")))
  | .arrayCreation =>
    let elements := Outcome.union outcomes
    (s, some (.typed (if elements.isEmpty then TypeText.ofText "array" else elements.array)))
  | .arrayElement => (s, outcomes.getLast?.map fun o => .typed o.type)
  | .subscript => (s, outcomes.head?.map fun o => .typed o.type.element)
  | .foreachValue => (s.bindLoopVariable outcomes, none)

/-! ### The walk -/

/-- What a name stands for inside a phrase of the given kind. -/
def nameKind (parent : Option PhraseKind) : SymbolKind :=
  match parent with
  | some .functionCallExpression => .function
  | some .constantAccessExpression => .constant
  | some .classTypeDesignator => .constructor
  | _ => .cls

/-- Enters a phrase with a new frame. -/
def within (p : Phrase) (transform : Reduction) (exit : Unwinding) (s : ReferenceState) : ReferenceState × Bool :=
  ({ s with frames := ⟨p.kind, transform, exit, []⟩ :: s.frames }, true)

def enter (env : ReferenceInput) (s : ReferenceState) (p : Phrase) (path : List Phrase) : ReferenceState × Bool :=
  let src := env.source
  let s := if p.kind.discardsDoc then { s with doc := none } else s
  match p.kind with
  | .error => (s, false)
  | .namespaceUseDeclaration => (s.importNames src p, false)
  | .namespaceDefinition =>
    within p .discard (if Source.isBraced p then .leaveSpace else .nothing) (s.spaceDefinition src p)
  | .classDeclaration | .interfaceDeclaration | .traitDeclaration =>
    within p .discard .leaveClass (s.classDeclaration src p)
  | .anonymousClassDeclaration =>
    let symbol := s.unnamedClass env p
    within p (.typed (TypeText.ofText symbol.name)) .leaveClass
      ((s.advance .anonymousClass).openClassBody src symbol none)
  | .methodDeclaration => within p .discard .leaveFunction (s.methodDeclaration src p)
  | .functionDeclaration => within p .discard .leaveFunction (s.functionDeclaration src p)
  | .anonymousFunctionCreationExpression | .arrowFunctionCreationExpression =>
    within p (.typed (TypeText.ofText "Closure")) .leaveFunction (s.closureExpression src p)
  | .parameterDeclaration => within p .discard .nothing (s.parameterDeclaration src p)
  | .propertyElement | .classConstElement | .constElement => within p .discard .nothing (s.declaredMember src p)
  | .qualifiedName | .fullyQualifiedName | .relativeQualifiedName =>
    within p (.name (nameKind (path.head?.map (·.kind)))) .nothing s
  | .simpleVariable => within p .variableName .nothing s
  | .simpleAssignmentExpression | .byRefAssignmentExpression => within p .assignment .nothing s
  | .objectCreationExpression => within p .objectCreation .nothing s
  | .classTypeDesignator | .instanceofTypeDesignator | .scopeResolutionQualifier | .constantAccessExpression
  | .encapsulatedExpression | .cloneExpression | .foreachCollection => within p .first .nothing s
  | .functionCallExpression => within p .call .nothing s
  | .propertyAccessExpression | .scopedPropertyAccessExpression => within p (.member .property) .nothing s
  | .methodCallExpression | .scopedCallExpression => within p (.member .method) .nothing s
  | .classConstantAccessExpression => within p (.member .classConstant) .nothing s
  | .instanceOfExpression => within p .instanceOf .nothing s
  | .arrayCreationExpression => within p .arrayCreation .nothing s
  | .arrayElement => within p .arrayElement .nothing s
  | .subscriptExpression => within p .subscript .nothing s
  | .ternaryExpression => within p .ternary .nothing s
  | .coalesceExpression | .catchNameList => within p .union .nothing s
  | .foreachValue => within p .foreachValue .nothing s
  | .catchClause => within p .catching .nothing s
  | .anonymousFunctionUseClause => within p .closureUse .nothing s
  | .ifStatement => within p (.conditional false) .nothing { s with locals := s.locals.startBranch }
  | .elseIfClause | .elseClause => within p .discard .nothing (s.nextConditionalArm p.kind)
  | .switchStatement => within p (.switch false false) .nothing s
  | .caseStatement | .defaultStatement => within p .discard .nothing (s.nextSwitchArm p.kind)
  | _ => within p .discard .nothing s

/-- Undoes what entering a phrase did to the naming context, the cursors, the variables and the scopes. -/
def unwind (s : ReferenceState) : Unwinding → ReferenceState
  | .nothing => s
  | .leaveClass => { s with resolver := s.resolver.outOfClass }.popCursor
  | .leaveFunction => let s := s.popCursor; { s with locals := s.locals.leaveScope }.closeScope
  | .leaveSpace => { s with resolver := s.resolver.setSpace "" }

def leave (env : ReferenceInput) (s : ReferenceState) (p : Phrase) : ReferenceState :=
  match s.frames with
  | [] => s
  | frame :: rest =>
    let (s, outcome) := { s with frames := rest }.finishPhrase env p frame.transform frame.outcomes
    let s := s.unwind frame.exit
    let s :=
      match outcome with
      | some o => s.pushOutcome o
      | none => s
    if p.kind == .expressionStatement then { s with doc := none } else s

def visitor (env : ReferenceInput) : Visitor ReferenceState where
  enter s p path := s.enter env p path
  leave s p _ := s.leave env p
  token s t _ := s.token env.source t

/-- The outermost of some open scopes, once all of them are closed. -/
def closeScopes : ScopeTree → List ScopeTree → ScopeTree
  | scope, [] => scope
  | scope, parent :: rest => closeScopes { parent with children := parent.children ++ [scope] } rest

/-- The scope of the file at the end of the walk. -/
def root (s : ReferenceState) : ScopeTree :=
  match s.scopes with
  | [] => ⟨⟨⟨0, 0⟩, ⟨0, 0⟩⟩, [], []⟩
  | scope :: rest => closeScopes scope rest

/-- The state after the walk over a document whose declarations are in `table`. -/
def ofDocument (d : Document) (table : SymbolTable) (pool : SymbolPool) : ReferenceState :=
  let src := Source.ofDocument d
  (visitor ⟨src, table.uri, pool⟩).traverse d.tree (initial src table.root)

end ReferenceState

/-- The references of a document whose declarations are in `table`, with types from the symbols in `pool`. -/
def Occurrences.ofDocument (d : Document) (table : SymbolTable) (pool : SymbolPool) : Occurrences :=
  Occurrences.ofScope table.uri (ReferenceState.ofDocument d table pool).root

end CodeAtlas
