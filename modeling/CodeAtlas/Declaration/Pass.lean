import CodeAtlas.Declaration.Kinds
import CodeAtlas.Symbol.Table
import CodeAtlas.Tree.Walk

/-!
# Reading declarations

One walk over a tree builds the symbols of its document.  A declaration with a body opens a symbol, which takes the
declarations inside as children until its phrase is left; all others are added where they stand.  A variable belongs
to the innermost function, method or file, and is declared at its first assignment.

The documentation comment last seen waits for the next declaration; statements in between discard it.
-/

namespace CodeAtlas

/-- What to do when an entered phrase is left. -/
inductive DeclarationFrame where
  | plain
  /-- Close the innermost open symbol. -/
  | symbol
  /-- Close the innermost open symbol, and leave its class. -/
  | cls
  /-- Return to the global namespace. -/
  | bracedSpace
  deriving DecidableEq, Repr

structure DeclarationState where
  resolver : Resolver
  /-- The symbols whose phrases are open, innermost first. -/
  opened : List Symbol
  /-- One frame for each open phrase, innermost first. -/
  frames : List DeclarationFrame
  /-- The documentation comment that waits for a declaration. -/
  doc : Option DocBlock

/-- Statements after which a documentation comment no longer applies. -/
def PhraseKind.discardsDoc : PhraseKind → Bool
  | .returnStatement | .echoStatement | .ifStatement | .switchStatement | .whileStatement | .doStatement
  | .forStatement | .foreachStatement | .tryStatement | .compoundStatement | .globalDeclaration => true
  | _ => false

namespace Symbol

def addChild (s child : Symbol) : Symbol :=
  { s with children := s.children ++ [child] }

/-- Whether variables assigned inside belong to the symbol. -/
def ownsVariables (s : Symbol) : Bool :=
  s.kind == .file || s.kind == .function || s.kind == .method

/-- Whether a parameter or variable of this name is declared. -/
def declares (s : Symbol) (name : String) : Bool :=
  s.children.any fun child => child.kind.isLocal && child.name == name

end Symbol

/-- Changes the first element that satisfies `p`. -/
def updateFirst {α : Type} (p : α → Bool) (f : α → α) : List α → List α
  | [] => []
  | a :: rest => if p a then f a :: rest else a :: updateFirst p f rest

namespace DeclarationState

/-- The state before the walk: the file is open. -/
def initial (src : Source) : DeclarationState :=
  let range := src.lines.range 0 src.document.text.utf8ByteSize
  let file := (Symbol.bare .file src.document.uri).withLocation ⟨src.document.uri, range⟩
  { resolver := Resolver.empty, opened := [file], frames := [], doc := none }

/-! ### Changing the open symbols -/

def addChild (s : DeclarationState) (child : Symbol) : DeclarationState :=
  match s.opened with
  | [] => s
  | top :: rest => { s with opened := top.addChild child :: rest }

def addChildren (s : DeclarationState) (children : List Symbol) : DeclarationState :=
  children.foldl addChild s

def openSymbol (s : DeclarationState) (symbol : Symbol) : DeclarationState :=
  { s with opened := symbol :: s.opened }

/-- Makes the innermost open symbol a child of the one around it. -/
def closeTop (s : DeclarationState) : DeclarationState :=
  match s.opened with
  | top :: parent :: rest => { s with opened := parent.addChild top :: rest }
  | _ => s

/-- Opens a class: its name and base become part of the naming context, and the waiting documentation is its own. -/
def openClassBody (s : DeclarationState) (symbol : Symbol) : DeclarationState :=
  let base := (symbol.baseClass?.map (·.name)).getD ""
  let resolver := s.resolver.intoClass symbol.name base
  { s with resolver := resolver, doc := none }.openSymbol (Source.withClassDoc resolver s.doc symbol)

/-- Declares a variable in the innermost symbol that holds variables, unless it is there already. -/
def declare (src : Source) (s : DeclarationState) (v : Source.Assigned) : DeclarationState :=
  let name := src.text v.token
  if name = "$this" then s
  else
    let symbol := ((Symbol.bare .var name).withLocation (src.tokenLocation v.token)).withType v.type
    { s with
      opened := updateFirst Symbol.ownsVariables
        (fun holder => if holder.declares name then holder else holder.addChild symbol) s.opened }

def declareAll (src : Source) (s : DeclarationState) (vs : List Source.Assigned) : DeclarationState :=
  vs.foldl (declare src) s

/-! ### Phrases -/

def importNames (src : Source) (s : DeclarationState) (p : Phrase) : DeclarationState :=
  (src.imports p).foldl
    (fun s i => { s with resolver := s.resolver.addImport i.rule }.addChild (src.importSymbol i)) s

/-- The traits used in a class are associated with the innermost class that is open. -/
def useTraits (src : Source) (s : DeclarationState) (p : Phrase) : DeclarationState :=
  let links := (src.listedNames s.resolver p).map (SymbolLink.mk .trait ·)
  { s with
    opened := updateFirst (·.kind.isClassLike) (fun c => { c with associated := c.associated ++ links }) s.opened }

def spaceDefinition (src : Source) (s : DeclarationState) (p : Phrase) : DeclarationState :=
  let name := src.spaceName p
  let s := { s with resolver := s.resolver.setSpace name }
  if name.isEmpty then s else s.addChild (src.placed (Symbol.bare .space name) p)

def methodDeclaration (src : Source) (s : DeclarationState) (p : Phrase) : DeclarationState :=
  let doc := s.doc
  let s := { s with doc := none }
  match p.phrase? .methodDeclarationHeader with
  | none => s.openSymbol (src.placed (Symbol.bare .method "") p)
  | some header =>
    let inInterface :=
      match s.opened with
      | [] => false
      | top :: _ => top.kind == .interface
    let s :=
      if Text.sameFolded (src.methodName header) "__construct" then
        s.addChildren (src.constructorProperties s.resolver header)
      else s
    s.openSymbol (src.methodSymbol s.resolver doc inInterface p header)

def functionDeclaration (src : Source) (s : DeclarationState) (p : Phrase) : DeclarationState :=
  let symbol :=
    match p.phrase? .functionDeclarationHeader with
    | none => src.placed (Symbol.bare .function "") p
    | some header => src.functionSymbol s.resolver s.doc p header
  { s with doc := none }.openSymbol symbol

/-! ### The walk -/

/-- Enters a phrase with a frame that says what to do when it is left. -/
def within (frame : DeclarationFrame) (s : DeclarationState) : DeclarationState × Bool :=
  ({ s with frames := frame :: s.frames }, true)

/-- Goes on without looking inside a phrase. -/
def skipping (s : DeclarationState) : DeclarationState × Bool :=
  (s, false)

def enter (src : Source) (s : DeclarationState) (p : Phrase) : DeclarationState × Bool :=
  let s := if p.kind.discardsDoc then { s with doc := none } else s
  match p.kind with
  | .error => skipping s
  | .namespaceDefinition =>
    within (if Source.isBraced p then .bracedSpace else .plain) (s.spaceDefinition src p)
  | .namespaceUseDeclaration => skipping (s.importNames src p)
  | .classDeclaration | .interfaceDeclaration | .traitDeclaration =>
    within .cls (s.openClassBody (src.classSymbol s.resolver p))
  | .anonymousClassDeclaration => within .cls (s.openClassBody (src.anonymousClassSymbol s.resolver p))
  | .traitUseClause => skipping (s.useTraits src p)
  | .classConstDeclaration =>
    skipping ({ s with doc := none }.addChildren (src.classConstants s.resolver s.doc p))
  | .propertyDeclaration => skipping ({ s with doc := none }.addChildren (src.properties s.resolver s.doc p))
  | .constDeclaration => skipping ({ s with doc := none }.addChildren (src.constants s.resolver s.doc p))
  | .methodDeclaration => within .symbol (s.methodDeclaration src p)
  | .functionDeclaration => within .symbol (s.functionDeclaration src p)
  | .anonymousFunctionCreationExpression =>
    within .symbol ({ s with doc := none }.openSymbol (src.closureSymbol s.resolver s.doc p))
  | .arrowFunctionCreationExpression =>
    within .symbol ({ s with doc := none }.openSymbol (src.anonymousFunction s.resolver s.doc p p))
  | .simpleAssignmentExpression | .byRefAssignmentExpression =>
    within .plain (s.declareAll src (src.assignedVariable? s.resolver s.doc p).toList)
  | .foreachStatement => within .plain (s.declareAll src (Source.loopVariables p))
  | .catchClause => within .plain (s.declareAll src (src.caughtVariable? s.resolver p).toList)
  | .globalDeclaration => within .plain (s.declareAll src (Source.globalVariables p))
  | _ => within .plain s

def leave (s : DeclarationState) (p : Phrase) : DeclarationState :=
  let s :=
    match s.frames with
    | [] => s
    | frame :: rest =>
      let s := { s with frames := rest }
      match frame with
      | .plain => s
      | .symbol => s.closeTop
      | .cls => let s := s.closeTop; { s with resolver := s.resolver.outOfClass }
      | .bracedSpace => { s with resolver := s.resolver.setSpace "" }
  if p.kind == .expressionStatement then { s with doc := none } else s

def token (src : Source) (s : DeclarationState) (t : Token) : DeclarationState :=
  if t.kind == .documentComment then { s with doc := some (DocBlock.parse (src.text t)) } else s

def visitor (src : Source) : Visitor DeclarationState where
  enter s p _ := s.enter src p
  leave s p _ := s.leave p
  token s t _ := s.token src t

/-- The outermost of some open symbols, once all of them are closed. -/
def closeAll : Symbol → List Symbol → Symbol
  | top, [] => top
  | top, parent :: rest => closeAll (parent.addChild top) rest

/-- The file symbol at the end of the walk. -/
def finish (src : Source) (s : DeclarationState) : Symbol :=
  match s.opened with
  | [] => Symbol.bare .file src.document.uri
  | top :: rest => closeAll top rest

end DeclarationState

/-- The symbol tree of a document. -/
def Document.fileSymbol (d : Document) : Symbol :=
  let src := Source.ofDocument d
  ((DeclarationState.visitor src).traverse d.tree (DeclarationState.initial src)).finish src

/-- The symbol table of a document. -/
def SymbolTable.ofDocument (d : Document) : SymbolTable :=
  ⟨d.uri, d.fileSymbol⟩

end CodeAtlas
