import CodeAtlas.Reference.Pass
import CodeAtlas.Reference.Pool

/-!
# Workspaces

A workspace holds the symbols and the references of the documents analysed so far, and answers questions about them:
what is at a position, where is it declared, and where else is it used.
-/

namespace CodeAtlas

/-- The totals of a workspace, and how many analyses of single documents were made. -/
structure WorkspaceStats where
  documents : Nat
  symbols : Nat
  references : Nat
  analyses : Nat
  deriving DecidableEq, Repr

structure Workspace where
  settings : Settings
  symbols : SymbolPool
  references : ReferencePool
  stats : WorkspaceStats

/-- Why an operation on a workspace fails. -/
inductive WorkspaceError where
  /-- There is a table for this document already. -/
  | duplicateDocument (uri : String)
  /-- There are no references for this document. -/
  | unknownDocument (uri : String)
  deriving DecidableEq, Repr

def WorkspaceError.message : WorkspaceError → String
  | .duplicateDocument uri => "document is already registered in the symbol store: " ++ uri
  | .unknownDocument uri => "unknown document: " ++ uri

/-- Adds a table to a pool, or says that its document is known already. -/
def SymbolPool.add (s : SymbolPool) (t : SymbolTable) : Except WorkspaceError SymbolPool :=
  match s.add? t with
  | some s => .ok s
  | none => .error (.duplicateDocument t.uri)

namespace Workspace

def empty (settings : Settings) : Workspace :=
  { settings, symbols := SymbolPool.empty settings, references := ReferencePool.empty, stats := ⟨0, 0, 0, 0⟩ }

/-! ### Analysis -/

/-- Registers the declarations of a document in place of earlier ones. -/
def declare (w : Workspace) (d : Document) (table : SymbolTable) : Except WorkspaceError Workspace :=
  ((w.symbols.remove d.uri).add table).map fun symbols => { w with symbols := symbols }

/-- Records the references of a document whose declarations are in `table`. -/
def addReferences (w : Workspace) (d : Document) (table : SymbolTable) : Workspace :=
  { w with
    references := w.references.add (Occurrences.ofDocument d table w.symbols)
    stats := { w.stats with analyses := w.stats.analyses + 1 } }

/-- Recomputes the totals. -/
def recount (w : Workspace) : Workspace :=
  { w with
    stats := { w.stats with
      documents := w.symbols.documentCount
      symbols := w.symbols.symbolCount
      references := w.references.referenceCount } }

/-- Analyses one document in place of an earlier analysis of it, and gives its references. -/
def analyze (w : Workspace) (d : Document) : Except WorkspaceError (Workspace × Occurrences) :=
  let table := SymbolTable.ofDocument d
  match w.declare d table with
  | .error e => .error e
  | .ok w =>
    let w := (w.addReferences d table).recount
    match w.references.get? d.uri with
    | some references => .ok (w, references)
    | none => .error (.unknownDocument d.uri)

/-- Registers the declarations of all documents. -/
def declareAll (w : Workspace) : List (Document × SymbolTable) → Except WorkspaceError Workspace
  | [] => .ok w
  | (d, table) :: rest =>
    match w.declare d table with
    | .ok w => w.declareAll rest
    | .error e => .error e

/-- Analyses a list of documents.  All declarations are registered before any references are read, so that the order
of the documents does not matter to them. -/
def analyzeAll (w : Workspace) (ds : List Document) : Except WorkspaceError Workspace :=
  let tables := ds.map fun d => (d, SymbolTable.ofDocument d)
  (w.declareAll tables).map fun w =>
    (tables.foldl (fun w (d, table) => w.addReferences d table) w).recount

/-- Whether anything is known about a document. -/
def knows (w : Workspace) (uri : String) : Bool :=
  w.symbols.knowsDocument uri || (w.references.get? uri).isSome

/-- Drops everything that is known about a document. -/
def forget (w : Workspace) (uri : String) : Workspace :=
  { w with symbols := w.symbols.remove uri, references := w.references.remove uri }.recount

/-! ### Questions -/

def referenceAt? (w : Workspace) (uri : String) (p : Position) : Option Reference :=
  (w.references.get? uri).bind (·.referenceAt? p)

/-- The declarations of what is at a position. -/
def declarationsAt (w : Workspace) (uri : String) (p : Position) : List Symbol :=
  match w.referenceAt? uri p with
  | none => []
  | some r =>
    if r.kind.isLocal then
      match w.symbols.table? uri with
      | none => []
      | some table => (table.variablesAt p).filter (·.name == r.name)
    else w.symbols.findByReference r .documented

/-- Whether a reference may mean one of the declarations, told by their locations. -/
def mayMean (w : Workspace) (declarations : List Symbol) (r : Reference) : Bool :=
  (w.symbols.findByReference r .documented).any fun s => declarations.any fun d => d.location == s.location

/-- All references to what is at a position.  Variables are looked for in the scope around the position only, and
references to members must also be able to mean the same declaration. -/
def usesAt (w : Workspace) (uri : String) (p : Position) : List (String × Reference) :=
  match w.references.get? uri with
  | none => []
  | some d =>
    match d.referenceAt? p with
    | none => []
    | some target =>
      if target.kind.isLocal then
        ((d.scopeUsesAt p).filter (·.sameName target)).map fun r => (d.uri, r)
      else
        let found := w.references.mentionsOf target
        if target.kind.isMember then
          match w.symbols.findByReference target .documented with
          | [] => found
          | declarations => found.filter fun (_, r) => w.mayMean declarations r
        else found

/-- The symbols that match a query, at most as many as the settings allow. -/
def matchingSymbols (w : Workspace) (query : String) : List Symbol :=
  w.settings.limit (w.symbols.matching query true fun _ => true)

end Workspace

end CodeAtlas
