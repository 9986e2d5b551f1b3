import CodeAtlas.Command.Invocation
import CodeAtlas.Json.Own
import CodeAtlas.Settings.Written
import CodeAtlas.Symbol.Stored
import CodeAtlas.Tree.Written
import CodeAtlas.Workspace

/-!
# Runs of a command

A run reads the settings, then the documents, and answers with a JSON text, both with the program's own JSON library.
The files are given as a function from paths to texts, so that a run is a value.
-/

namespace CodeAtlas.Command

open Json

/-! ### Failures -/

/-- Why a run fails. -/
inductive Failure where
  | usage
  /-- The settings are missing or malformed. -/
  | badSettings (path : String)
  | unreadable (path : String)
  /-- The file holds no documents. -/
  | notDocuments (path : String)
  /-- The file holds another number of documents than one. -/
  | notSingle (path : String) (count : Nat)
  | workspace (e : WorkspaceError)
  deriving DecidableEq, Repr

namespace Failure

def message : Failure → String
  | .usage => "the arguments are not understood"
  | .badSettings path => "loading configuration from " ++ path
  | .unreadable path => "reading " ++ path
  | .notDocuments path => path ++ " is not a parsed document tree"
  | .notSingle path count => path ++ " holds " ++ toString count ++ " documents; dump expects exactly one"
  | .workspace e => e.message

def exitCode : Failure → Nat
  | .usage => 2
  | _ => 1

end Failure

/-- What a successful run prints, and the file that it saves. -/
structure Reply where
  output : String
  saved : Option (String × String)
  deriving DecidableEq, Repr

/-- The contents of the files that can be read. -/
abbrev Files := String → Option String

/-! ### Reading -/

/-- The documents of a file: a list of documents, or a single one. -/
def documentsOf? (text : String) : Option (List Document) := do
  let v ← Json.parse? text
  if v.isPlain maxDepth then
    match v.items?.bind fun items => items.mapM (Document.ofJson? maxDepth) with
    | some ds => some ds
    | none => (Document.ofJson? maxDepth v).map fun d => [d]
  else none

def readDocuments (files : Files) (path : String) : Except Failure (List Document) :=
  match files path with
  | none => .error (.unreadable path)
  | some text =>
    match documentsOf? text with
    | none => .error (.notDocuments path)
    | some ds => .ok ds

/-- The documents of all files, up to the first file that cannot be read. -/
def readAll (files : Files) : List String → Except Failure (List Document)
  | [] => .ok []
  | path :: paths => do
    let first ← readDocuments files path
    let rest ← readAll files paths
    .ok (first ++ rest)

def readSettings (files : Files) : Option String → Except Failure Settings
  | none => .ok {}
  | some path =>
    match (files path).bind Settings.ofToml? with
    | some s => .ok s
    | none => .error (.badSettings path)

/-! ### Answers -/

/-- A declaration, with its range as four numbers. -/
def symbolAnswer (s : Symbol) : Value :=
  .record
    ([("kind", .ofString s.kind.title), ("name", .ofString s.name)] ++
      optionalField "uri" (fun l => .ofString l.uri) s.location ++
      optionalField "range" (fun l => l.range.toJson) s.location ++
      optionalField "type" (fun t => .ofString t.text) s.type ++
      optionalField "scope" .ofString s.scope)

def positionAnswer (p : Position) : Value :=
  .record [("line", .ofNat p.line), ("character", .ofNat p.character)]

/-- A reference in the document `uri`. -/
def referenceAnswer (uri : String) (r : Reference) : Value :=
  .record
    ([("uri", .ofString uri), ("kind", .ofString r.kind.label), ("name", .ofString r.name),
        ("range", .record [("start", positionAnswer r.range.start), ("end", positionAnswer r.range.stop)])] ++
      optionalField "type" (fun t => .ofString t.text) r.type ++
      optionalField "alt_name" .ofString r.altName ++
      optionalField "scope" .ofString r.scope)

/-- The counts of a document. -/
def countsAnswer (w : Workspace) (d : Document) : Value :=
  .record
    [("uri", .ofString d.uri), ("symbols", .ofNat ((w.symbols.table? d.uri).elim 0 (·.symbolCount))),
      ("references", .ofNat ((w.references.get? d.uri).elim 0 (·.size)))]

def totalsAnswer (s : WorkspaceStats) : Value :=
  .record
    [("documents", .ofNat s.documents), ("symbols", .ofNat s.symbols), ("references", .ofNat s.references),
      ("analyses", .ofNat s.analyses)]

/-! ### Requests -/

/-- An answer is printed with a line break at its end. -/
def printed (v : Value) : Reply :=
  ⟨v.pretty ++ "\n", none⟩

def workspaceOf (settings : Settings) (ds : List Document) : Except Failure Workspace :=
  ((Workspace.empty settings).analyzeAll ds).mapError .workspace

/-- Answers a request about the documents of its files. -/
def answer (settings : Settings) (ds : List Document) : Request → Except Failure Reply
  | .analyze _ totals => do
    let w ← workspaceOf settings ds
    let printed := printed (.array (ds.map (countsAnswer w)))
    .ok { printed with saved := totals.map fun path => (path, (totalsAnswer w.stats).pretty) }
  | .symbols _ query fuzzy => do
    let w ← workspaceOf settings ds
    .ok (printed (.array ((settings.limit (w.symbols.matching query fuzzy fun _ => true)).map symbolAnswer)))
  | .definition _ place => do
    let w ← workspaceOf settings ds
    .ok (printed (.array ((w.declarationsAt place.uri place.position).map symbolAnswer)))
  | .references _ place => do
    let w ← workspaceOf settings ds
    .ok (printed (.array ((w.usesAt place.uri place.position).map fun (uri, r) => referenceAnswer uri r)))
  | .dump path =>
    match ds with
    | [d] => .ok (printed (SymbolTable.ofDocument d).store.toJson)
    | _ => .error (.notSingle path ds.length)

namespace Invocation

/-- Settings are read before documents. -/
def run (i : Invocation) (files : Files) : Except Failure Reply := do
  let settings ← readSettings files i.settings
  let ds ← readAll files i.request.inputs
  answer settings ds i.request

end Invocation

/-- A text about the program is printed as it is. -/
def Ask.run (a : Ask) (files : Files) : Except Failure Reply :=
  match a with
  | .invocation i => i.run files
  | .text s => .ok ⟨s, none⟩

end CodeAtlas.Command
