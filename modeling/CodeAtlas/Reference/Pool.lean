import CodeAtlas.Index.NameMap
import CodeAtlas.Reference.Scope

/-!
# The references of a workspace

The references of many documents, with an index from names to the documents that mention them.
-/

namespace CodeAtlas

structure ReferencePool where
  documents : List Occurrences
  /-- The uris of the documents that mention a name. -/
  mentions : NameMap String

namespace ReferencePool

def empty : ReferencePool :=
  ⟨[], NameMap.empty⟩

/-- The names under which a document is found.  Variables are looked up in their scope only. -/
def keysOf (d : Occurrences) : List String :=
  ((d.sorted.filter (!·.kind.isLocal)).flatMap fun r => r.names.map Text.lower).eraseDups

def get? (s : ReferencePool) (uri : String) : Option Occurrences :=
  s.documents.find? (·.uri == uri)

def remove (s : ReferencePool) (uri : String) : ReferencePool :=
  match s.get? uri with
  | none => s
  | some d =>
    { documents := s.documents.filter (·.uri != uri)
      mentions := (keysOf d).foldl (fun ix key => (ix.remove key (· == uri)).1) s.mentions }

/-- Adds the references of a document in place of earlier ones. -/
def add (s : ReferencePool) (d : Occurrences) : ReferencePool :=
  let s := s.remove d.uri
  { documents := s.documents ++ [d]
    mentions := (keysOf d).foldl (fun ix key => ix.add key d.uri) s.mentions }

def documentCount (s : ReferencePool) : Nat :=
  s.documents.length

def referenceCount (s : ReferencePool) : Nat :=
  (s.documents.flatMap (·.sorted)).length

/-- The references of the document that satisfy `p`, with its uri. -/
def pick (p : Reference → Bool) (d : Occurrences) : List (String × Reference) :=
  (d.sorted.filter p).map fun r => (d.uri, r)

/-- The references that satisfy `p`, document by document in the order of their uris. -/
def select (s : ReferencePool) (p : Reference → Bool) : List (String × Reference) :=
  (s.documents.mergeSort fun a b => decide (a.uri ≤ b.uri)).flatMap (pick p)

/-- The references that name the same thing as the target.  There are none for variables. -/
def mentionsOf (s : ReferencePool) (target : Reference) : List (String × Reference) :=
  if target.kind.isLocal then []
  else
    let uris := (target.names.flatMap s.mentions.find).eraseDups.mergeSort fun a b => decide (a ≤ b)
    (uris.filterMap s.get?).flatMap (pick (·.sameName target))

end ReferencePool

end CodeAtlas
