import CodeAtlas.Index.Search
import CodeAtlas.Text.Case

/-!
# An index of items by name

Items are kept under the lower case of their names, in nodes sorted by that key, and within a node in the order in
which they were added.  No node is empty.
-/

namespace CodeAtlas

structure NameNode (α : Type) where
  key : String
  items : List α

structure NameMap (α : Type) where
  nodes : List (NameNode α)

namespace NameMap

variable {α : Type}

def empty : NameMap α :=
  ⟨[]⟩

/-- The place of a key among the nodes, and whether it has a node. -/
def searchKey (ix : NameMap α) (key : String) : Nat × Bool :=
  Search.search (fun node => compare node.key key) ix.nodes

/-- Adds an item to the node of its name, or puts a new node at the place of the name. -/
def add (ix : NameMap α) (name : String) (item : α) : NameMap α :=
  let key := Text.lower name
  match ix.searchKey key with
  | (rank, true) => ⟨ix.nodes.modify rank fun node => { node with items := node.items ++ [item] }⟩
  | (rank, false) => ⟨ix.nodes.insertIdx rank ⟨key, [item]⟩⟩

/-- The index without the items under `name` that satisfy `p`, and how many there were; the node goes with the last of
its items. -/
def remove (ix : NameMap α) (name : String) (p : α → Bool) : NameMap α × Nat :=
  match ix.searchKey (Text.lower name) with
  | (_, false) => (ix, 0)
  | (rank, true) =>
    match ix.nodes[rank]? with
    | none => (ix, 0)
    | some node =>
      let kept := node.items.filter (!p ·)
      (⟨if kept.isEmpty then ix.nodes.eraseIdx rank else ix.nodes.set rank ⟨node.key, kept⟩⟩,
        node.items.length - kept.length)

/-- The items under a name. -/
def find (ix : NameMap α) (name : String) : List α :=
  match Search.find? (fun node => compare node.key (Text.lower name)) ix.nodes with
  | some node => node.items
  | none => []

/-- The nodes whose key begins with the lower case of `start`. -/
def startingWith (ix : NameMap α) (start : String) : List (NameNode α) :=
  let key := Text.lower start
  Search.range (fun node => Search.compareStart node.key key) (fun node => Search.compareStart node.key key) ix.nodes

def keys (ix : NameMap α) : List String :=
  ix.nodes.map (·.key)

def size (ix : NameMap α) : Nat :=
  ix.nodes.length

def isEmpty (ix : NameMap α) : Bool :=
  ix.nodes.isEmpty

def itemCount (ix : NameMap α) : Nat :=
  (ix.nodes.flatMap (·.items)).length

def clear (_ : NameMap α) : NameMap α :=
  ⟨[]⟩

end NameMap

end CodeAtlas
