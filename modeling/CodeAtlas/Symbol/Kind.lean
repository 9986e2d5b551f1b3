import CodeAtlas.Text.Ascii

/-!
# Kinds of symbols

What a declaration or a reference is about.  Constants and variables are named case-sensitively; every other kind
ignores the case of ASCII letters.
-/

namespace CodeAtlas

inductive SymbolKind where
  | file | cls | interface | trait | constant | property | method | function | parameter | var | space
  | classConstant | constructor
  deriving DecidableEq, Repr

namespace SymbolKind

def all : List SymbolKind :=
  [ .file, .cls, .interface, .trait, .constant, .property, .method, .function, .parameter, .var, .space,
    .classConstant, .constructor ]

/-- The word for the kind in written tables. -/
def label : SymbolKind → String
  | .file => "File"
  | .cls => "Class"
  | .interface => "Interface"
  | .trait => "Trait"
  | .constant => "Constant"
  | .property => "Property"
  | .method => "Method"
  | .function => "Function"
  | .parameter => "Parameter"
  | .var => "Variable"
  | .space => "Namespace"
  | .classConstant => "ClassConstant"
  | .constructor => "Constructor"

def ofLabel? (s : String) : Option SymbolKind :=
  all.find? (·.label == s)

/-- The words for the kind in texts meant for people. -/
def title : SymbolKind → String
  | .file => "file"
  | .cls => "class"
  | .interface => "interface"
  | .trait => "trait"
  | .constant => "constant"
  | .property => "property"
  | .method => "method"
  | .function => "function"
  | .parameter => "parameter"
  | .var => "variable"
  | .space => "namespace"
  | .classConstant => "class constant"
  | .constructor => "constructor"

def isClassLike : SymbolKind → Bool
  | .cls | .interface | .trait => true
  | _ => false

def isMember : SymbolKind → Bool
  | .property | .method | .classConstant => true
  | _ => false

/-- Variables and parameters, which are known only inside the scope that declares them. -/
def isLocal : SymbolKind → Bool
  | .var | .parameter => true
  | _ => false

def respectsCase : SymbolKind → Bool
  | .constant | .var => true
  | _ => false

/-- Whether `a` and `b` are the same name for a symbol of this kind. -/
def sameNames (kind : SymbolKind) (a b : String) : Bool :=
  if kind.respectsCase then a == b else Text.sameFolded a b

end SymbolKind

end CodeAtlas
