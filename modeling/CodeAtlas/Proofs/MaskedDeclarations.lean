import CodeAtlas.Proofs.MaskedTrees
import Mathlib.Data.List.Basic

/-!
# Declarations in masked trees

Whatever the declaration walk reads from a phrase, it reads from the masked phrase as well: it asks an error phrase for
its kind and its place only.  So the symbols of a document are those of the masked document (`fileSymbol_mask`).
-/

namespace CodeAtlas

namespace Document

/-- The document with a masked tree. -/
def mask (d : Document) : Document :=
  { d with tree := d.tree.mask }

variable (d : Document) {p : Phrase}

theorem joinedNames_mask (h : p.kind ≠ .error) : d.mask.joinedNames p.mask = d.joinedNames p := by
  unfold joinedNames
  rw [Phrase.tokens_mask h]
  rfl

theorem qualifiedName_mask (h : p.kind ≠ .error) : d.mask.qualifiedName? p.mask = d.qualifiedName? p := by
  unfold qualifiedName?
  rw [Phrase.phrase_mask h]
  cases hn : p.phrase? .namespaceName with
  | none => rfl
  | some name =>
    have hname := d.joinedNames_mask (Phrase.kind_ne_error hn (by decide))
    simp only [Option.map_some, hname, Phrase.kind_mask]

end Document

theorem PhraseKind.ne_error_of_isQualifiedName {kind : PhraseKind} (h : kind.isQualifiedName = true) :
    kind ≠ .error := by
  rintro rfl
  cases h

namespace Source

/-- The source with a masked tree. -/
def mask (src : Source) : Source :=
  ⟨src.document.mask, src.lines⟩

variable (src : Source) (r : Resolver) {p : Phrase}

/-! ### Places and names -/

@[simp] theorem text_mask (t : Token) : src.mask.text t = src.text t := rfl

@[simp] theorem document_mask : src.mask.document = src.document.mask := rfl

@[simp] theorem uri_mask : src.document.mask.uri = src.document.uri := rfl

@[simp] theorem range?_mask (p : Phrase) : src.mask.range? p.mask = src.range? p := by
  unfold range?
  rw [Phrase.span_mask]
  rfl

@[simp] theorem placed_mask (s : Symbol) (p : Phrase) : src.mask.placed s p.mask = src.placed s p := by
  unfold placed location?
  rw [range?_mask]
  rfl

theorem resolvedName_mask (h : p.kind ≠ .error) (kind : SymbolKind) :
    src.mask.resolvedName? r kind p.mask = src.resolvedName? r kind p := by
  unfold resolvedName?
  exact congrArg _ (src.document.qualifiedName_mask h)

mutual

theorem namesInNode_mask : ∀ n : Node, src.mask.namesInNode r n.mask = src.namesInNode r n
  | .token t => by
    rw [Node.mask, namesInNode, namesInNode]
  | .phrase kind children => by
    rw [Node.mask, namesInNode, namesInNode]
    split
    · rename_i hk
      have hne := PhraseKind.ne_error_of_isQualifiedName hk
      exact congrArg Option.toList (src.resolvedName_mask r (p := ⟨kind, children⟩) hne .cls)
    · split
      · rename_i hk
        rw [if_neg (by rw [hk]; decide)]
        exact namesInNodes_mask children
      · rfl

theorem namesInNodes_mask : ∀ ns : List Node, src.mask.namesInNodes r (Node.maskAll ns) = src.namesInNodes r ns
  | [] => by rw [Node.maskAll, namesInNodes, namesInNodes]
  | n :: ns => by rw [Node.maskAll, namesInNodes, namesInNodes, namesInNode_mask n, namesInNodes_mask ns]

end

theorem listedNames_mask (h : p.kind ≠ .error) : src.mask.listedNames r p.mask = src.listedNames r p := by
  unfold listedNames Phrase.mask
  rw [if_neg h]
  exact src.namesInNodes_mask r p.children

/-! ### Types and values -/

theorem writtenPart_mask (n : Node) : src.mask.writtenPart? r n.mask = src.writtenPart? r n := by
  cases n with
  | token t => rfl
  | phrase kind children =>
    rw [Node.mask]
    unfold writtenPart?
    dsimp only
    split
    · rename_i hk
      have hne := PhraseKind.ne_error_of_isQualifiedName hk
      exact congrArg _ (src.document.qualifiedName_mask (p := ⟨kind, children⟩) hne)
    · rfl

theorem writtenType_mask (h : p.kind ≠ .error) : src.mask.writtenType r p.mask = src.writtenType r p := by
  have hparts : p.mask.children.filterMap (src.mask.writtenPart? r) = p.children.filterMap (src.writtenPart? r) := by
    rw [Phrase.children_mask h, List.filterMap_map]
    congr 1
    funext n
    exact src.writtenPart_mask r n
  unfold writtenType
  rw [hparts, Phrase.hasToken_mask h]

theorem typeOfOwner_mask (h : p.kind ≠ .error) : src.mask.typeOfOwner r p.mask = src.typeOfOwner r p := by
  unfold typeOfOwner
  rw [Phrase.phrase_mask h]
  cases hd : p.phrase? .typeDeclaration with
  | none => rfl
  | some declaration => exact src.writtenType_mask r (Phrase.kind_ne_error hd (by decide))

theorem returnType_mask (h : p.kind ≠ .error) : src.mask.returnType r p.mask = src.returnType r p := by
  unfold returnType
  rw [Phrase.phrase_mask h]
  cases hd : p.phrase? .returnType with
  | none => rfl
  | some owner => exact src.typeOfOwner_mask r (Phrase.kind_ne_error hd (by decide))

theorem nameChild_mask (h : p.kind ≠ .error) : nameChild? p.mask = (nameChild? p).map Phrase.mask := by
  unfold nameChild?
  rw [Phrase.phrases_mask h]
  exact Phrase.find_mask PhraseKind.isQualifiedName _

theorem nameChild_ne_error {name : Phrase} (h : nameChild? p = some name) : name.kind ≠ .error := by
  have hname := List.find?_some h
  exact PhraseKind.ne_error_of_isQualifiedName hname

private theorem constantName_mask (h : p.kind ≠ .error) :
    (nameChild? p.mask).bind src.mask.document.qualifiedName? = (nameChild? p).bind src.document.qualifiedName? := by
  rw [nameChild_mask h]
  cases hn : nameChild? p with
  | none => rfl
  | some name => exact src.document.qualifiedName_mask (nameChild_ne_error hn)

private theorem createdName_mask (h : p.kind ≠ .error) :
    (p.mask.phrase? .classTypeDesignator).bind nameChild? =
      ((p.phrase? .classTypeDesignator).bind nameChild?).map Phrase.mask := by
  rw [Option.map_bind]
  exact Phrase.bind_mask h (by decide) fun _ hq => nameChild_mask hq

private theorem plainTypeOfLast_cons (n m : Node) (ns : List Node) :
    src.plainTypeOfLast r (n :: m :: ns) = src.plainTypeOfLast r (m :: ns) := by
  rw [plainTypeOfLast]
  exact List.cons_ne_nil m ns

mutual

theorem plainType_mask : ∀ n : Node, src.mask.plainType r n.mask = src.plainType r n
  | .token t => by
    rw [Node.mask, plainType, plainType]
  | .phrase kind children => by
    rw [Node.mask, plainType.eq_def, plainType.eq_def]
    dsimp only
    split
    · rfl
    · rw [← Phrase.mask_mk, src.constantName_mask (p := ⟨.constantAccessExpression, children⟩) nofun]
    · exact plainTypeOfLast_mask children
    · rw [← Phrase.mask_mk, createdName_mask (p := ⟨.objectCreationExpression, children⟩) nofun]
      cases hn : ((Phrase.mk .objectCreationExpression children).phrase? .classTypeDesignator).bind nameChild? with
      | none => rfl
      | some name =>
        obtain ⟨designator, -, hname⟩ := Option.bind_eq_some_iff.1 hn
        dsimp only [Option.map_some]
        rw [src.resolvedName_mask r (nameChild_ne_error hname)]
    · rfl

theorem plainTypeOfLast_mask : ∀ ns : List Node,
    src.mask.plainTypeOfLast r (Node.maskAll ns) = src.plainTypeOfLast r ns
  | [] => by rw [Node.maskAll, plainTypeOfLast, plainTypeOfLast]
  | [n] => by
    rw [Node.maskAll, Node.maskAll, plainTypeOfLast, plainTypeOfLast]
    exact plainType_mask n
  | n :: m :: ns => by
    have hrest := plainTypeOfLast_mask (m :: ns)
    rw [Node.maskAll] at hrest
    rw [Node.maskAll, Node.maskAll, plainTypeOfLast_cons, plainTypeOfLast_cons]
    exact hrest

end

theorem isEquals_mask (n : Node) : isEquals n.mask = isEquals n := by
  cases n with
  | token t => rfl
  | phrase kind children =>
    rw [Node.mask]
    rfl

theorem initialValue_mask (h : p.kind ≠ .error) : src.mask.initialValue r p.mask = src.initialValue r p := by
  have hdrop : p.mask.children.dropWhile (!isEquals ·) = Node.maskAll (p.children.dropWhile (!isEquals ·)) := by
    rw [Phrase.children_mask h, List.dropWhile_map, Node.maskAll_eq_map]
    congr 2
    funext n
    exact congrArg Bool.not (isEquals_mask n)
  unfold initialValue
  rw [hdrop]
  cases p.children.dropWhile (!isEquals ·) with
  | nil => rfl
  | cons n nodes =>
    rw [Node.maskAll]
    dsimp only
    rw [Node.firstTokenOf_mask, Node.lastTokenOf_mask]
    congr 1
    match nodes with
    | [] => rfl
    | [node] => exact src.plainType_mask r node
    | _ :: _ :: _ => rfl

/-! ### Modifiers, parameters and functions -/

theorem allModifiers_mask (h : p.kind ≠ .error) : allModifiers p.mask = allModifiers p := by
  unfold allModifiers
  rw [Phrase.phrase_mask h, Phrase.tokens_mask h]
  cases hl : p.phrase? .memberModifierList with
  | none => rfl
  | some l =>
    dsimp only [Option.map_some]
    rw [Phrase.tokens_mask (Phrase.kind_ne_error hl (by decide))]

theorem parameter_mask (doc : Option DocBlock) (h : p.kind ≠ .error) :
    src.mask.parameter? r doc p.mask = src.parameter? r doc p := by
  unfold parameter?
  rw [Phrase.token_mask h, Phrase.hasToken_mask h, Phrase.hasToken_mask h, src.typeOfOwner_mask r h,
    src.initialValue_mask r h]
  simp only [placed_mask, text_mask]

/-- What is made of some phrases, if masking matters neither for their choice nor for what is made of them. -/
theorem filterMap_mask {α : Type} {f g : Phrase → Option α} {keep : Phrase → Bool} (ps : List Phrase)
    (hm : ∀ q : Phrase, keep q.mask = keep q) (hk : ∀ q : Phrase, keep q = true → q.kind ≠ .error)
    (h : ∀ q : Phrase, q.kind ≠ .error → f q.mask = g q) :
    ((ps.map Phrase.mask).filter keep).filterMap f = (ps.filter keep).filterMap g := by
  have hkeep : keep ∘ Phrase.mask = keep := funext hm
  rw [List.filter_map, hkeep, List.filterMap_map]
  exact List.filterMap_congr fun q hq => h q (hk q (List.mem_filter.1 hq).2)

/-- The same for a choice by kind. -/
theorem filterMap_mask_of_kind {α : Type} {f g : Phrase → Option α} (kinds : PhraseKind → Bool)
    (hk : kinds .error = false) (ps : List Phrase) (h : ∀ q : Phrase, q.kind ≠ .error → f q.mask = g q) :
    ((ps.map Phrase.mask).filter (kinds ·.kind)).filterMap f = (ps.filter (kinds ·.kind)).filterMap g := by
  refine filterMap_mask ps (fun _ => rfl) (fun q hq he => ?_) h
  rw [he, hk] at hq
  cases hq

theorem parameters_mask (doc : Option DocBlock) (h : p.kind ≠ .error) :
    src.mask.parameters r doc p.mask = src.parameters r doc p := by
  unfold parameters
  rw [Phrase.phrase_mask h]
  cases hl : p.phrase? .parameterDeclarationList with
  | none => rfl
  | some l =>
    dsimp only [Option.map_some]
    rw [Phrase.phrases_mask (Phrase.kind_ne_error hl (by decide))]
    exact filterMap_mask_of_kind (· == .parameterDeclaration) rfl _ fun q => src.parameter_mask r doc

theorem callableSymbol_mask (doc : Option DocBlock) (kind : SymbolKind) (name : String) (p : Phrase) {header : Phrase}
    (h : header.kind ≠ .error) :
    src.mask.callableSymbol r doc kind name p.mask header.mask = src.callableSymbol r doc kind name p header := by
  unfold callableSymbol
  rw [src.returnType_mask r h, Phrase.hasToken_mask h, src.parameters_mask r doc h, placed_mask]

/-! ### Namespaces and imports -/

theorem spaceName_mask (h : p.kind ≠ .error) : src.mask.spaceName p.mask = src.spaceName p := by
  unfold spaceName
  rw [Phrase.phrase_mask h]
  cases hn : p.phrase? .namespaceName with
  | none => rfl
  | some name => exact src.document.joinedNames_mask (Phrase.kind_ne_error hn (by decide))

theorem isBraced_mask (h : p.kind ≠ .error) : isBraced p.mask = isBraced p := by
  unfold isBraced
  rw [Phrase.phrases_mask h, List.any_map]
  rfl

theorem importedKind_mask (h : p.kind ≠ .error) (default : SymbolKind) :
    importedKind p.mask default = importedKind p default := by
  unfold importedKind
  rw [Phrase.hasToken_mask h, Phrase.hasToken_mask h]

/-- The import with a masked clause. -/
def Import.mask (i : Import) : Import :=
  { i with clause := i.clause.mask }

theorem importOfClause_mask (kind : SymbolKind) (outer : String) (h : p.kind ≠ .error) :
    src.mask.importOfClause? kind outer p.mask = (src.importOfClause? kind outer p).map Import.mask := by
  unfold importOfClause?
  rw [Phrase.bind_token_mask h (by decide), Phrase.phrase_mask h, importedKind_mask h]
  cases hn : p.phrase? .namespaceName with
  | none => rfl
  | some name =>
    have hname := src.document.joinedNames_mask (Phrase.kind_ne_error hn (by decide))
    simp only [Option.map_some, document_mask, hname, text_mask]
    rfl

theorem imports_mask (h : p.kind ≠ .error) : src.mask.imports p.mask = (src.imports p).map Import.mask := by
  unfold imports
  rw [Phrase.phrases_mask h, importedKind_mask h, src.spaceName_mask h, List.map_filterMap]
  exact filterMap_mask_of_kind (· == .namespaceUseClause) rfl _ fun q => src.importOfClause_mask _ _

theorem importSymbol_mask (i : Import) : src.mask.importSymbol i.mask = src.importSymbol i := by
  unfold importSymbol Import.mask
  rw [placed_mask]

/-! ### Classes and members -/

theorem parents_mask (kind : SymbolKind) (h : p.kind ≠ .error) :
    src.mask.parents r kind p.mask = src.parents r kind p := by
  have hclause : (if kind == .interface then PhraseKind.interfaceBaseClause else .classInterfaceClause) ≠ .error := by
    split <;> decide
  have hlisted : ∀ {clause q}, p.phrase? clause = some q → clause ≠ .error →
      src.mask.listedNames r q.mask = src.listedNames r q :=
    fun hq hc => src.listedNames_mask r (Phrase.kind_ne_error hq hc)
  unfold parents
  dsimp only
  generalize (if kind == .interface then PhraseKind.interfaceBaseClause else .classInterfaceClause) = clause
    at hclause
  rw [Phrase.phrase_mask h, Phrase.phrase_mask h]
  cases hb : p.phrase? .classBaseClause with
  | none =>
    cases hc : p.phrase? clause with
    | none => rfl
    | some q => simp only [Option.map_some, Option.map_none, hlisted hc hclause]
  | some base =>
    cases hc : p.phrase? clause with
    | none => simp only [Option.map_some, Option.map_none, hlisted hb (by decide)]
    | some q => simp only [Option.map_some, hlisted hb (by decide), hlisted hc hclause]

theorem classSymbol_mask (h : p.kind ≠ .error) : src.mask.classSymbol r p.mask = src.classSymbol r p := by
  have hheader : (classKinds p.kind).2 ≠ .error := by
    unfold classKinds
    split <;> decide
  unfold classSymbol
  rw [Phrase.kind_mask]
  generalize classKinds p.kind = kinds at hheader
  obtain ⟨kind, headerKind⟩ := kinds
  dsimp only
  rw [Phrase.phrase_mask h]
  cases hh : p.phrase? headerKind with
  | none => exact src.placed_mask _ p
  | some header =>
    have hne := Phrase.kind_ne_error hh hheader
    dsimp only [Option.map_some]
    rw [Phrase.token_mask hne, allModifiers_mask hne, src.parents_mask r kind hne, placed_mask]
    rfl

theorem anonymousClassSymbol_mask (h : p.kind ≠ .error) :
    src.mask.anonymousClassSymbol r p.mask = src.anonymousClassSymbol r p := by
  unfold anonymousClassSymbol
  rw [Phrase.phrase_mask h, Phrase.span_mask]
  simp only [placed_mask, document_mask, uri_mask]
  cases hh : p.phrase? .anonymousClassDeclarationHeader with
  | none => rfl
  | some header => simp only [Option.map_some, src.parents_mask r .cls (Phrase.kind_ne_error hh (by decide))]

theorem classConstants_mask (doc : Option DocBlock) (h : p.kind ≠ .error) :
    src.mask.classConstants r doc p.mask = src.classConstants r doc p := by
  unfold classConstants
  rw [allModifiers_mask h, Phrase.phrases_mask h]
  refine filterMap_mask_of_kind (· == .classConstElement) rfl _ fun q hq => ?_
  rw [Phrase.token_mask hq, src.initialValue_mask r hq]
  simp only [placed_mask, text_mask]

theorem properties_mask (doc : Option DocBlock) (h : p.kind ≠ .error) :
    src.mask.properties r doc p.mask = src.properties r doc p := by
  unfold properties
  rw [allModifiers_mask h, src.typeOfOwner_mask r h, Phrase.phrases_mask h]
  refine filterMap_mask_of_kind (· == .propertyElement) rfl _ fun q hq => ?_
  rw [Phrase.token_mask hq, src.initialValue_mask r hq]
  simp only [placed_mask, text_mask]

theorem constants_mask (doc : Option DocBlock) (h : p.kind ≠ .error) :
    src.mask.constants r doc p.mask = src.constants r doc p := by
  unfold constants
  rw [Phrase.phrases_mask h]
  refine filterMap_mask_of_kind (· == .constElement) rfl _ fun q hq => ?_
  rw [Phrase.token_mask hq, src.initialValue_mask r hq]
  simp only [placed_mask, text_mask]

theorem constructorProperties_mask (h : p.kind ≠ .error) :
    src.mask.constructorProperties r p.mask = src.constructorProperties r p := by
  unfold constructorProperties
  rw [Phrase.phrase_mask h]
  cases hl : p.phrase? .parameterDeclarationList with
  | none => rfl
  | some l =>
    dsimp only [Option.map_some]
    rw [Phrase.phrases_mask (Phrase.kind_ne_error hl (by decide))]
    refine filterMap_mask _ (fun q => ?_) (fun q hq he => ?_) (fun q hq => ?_)
    · by_cases hk : q.kind = .parameterDeclaration
      · rw [Phrase.phrase_mask (by rw [hk]; decide), Option.isSome_map, Phrase.kind_mask]
      · rw [Phrase.kind_mask, beq_eq_false_iff_ne.2 hk, Bool.false_and, Bool.false_and]
    · rw [he] at hq
      cases hq
    · rw [src.parameter_mask r none hq, allModifiers_mask hq]

theorem methodName_mask (h : p.kind ≠ .error) : src.mask.methodName p.mask = src.methodName p := by
  unfold methodName
  rw [Phrase.token_mask h]
  rfl

theorem lacksBody_mask (h : p.kind ≠ .error) : lacksBody p.mask = lacksBody p := by
  unfold lacksBody
  rw [Phrase.phrase_mask h]
  cases hb : p.phrase? .methodDeclarationBody with
  | none => rfl
  | some body =>
    dsimp only [Option.map_some]
    rw [Phrase.phrase_mask (Phrase.kind_ne_error hb (by decide)), Option.isNone_map]

theorem methodSymbol_mask (doc : Option DocBlock) (inInterface : Bool) (h : p.kind ≠ .error) {header : Phrase}
    (hh : header.kind ≠ .error) :
    src.mask.methodSymbol r doc inInterface p.mask header.mask = src.methodSymbol r doc inInterface p header := by
  unfold methodSymbol
  rw [src.methodName_mask hh, src.callableSymbol_mask r doc .method _ p hh, allModifiers_mask hh, lacksBody_mask h]

theorem functionSymbol_mask (doc : Option DocBlock) (p : Phrase) {header : Phrase} (hh : header.kind ≠ .error) :
    src.mask.functionSymbol r doc p.mask header.mask = src.functionSymbol r doc p header := by
  unfold functionSymbol
  rw [Phrase.token_mask hh]
  exact src.callableSymbol_mask r doc .function _ p hh

theorem capturedVariables_mask (byReference : Bool) (ts : List Token) :
    src.mask.capturedVariables byReference ts = src.capturedVariables byReference ts := by
  induction ts generalizing byReference with
  | nil => rfl
  | cons t ts ih =>
    unfold capturedVariables
    rw [ih, ih, ih]
    rfl

theorem anonymousFunction_mask (doc : Option DocBlock) (h : p.kind ≠ .error) {header : Phrase}
    (hh : header.kind ≠ .error) :
    src.mask.anonymousFunction r doc p.mask header.mask = src.anonymousFunction r doc p header := by
  unfold anonymousFunction
  rw [src.callableSymbol_mask r doc .function _ p hh, Phrase.hasToken_mask h]

theorem closureSymbol_mask (doc : Option DocBlock) (h : p.kind ≠ .error) :
    src.mask.closureSymbol r doc p.mask = src.closureSymbol r doc p := by
  have hheader : (p.mask.phrase? .anonymousFunctionHeader).getD p.mask =
      ((p.phrase? .anonymousFunctionHeader).getD p).mask := by
    rw [Phrase.phrase_mask h]
    cases p.phrase? .anonymousFunctionHeader <;> rfl
  have hne : ((p.phrase? .anonymousFunctionHeader).getD p).kind ≠ .error := by
    cases hp : p.phrase? .anonymousFunctionHeader with
    | none => exact h
    | some header => exact Phrase.kind_ne_error hp (by decide)
  unfold closureSymbol
  rw [hheader]
  generalize (p.phrase? .anonymousFunctionHeader).getD p = header at hne
  dsimp only
  rw [src.anonymousFunction_mask r doc h hne, Phrase.phrase_mask hne]
  cases hu : header.phrase? .anonymousFunctionUseClause with
  | none => rfl
  | some uses =>
    dsimp only [Option.map_some]
    rw [Phrase.tokens_mask (Phrase.kind_ne_error hu (by decide)), capturedVariables_mask]

/-! ### Variables -/

theorem nameToken_mask (q : Phrase) : nameToken? q.mask = nameToken? q := by
  unfold nameToken?
  rw [Phrase.kind_mask]
  split
  · rename_i hk
    exact Phrase.token_mask (by rw [eq_of_beq hk]; decide) _
  · rfl

theorem assignedVariable_mask (doc : Option DocBlock) (h : p.kind ≠ .error) :
    src.mask.assignedVariable? r doc p.mask = src.assignedVariable? r doc p := by
  have htoken : p.mask.phrases.head?.bind nameToken? = p.phrases.head?.bind nameToken? := by
    rw [Phrase.phrases_mask h, List.head?_map, Option.bind_map]
    congr 1
    funext q
    exact nameToken_mask q
  have hlast : src.mask.plainTypeOfLast r p.mask.children = src.plainTypeOfLast r p.children := by
    rw [Phrase.children_mask h, ← Node.maskAll_eq_map, plainTypeOfLast_mask]
  unfold assignedVariable?
  rw [htoken, hlast]
  rfl

theorem loopVariables_mask (h : p.kind ≠ .error) : loopVariables p.mask = loopVariables p := by
  unfold loopVariables
  rw [Phrase.phrases_mask h]
  refine filterMap_mask_of_kind (fun k => k == .foreachKey || k == .foreachValue) rfl _ fun q hq => ?_
  rw [Phrase.phrases_mask hq, List.findSome?_map]
  congr 2
  funext slot
  exact nameToken_mask slot

theorem caughtVariable_mask (h : p.kind ≠ .error) : src.mask.caughtVariable? r p.mask = src.caughtVariable? r p := by
  unfold caughtVariable?
  rw [Phrase.token_mask h, Phrase.phrase_mask h]
  cases hl : p.phrase? .catchNameList with
  | none => rfl
  | some l => simp only [Option.map_some, src.listedNames_mask r (Phrase.kind_ne_error hl (by decide))]

theorem globalVariables_mask (h : p.kind ≠ .error) : globalVariables p.mask = globalVariables p := by
  unfold globalVariables
  rw [Phrase.phrases_mask h, List.filterMap_map]
  congr 2
  funext q
  exact nameToken_mask q

end Source

/-! ### The walk -/

namespace DeclarationState

variable (src : Source) (s : DeclarationState) {p : Phrase}

theorem declareAll_mask (vs : List Source.Assigned) : s.declareAll src.mask vs = s.declareAll src vs := rfl

theorem importNames_mask (h : p.kind ≠ .error) : s.importNames src.mask p.mask = s.importNames src p := by
  unfold importNames
  rw [src.imports_mask h, List.foldl_map]
  simp only [Source.importSymbol_mask]
  rfl

theorem useTraits_mask (h : p.kind ≠ .error) : s.useTraits src.mask p.mask = s.useTraits src p := by
  unfold useTraits
  rw [src.listedNames_mask _ h]

theorem spaceDefinition_mask (h : p.kind ≠ .error) :
    s.spaceDefinition src.mask p.mask = s.spaceDefinition src p := by
  unfold spaceDefinition
  rw [src.spaceName_mask h]
  simp only [Source.placed_mask]

theorem methodDeclaration_mask (h : p.kind ≠ .error) :
    s.methodDeclaration src.mask p.mask = s.methodDeclaration src p := by
  unfold methodDeclaration
  rw [Phrase.phrase_mask h]
  cases hh : p.phrase? .methodDeclarationHeader with
  | none => simp only [Option.map_none, Source.placed_mask]
  | some header =>
    have hne := Phrase.kind_ne_error hh (by decide)
    simp only [Option.map_some, src.methodName_mask hne, src.constructorProperties_mask _ hne,
      src.methodSymbol_mask _ _ _ h hne]

theorem functionDeclaration_mask (h : p.kind ≠ .error) :
    s.functionDeclaration src.mask p.mask = s.functionDeclaration src p := by
  unfold functionDeclaration
  rw [Phrase.phrase_mask h]
  cases hh : p.phrase? .functionDeclarationHeader with
  | none => simp only [Option.map_none, Source.placed_mask]
  | some header => simp only [Option.map_some, src.functionSymbol_mask _ _ p (Phrase.kind_ne_error hh (by decide))]

theorem enter_mask (p : Phrase) : s.enter src.mask p.mask = s.enter src p := by
  by_cases h : p.kind = .error
  · unfold enter
    simp only [Phrase.kind_mask, h]
  · unfold enter
    simp only [Phrase.kind_mask, Source.isBraced_mask h, spaceDefinition_mask src _ h, importNames_mask src _ h,
      src.classSymbol_mask _ h, src.anonymousClassSymbol_mask _ h, useTraits_mask src _ h,
      src.classConstants_mask _ _ h, src.properties_mask _ _ h, src.constants_mask _ _ h,
      methodDeclaration_mask src _ h, functionDeclaration_mask src _ h, src.closureSymbol_mask _ _ h,
      src.anonymousFunction_mask _ _ h h, src.assignedVariable_mask _ _ h, Source.loopVariables_mask h,
      src.caughtVariable_mask _ h, Source.globalVariables_mask h, declareAll_mask]
    rfl

theorem visitor_masks : (visitor src).Masks (visitor src.mask) where
  enter s p _ := enter_mask src s p
  refuse s p _ h := by
    show (s.enter src p).2 = false
    unfold enter
    simp only [h]
    rfl
  leave _ _ _ _ := rfl
  token _ _ _ := rfl

end DeclarationState

/-- The symbols of a document do not depend on what stands inside its error phrases. -/
theorem Document.fileSymbol_mask (d : Document) : d.mask.fileSymbol = d.fileSymbol := by
  have hwalk := (DeclarationState.visitor_masks (Source.ofDocument d)).traverse d.tree
    (DeclarationState.initial (Source.ofDocument d))
  unfold fileSymbol
  exact congrArg (DeclarationState.finish (Source.ofDocument d)) hwalk

end CodeAtlas
