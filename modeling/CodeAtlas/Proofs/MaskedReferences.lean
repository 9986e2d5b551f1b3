import CodeAtlas.Proofs.MaskedDeclarations
import CodeAtlas.Reference.Pass

/-!
# References in masked trees

The reference walk asks an error phrase for its kind only, and for its place where it stands in a larger phrase.  So
what stands inside error phrases changes neither the symbols nor the references of a document
(`Document.errors_opaque`).
-/

namespace CodeAtlas

@[simp] theorem Source.range_mask (src : Source) (p : Phrase) : src.mask.range p.mask = src.range p := by
  unfold range
  rw [range?_mask]

/-- The input with a masked tree. -/
def ReferenceInput.mask (env : ReferenceInput) : ReferenceInput :=
  { env with source := env.source.mask }

namespace ReferenceState

variable (env : ReferenceInput) (src : Source) (s : ReferenceState) {p : Phrase}

/-! ### Declarations -/

theorem spaceDefinition_mask (h : p.kind ≠ .error) :
    s.spaceDefinition src.mask p.mask = s.spaceDefinition src p := by
  unfold spaceDefinition
  rw [src.spaceName_mask h, Phrase.phrase_mask h]
  cases p.phrase? .namespaceName with
  | none => rfl
  | some name => simp only [Option.map_some, Source.range_mask]

theorem useClause_mask (h : p.kind ≠ .error) : s.useClause src.mask p.mask = s.useClause src p := by
  unfold useClause
  rw [Phrase.phrase_mask h]
  cases p.phrase? .namespaceName with
  | none => rfl
  | some name => simp only [Option.map_some, Source.range_mask]

theorem importNames_mask (h : p.kind ≠ .error) : s.importNames src.mask p.mask = s.importNames src p := by
  unfold importNames
  rw [Phrase.phrases_mask h, Phrase.filter_mask (· == .namespaceUseClause), List.foldl_map]
  refine List.foldl_ext _ _ s fun s' clause hc => useClause_mask src s' ?_
  rw [eq_of_beq (List.mem_filter.1 hc).2]
  decide

theorem classDeclaration_mask (h : p.kind ≠ .error) :
    s.classDeclaration src.mask p.mask = s.classDeclaration src p := by
  have hheader : (Source.classKinds p.kind).2 ≠ .error := by
    unfold Source.classKinds
    split <;> decide
  unfold classDeclaration
  rw [Phrase.kind_mask]
  generalize Source.classKinds p.kind = kinds at hheader
  obtain ⟨kind, headerKind⟩ := kinds
  dsimp only
  rw [Phrase.bind_token_mask h hheader]
  rfl

theorem unnamedClass_mask (p : Phrase) : s.unnamedClass env.mask p.mask = s.unnamedClass env p := by
  unfold unnamedClass
  rw [Phrase.span_mask]
  rfl

theorem openFunctionBody_mask (p : Phrase) (symbol : Symbol) (carried : List String) :
    s.openFunctionBody src.mask p.mask symbol carried = s.openFunctionBody src p symbol carried := by
  unfold openFunctionBody
  rw [Source.range_mask]

theorem methodDeclaration_mask (h : p.kind ≠ .error) :
    s.methodDeclaration src.mask p.mask = s.methodDeclaration src p := by
  unfold methodDeclaration
  rw [Phrase.bind_token_mask h (by decide)]
  simp only [openFunctionBody_mask]
  rfl

theorem functionDeclaration_mask (h : p.kind ≠ .error) :
    s.functionDeclaration src.mask p.mask = s.functionDeclaration src p := by
  unfold functionDeclaration
  rw [Phrase.bind_token_mask h (by decide)]
  simp only [openFunctionBody_mask]
  rfl

theorem carriedVariables_mask (h : p.kind ≠ .error) :
    carriedVariables src.mask s p.mask = carriedVariables src s p := by
  have huses : (p.mask.phrase? .anonymousFunctionHeader).bind (·.phrase? .anonymousFunctionUseClause) =
      ((p.phrase? .anonymousFunctionHeader).bind (·.phrase? .anonymousFunctionUseClause)).map Phrase.mask := by
    rw [Option.map_bind]
    exact Phrase.bind_mask h (by decide) fun _ hq => Phrase.phrase_mask hq _
  unfold carriedVariables
  rw [huses, Phrase.hasToken_mask h, Phrase.kind_mask]
  cases hu : (p.phrase? .anonymousFunctionHeader).bind (·.phrase? .anonymousFunctionUseClause) with
  | none => rfl
  | some uses =>
    obtain ⟨header, -, hh⟩ := Option.bind_eq_some_iff.1 hu
    dsimp only [Option.map_some]
    rw [Phrase.tokens_mask (Phrase.kind_ne_error hh (by decide))]
    rfl

theorem closureExpression_mask (h : p.kind ≠ .error) :
    s.closureExpression src.mask p.mask = s.closureExpression src p := by
  unfold closureExpression
  simp only [carriedVariables_mask src _ h, openFunctionBody_mask]

theorem parameterDeclaration_mask (h : p.kind ≠ .error) :
    s.parameterDeclaration src.mask p.mask = s.parameterDeclaration src p := by
  unfold parameterDeclaration
  rw [Phrase.token_mask h]
  rfl

theorem declaredMember_mask (h : p.kind ≠ .error) : s.declaredMember src.mask p.mask = s.declaredMember src p := by
  unfold declaredMember
  simp only [Phrase.kind_mask, Phrase.token_mask h]
  rfl

/-! ### Expressions -/

theorem qualifiedName_mask (h : p.kind ≠ .error) (kind : SymbolKind) :
    s.qualifiedName env.mask p.mask kind = s.qualifiedName env p kind := by
  have hname : env.mask.source.document.qualifiedName? p.mask = env.source.document.qualifiedName? p :=
    env.source.document.qualifiedName_mask h
  have hreference : ∀ text form, s.nameReference env.mask.source p.mask kind text form =
      s.nameReference env.source p kind text form := by
    intro text form
    unfold nameReference
    rw [show env.mask.source = env.source.mask from rfl, Source.range_mask]
  unfold qualifiedName
  rw [hname]
  simp only [hreference]
  rfl

theorem simpleVariable_mask (h : p.kind ≠ .error) : s.simpleVariable src.mask p.mask = s.simpleVariable src p := by
  unfold simpleVariable
  rw [Phrase.token_mask h]
  rfl

theorem accessMember_mask (h : p.kind ≠ .error) (kind : SymbolKind) (outcomes : List Outcome) :
    s.accessMember env.mask p.mask kind outcomes = s.accessMember env p kind outcomes := by
  have hname : accessedName? p.mask = accessedName? p := by
    unfold accessedName?
    rw [Phrase.tokens_mask h]
  unfold accessMember
  rw [hname]
  rfl

theorem callsByName_mask (h : p.kind ≠ .error) : callsByName p.mask = callsByName p := by
  unfold callsByName
  rw [Phrase.phrases_mask h]
  cases p.phrases <;> rfl

theorem finishPhrase_mask (h : p.kind ≠ .error) (transform : Reduction) (outcomes : List Outcome) :
    s.finishPhrase env.mask p.mask transform outcomes = s.finishPhrase env p transform outcomes := by
  unfold finishPhrase
  simp only [qualifiedName_mask env s h, accessMember_mask env s h, callsByName_mask h]
  rw [show env.mask.source = env.source.mask from rfl, simpleVariable_mask env.source s h]

/-! ### The walk -/

theorem enter_mask (p : Phrase) (path : List Phrase) :
    s.enter env.mask p.mask (path.map Phrase.mask) = s.enter env p path := by
  have hparent : (path.map Phrase.mask).head?.map (·.kind) = path.head?.map (·.kind) := by
    cases path <;> rfl
  -- an error phrase is refused before anything else is asked
  by_cases h : p.kind = .error
  · unfold enter
    simp only [Phrase.kind_mask, h]
  · have hsource : env.mask.source = env.source.mask := rfl
    unfold enter
    simp only [Phrase.kind_mask, hparent, hsource, Source.isBraced_mask h, spaceDefinition_mask _ _ h,
      importNames_mask _ _ h, classDeclaration_mask _ _ h, unnamedClass_mask, methodDeclaration_mask _ _ h,
      functionDeclaration_mask _ _ h, closureExpression_mask _ _ h, parameterDeclaration_mask _ _ h,
      declaredMember_mask _ _ h]
    rfl

theorem leave_mask (h : p.kind ≠ .error) : s.leave env.mask p.mask = s.leave env p := by
  unfold leave
  simp only [finishPhrase_mask env _ h, Phrase.kind_mask]

theorem visitor_masks : (visitor env).Masks (visitor env.mask) where
  enter s p path := enter_mask env s p path
  refuse s p path h := by
    show (s.enter env p path).2 = false
    unfold enter
    simp only [h]
  leave s _ _ h := leave_mask env s h
  token _ _ _ := rfl

end ReferenceState

/-! ### Documents -/

/-- The references of a document do not depend on what stands inside its error phrases. -/
theorem Occurrences.ofDocument_mask (d : Document) (pool : SymbolPool) :
    ofDocument d.mask (SymbolTable.ofDocument d.mask) pool = ofDocument d (SymbolTable.ofDocument d) pool := by
  have htable : SymbolTable.ofDocument d.mask = SymbolTable.ofDocument d := by
    unfold SymbolTable.ofDocument
    rw [Document.fileSymbol_mask]
    rfl
  have hwalk := (ReferenceState.visitor_masks ⟨Source.ofDocument d, d.uri, pool⟩).traverse d.tree
    (ReferenceState.initial (Source.ofDocument d) d.fileSymbol)
  rw [htable]
  unfold ofDocument
  exact congrArg (fun s => ofScope d.uri (ReferenceState.root s)) hwalk

namespace Document

theorem mask_eq_of_alike {d d' : Document} (huri : d.uri = d'.uri) (htext : d.text = d'.text)
    (htree : d.tree.toNode.Alike d'.tree.toNode) : d.mask = d'.mask := by
  have hnode : d.tree.mask.toNode = d'.tree.mask.toNode := by
    rw [Phrase.toNode_mask, Phrase.toNode_mask, htree.mask_eq]
  have hmask : d.tree.mask = d'.tree.mask := by
    obtain ⟨hkind, hchildren⟩ := Node.phrase.inj hnode
    exact congrArg₂ Phrase.mk hkind hchildren
  unfold mask
  rw [huri, htext, hmask]

/-- Two documents that differ only inside error phrases, and there not in the outermost tokens, have the same symbols
and the same references. -/
theorem errors_opaque (d d' : Document) (huri : d.uri = d'.uri) (htext : d.text = d'.text)
    (htree : d.tree.toNode.Alike d'.tree.toNode) : d.fileSymbol = d'.fileSymbol ∧
      ∀ pool : SymbolPool, Occurrences.ofDocument d (SymbolTable.ofDocument d) pool =
        Occurrences.ofDocument d' (SymbolTable.ofDocument d') pool := by
  have hmask : d.mask = d'.mask := mask_eq_of_alike huri htext htree
  constructor
  · rw [← d.fileSymbol_mask, ← d'.fileSymbol_mask, hmask]
  · intro pool
    rw [← Occurrences.ofDocument_mask d, ← Occurrences.ofDocument_mask d', hmask]

/-- A function with a parameter that could not be read, for which some nodes stand. -/
private def brokenParameter (nodes : List Node) : Document :=
  ⟨"file:///a.php", "<?php function f($a = class B {}) { return $a; }",
    ⟨.statementList, [.phrase .functionDeclaration [
      .phrase .functionDeclarationHeader [.token ⟨.name, 15, 1⟩,
        .phrase .parameterDeclarationList [.phrase .parameterDeclaration [.token ⟨.variableName, 17, 2⟩,
          .token ⟨.equals, 20, 1⟩, .phrase .error nodes]]],
      .phrase .simpleVariable [.token ⟨.variableName, 43, 2⟩]]]⟩⟩

/-- A class declaration in an error phrase is as good as its two outermost tokens. -/
theorem errors_opaque_class :
    let withClass := brokenParameter [.phrase .classDeclaration [.token ⟨.classKeyword, 22, 5⟩,
      .phrase .classDeclarationHeader [.token ⟨.name, 28, 1⟩], .token ⟨.closeBrace, 31, 1⟩]]
    let withTokens := brokenParameter [.token ⟨.classKeyword, 22, 5⟩, .token ⟨.closeBrace, 31, 1⟩]
    withClass.fileSymbol = withTokens.fileSymbol ∧
      ∀ pool : SymbolPool, Occurrences.ofDocument withClass (SymbolTable.ofDocument withClass) pool =
        Occurrences.ofDocument withTokens (SymbolTable.ofDocument withTokens) pool :=
  errors_opaque _ _ rfl rfl (by
    simp only [brokenParameter, Phrase.toNode, Node.Alike, Node.AllAlike]
    decide)

end Document

end CodeAtlas
