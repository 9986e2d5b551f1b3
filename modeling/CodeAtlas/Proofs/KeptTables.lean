import CodeAtlas.Proofs.DeclarationInvariant
import CodeAtlas.Proofs.StoredTables
import CodeAtlas.Proofs.TypeReading

/-!
# What storing keeps

A stored table holds types as texts.  The declaration walk locates every symbol in its document and gives it types with
distinct parts (`Symbol.AllSound`), so storing the table of a document keeps everything but types, and keeps a type
exactly when it is settled (`SymbolTable.restore_store_ofDocument`).  Not every declared type is: the word `parent`
outside a class stands for an empty name, and this part of the type is lost (`SymbolTable.parent_type_lost`).
-/

namespace CodeAtlas

/-! ### Sound symbols -/

namespace Symbol

/-- The symbol lies in the document `uri`, and the parts of its type are distinct. -/
structure Sound (uri : String) (s : Symbol) : Prop where
  location : ∀ l ∈ s.location, l.uri = uri
  type : ∀ t ∈ s.type, t.parts.Nodup

/-- The symbol and everything below it is sound. -/
def AllSound (uri : String) (s : Symbol) : Prop :=
  ∀ x ∈ s.descendants, x.Sound uri

theorem allSound_iff {uri : String} {s : Symbol} :
    s.AllSound uri ↔ s.Sound uri ∧ ∀ c ∈ s.children, c.AllSound uri :=
  forall_descendants_iff

namespace AllSound

variable {uri : String} {s : Symbol}

section Details

variable {kind : SymbolKind} {name : String} {modifiers : Modifiers} {doc : Option Documentation}
  {associated : List SymbolLink} {scope value : Option String}

theorem children (h : s.AllSound uri) : ∀ c ∈ s.children, c.AllSound uri :=
  (allSound_iff.1 h).2

/-- Soundness is a matter of location, type and children. -/
theorem withChildren (h : s.AllSound uri) {children : List Symbol} (hc : ∀ c ∈ children, c.AllSound uri) :
    Symbol.AllSound uri ⟨kind, name, s.location, modifiers, s.type, doc, associated, children, scope, value⟩ := by
  obtain ⟨hs, -⟩ := allSound_iff.1 h
  exact allSound_iff.2 ⟨⟨hs.location, hs.type⟩, hc⟩

theorem withDetails (h : s.AllSound uri) :
    Symbol.AllSound uri ⟨kind, name, s.location, modifiers, s.type, doc, associated, s.children, scope, value⟩ :=
  h.withChildren h.children

end Details

theorem bare (uri : String) (kind : SymbolKind) (name : String) : (Symbol.bare kind name).AllSound uri :=
  allSound_iff.2 ⟨⟨nofun, nofun⟩, nofun⟩

theorem withModifiers (h : s.AllSound uri) (m : Modifiers) : (s.withModifiers m).AllSound uri :=
  h.withDetails

theorem withScope (h : s.AllSound uri) (scope : String) : (s.withScope scope).AllSound uri :=
  h.withDetails

/-- A new location may be any of the document. -/
theorem located (h : s.AllSound uri) {location : Option Location} (hl : ∀ l ∈ location, l.uri = uri) :
    { s with location := location }.AllSound uri := by
  obtain ⟨hs, hcs⟩ := allSound_iff.1 h
  exact allSound_iff.2 ⟨⟨hl, hs.type⟩, hcs⟩

theorem withType (h : s.AllSound uri) {t : TypeText} (ht : t.parts.Nodup) : (s.withType t).AllSound uri := by
  obtain ⟨hs, hcs⟩ := allSound_iff.1 h
  refine allSound_iff.2 ⟨⟨hs.location, ?_⟩, hcs⟩
  unfold Symbol.withType
  split
  · exact nofun
  · rintro _ ⟨⟩
    exact ht

theorem addChild (h : s.AllSound uri) {child : Symbol} (hc : child.AllSound uri) : (s.addChild child).AllSound uri :=
  h.withChildren (List.forall_mem_append.2 ⟨h.children, List.forall_mem_singleton.2 hc⟩)

end AllSound

end Symbol

/-! ### Types with distinct parts -/

section Distinct

variable {α : Type} {f : α → TypeText}

private theorem nodup_getD (hf : ∀ a, (f a).parts.Nodup) (o : Option α) {t : TypeText} (ht : t.parts.Nodup) :
    ((o.map f).getD t).parts.Nodup := by
  cases o with
  | none => exact ht
  | some a => exact hf a

private theorem nodup_getD_filter (hf : ∀ a, (f a).parts.Nodup) (o : Option α) (p : TypeText → Bool) {t : TypeText}
    (ht : t.parts.Nodup) : (((o.map f).filter p).getD t).parts.Nodup := by
  cases o with
  | none => exact ht
  | some a =>
    rw [Option.map_some, Option.filter_some]
    split
    · exact hf a
    · exact ht

private theorem nodup_foldl_merge (f : α → TypeText) (l : List α) {t : TypeText} (ht : t.parts.Nodup) :
    (l.foldl (fun t a => t.merge (f a)) t).parts.Nodup := by
  induction l generalizing t with
  | nil => exact ht
  | cons a l ih => exact ih (TypeText.nodup_merge ht (f a))

end Distinct

namespace Source

variable (src : Source) (r : Resolver)

theorem nodup_documentedType (text : String) : (documentedType r text).parts.Nodup :=
  TypeText.nodup_mapLeaves _ _

theorem nodup_writtenType (declaration : Phrase) : (src.writtenType r declaration).parts.Nodup := by
  unfold writtenType
  extract_lets parts type
  have htype : type.parts.Nodup := nodup_foldl_merge _ _ TypeText.nodup_empty
  split
  · exact TypeText.nodup_merge htype _
  · exact htype

theorem nodup_typeOfOwner (owner : Phrase) : (src.typeOfOwner r owner).parts.Nodup := by
  unfold typeOfOwner
  split
  · exact src.nodup_writtenType r _
  · exact TypeText.nodup_empty

theorem nodup_returnType (header : Phrase) : (src.returnType r header).parts.Nodup := by
  unfold returnType
  split
  · exact src.nodup_typeOfOwner r _
  · exact TypeText.nodup_empty

mutual

theorem nodup_plainType : ∀ n : Node, (src.plainType r n).parts.Nodup
  | .token t => by
    rw [plainType]
    split
    · exact TypeText.nodup_ofText _
    · exact TypeText.nodup_ofText _
    · exact TypeText.nodup_ofText _
    · exact TypeText.nodup_empty
  | .phrase kind children => by
    rw [plainType.eq_def]
    dsimp only
    split
    · exact TypeText.nodup_ofText _
    · split
      · exact TypeText.nodup_empty
      · split
        · exact TypeText.nodup_ofText _
        · exact TypeText.nodup_ofText _
        · exact TypeText.nodup_ofText _
        · exact TypeText.nodup_empty
    · exact nodup_plainTypeOfLast children
    · split
      · exact TypeText.nodup_empty
      · split
        · exact TypeText.nodup_empty
        · exact TypeText.nodup_ofText _
    · exact TypeText.nodup_empty

theorem nodup_plainTypeOfLast : ∀ ns : List Node, (src.plainTypeOfLast r ns).parts.Nodup
  | [] => by
    rw [plainTypeOfLast]
    exact TypeText.nodup_empty
  | [n] => by
    rw [plainTypeOfLast]
    exact nodup_plainType n
  | n :: m :: ns => by
    rw [plainTypeOfLast]
    · exact nodup_plainTypeOfLast (m :: ns)
    · exact List.cons_ne_nil m ns

end

theorem nodup_initialValue (element : Phrase) : (src.initialValue r element).2.parts.Nodup := by
  unfold initialValue
  split
  · exact TypeText.nodup_empty
  · dsimp only
    split
    · exact src.nodup_plainType r _
    · exact TypeText.nodup_empty

/-! ### The symbols of declarations -/

theorem uri_of_location {p : Phrase} {l : Location} (h : l ∈ src.location? p) : l.uri = src.document.uri := by
  obtain ⟨range, -, rfl⟩ := Option.map_eq_some_iff.1 h
  rfl

theorem allSound_placed {s : Symbol} (h : s.AllSound src.document.uri) (p : Phrase) :
    (src.placed s p).AllSound src.document.uri := by
  unfold placed
  split
  · rename_i location hl
    refine h.located ?_
    rintro _ ⟨⟩
    exact src.uri_of_location hl
  · exact h

/-- A placed symbol with nothing else to it. -/
theorem allSound_bare (kind : SymbolKind) (name : String) (p : Phrase) :
    (src.placed (Symbol.bare kind name) p).AllSound src.document.uri :=
  src.allSound_placed (.bare _ kind name) p

theorem allSound_parameter {doc : Option DocBlock} {p : Phrase} {s : Symbol} (h : src.parameter? r doc p = some s) :
    s.AllSound src.document.uri := by
  obtain ⟨token, -, rfl⟩ := Option.map_eq_some_iff.1 h
  dsimp only
  refine .withDetails (((src.allSound_bare .parameter _ p).withModifiers _).withType ?_)
  refine nodup_getD_filter (fun _ => nodup_documentedType r _) _ _ ?_
  split
  · exact TypeText.nodup_array _
  · exact src.nodup_typeOfOwner r p

theorem allSound_parameters (doc : Option DocBlock) (header : Phrase) :
    ∀ s ∈ src.parameters r doc header, s.AllSound src.document.uri := by
  unfold parameters
  split
  · exact nofun
  · intro s hs
    obtain ⟨p, -, hp⟩ := List.mem_filterMap.1 hs
    exact src.allSound_parameter r hp

theorem allSound_callable (doc : Option DocBlock) (kind : SymbolKind) (name : String) (p header : Phrase) :
    (src.callableSymbol r doc kind name p header).AllSound src.document.uri := by
  have htype := (src.allSound_bare kind name p).withType
    (nodup_getD_filter (nodup_documentedType r) (doc.bind (·.returnType?)) (!·.isEmpty) (src.nodup_returnType r header))
  unfold callableSymbol
  extract_lets docType symbol marked
  have hmarked : marked.AllSound src.document.uri := by
    unfold marked
    split
    · exact htype.withModifiers _
    · exact htype
  exact hmarked.withChildren (src.allSound_parameters r doc header)

theorem allSound_import (i : Import) : (src.importSymbol i).AllSound src.document.uri :=
  .withDetails ((src.allSound_bare i.kind i.localName i.clause).withModifiers _)

theorem allSound_class (p : Phrase) : (src.classSymbol r p).AllSound src.document.uri := by
  unfold classSymbol
  split
  dsimp only
  split
  · exact src.allSound_bare _ _ p
  · exact .withDetails ((src.allSound_bare _ _ p).withModifiers _)

theorem allSound_anonymousClass (p : Phrase) : (src.anonymousClassSymbol r p).AllSound src.document.uri := by
  unfold anonymousClassSymbol
  dsimp only
  split
  · exact (src.allSound_bare _ _ p).withModifiers _
  · exact .withDetails ((src.allSound_bare _ _ p).withModifiers _)

theorem allSound_taggedMember {uri : String} {tag : DocTag} {s : Symbol} (h : taggedMember? r tag = some s) :
    s.AllSound uri := by
  unfold taggedMember? at h
  split at h
  · cases h
    exact .withDetails (((Symbol.AllSound.bare uri _ _).withModifiers _).withType (nodup_documentedType r _))
  · cases h
    refine .withChildren (((Symbol.AllSound.bare uri _ _).withModifiers _).withType (nodup_documentedType r _))
      (List.forall_mem_map.2 fun p _ => ?_)
    exact (Symbol.AllSound.bare uri _ _).withType (nodup_documentedType r _)
  · cases h

theorem allSound_withClassDoc {uri : String} {s : Symbol} (h : s.AllSound uri) (doc : Option DocBlock) :
    (withClassDoc r doc s).AllSound uri := by
  unfold withClassDoc
  split
  · exact h
  · refine h.withChildren (List.forall_mem_append.2 ⟨h.children, ?_⟩)
    refine List.forall_mem_map.2 fun m hm => ?_
    obtain ⟨tag, -, htag⟩ := List.mem_filterMap.1 hm
    exact .withDetails ((allSound_taggedMember r htag).located (Symbol.allSound_iff.1 h).1.location)

theorem allSound_classConstants (doc : Option DocBlock) (p : Phrase) :
    ∀ s ∈ src.classConstants r doc p, s.AllSound src.document.uri := by
  intro s hs
  obtain ⟨element, -, h⟩ := List.mem_filterMap.1 hs
  obtain ⟨token, -, rfl⟩ := Option.map_eq_some_iff.1 h
  dsimp only
  exact .withDetails ((((src.allSound_bare _ _ element).withModifiers _).withScope _).withType
    (nodup_getD (nodup_documentedType r) _ (src.nodup_initialValue r element)))

theorem allSound_properties (doc : Option DocBlock) (p : Phrase) :
    ∀ s ∈ src.properties r doc p, s.AllSound src.document.uri := by
  intro s hs
  obtain ⟨element, -, h⟩ := List.mem_filterMap.1 hs
  obtain ⟨token, -, rfl⟩ := Option.map_eq_some_iff.1 h
  dsimp only
  refine .withDetails ((((src.allSound_bare _ _ element).withModifiers _).withScope _).withType
    (nodup_getD_filter (nodup_documentedType r) _ _ ?_))
  split
  · exact src.nodup_initialValue r element
  · exact src.nodup_typeOfOwner r p

theorem allSound_constants (doc : Option DocBlock) (p : Phrase) :
    ∀ s ∈ src.constants r doc p, s.AllSound src.document.uri := by
  intro s hs
  obtain ⟨element, -, h⟩ := List.mem_filterMap.1 hs
  obtain ⟨token, -, rfl⟩ := Option.map_eq_some_iff.1 h
  dsimp only
  exact .withDetails ((src.allSound_bare _ _ element).withType
    (nodup_getD (nodup_documentedType r) _ (src.nodup_initialValue r element)))

theorem allSound_constructorProperties (header : Phrase) :
    ∀ s ∈ src.constructorProperties r header, s.AllSound src.document.uri := by
  unfold constructorProperties
  split
  · exact List.forall_mem_nil _
  · intro s hs
    obtain ⟨p, -, h⟩ := List.mem_filterMap.1 hs
    obtain ⟨parameter, hp, rfl⟩ := Option.map_eq_some_iff.1 h
    exact (src.allSound_parameter r hp).withChildren (List.forall_mem_nil _)

theorem allSound_method (doc : Option DocBlock) (inInterface : Bool) (p header : Phrase) :
    (src.methodSymbol r doc inInterface p header).AllSound src.document.uri := by
  have h := ((src.allSound_callable r doc .method (src.methodName header) p header).withModifiers
    (allModifiers header)).withScope r.className
  unfold methodSymbol
  dsimp only
  split
  · exact h.withModifiers _
  · exact h

theorem allSound_function (doc : Option DocBlock) (p header : Phrase) :
    (src.functionSymbol r doc p header).AllSound src.document.uri :=
  src.allSound_callable r doc .function _ p header

theorem allSound_anonymousFunction (doc : Option DocBlock) (p header : Phrase) :
    (src.anonymousFunction r doc p header).AllSound src.document.uri := by
  have h := (src.allSound_callable r doc .function closureName p header).withModifiers Modifiers.anonymousBit
  unfold anonymousFunction
  dsimp only
  split
  · exact h.withModifiers _
  · exact h

/-- A variable with the location of its token. -/
theorem allSound_variable (t : Token) :
    ((Symbol.bare .var (src.text t)).withLocation (src.tokenLocation t)).AllSound src.document.uri := by
  refine Symbol.AllSound.located (.bare _ _ _) ?_
  rintro _ ⟨⟩
  rfl

theorem allSound_capturedVariables (byReference : Bool) (ts : List Token) :
    ∀ s ∈ src.capturedVariables byReference ts, s.AllSound src.document.uri := by
  induction ts generalizing byReference with
  | nil => exact nofun
  | cons t ts ih =>
    unfold capturedVariables
    split
    · exact ih true
    · refine List.forall_mem_cons.2 ⟨?_, ih false⟩
      split
      · exact (src.allSound_variable t).withModifiers _
      · exact src.allSound_variable t
    · exact ih byReference

theorem allSound_closure (doc : Option DocBlock) (p : Phrase) :
    (src.closureSymbol r doc p).AllSound src.document.uri := by
  have h := src.allSound_anonymousFunction r doc p ((p.phrase? .anonymousFunctionHeader).getD p)
  unfold closureSymbol
  dsimp only
  split
  · exact h
  · exact h.withChildren (List.forall_mem_append.2 ⟨h.children, src.allSound_capturedVariables false _⟩)

/-- The types of assigned variables have distinct parts. -/
theorem nodup_assignments (doc : Option DocBlock) (p : Phrase) :
    ∀ v ∈ src.assignments r doc p, v.type.parts.Nodup := by
  have hassigned : ∀ v ∈ (src.assignedVariable? r doc p).toList, v.type.parts.Nodup := by
    intro v hv
    obtain ⟨token, -, rfl⟩ := Option.map_eq_some_iff.1 (Option.mem_toList.1 hv)
    exact nodup_getD_filter (nodup_documentedType r) _ _ (src.nodup_plainTypeOfLast r _)
  have hloop : ∀ v ∈ loopVariables p, v.type.parts.Nodup := by
    intro v hv
    obtain ⟨slot, -, h⟩ := List.mem_filterMap.1 hv
    obtain ⟨token, -, rfl⟩ := Option.map_eq_some_iff.1 h
    exact TypeText.nodup_empty
  have hcaught : ∀ v ∈ (src.caughtVariable? r p).toList, v.type.parts.Nodup := by
    intro v hv
    obtain ⟨token, -, rfl⟩ := Option.map_eq_some_iff.1 (Option.mem_toList.1 hv)
    exact nodup_foldl_merge _ _ TypeText.nodup_empty
  unfold assignments
  split
  · exact hassigned
  · exact hassigned
  · exact hloop
  · exact hcaught
  · exact List.forall_mem_map.2 fun _ _ => TypeText.nodup_empty
  · exact nofun

theorem allSound_opens {p : Phrase} {s : Symbol} (h : src.Opens p s) : s.AllSound src.document.uri := by
  cases h with
  | cls r r' doc => exact allSound_withClassDoc r (src.allSound_class r' p) doc
  | anonymousClass r r' doc => exact allSound_withClassDoc r (src.allSound_anonymousClass r' p) doc
  | headless _ => exact src.allSound_bare _ _ p
  | method r doc inInterface header => exact src.allSound_method r doc inInterface p header
  | function r doc header => exact src.allSound_function r doc p header
  | closure r doc => exact src.allSound_closure r doc p
  | arrowFunction r doc => exact src.allSound_anonymousFunction r doc p p

theorem allSound_adds {c : Symbol} (h : src.Adds c) : c.AllSound src.document.uri := by
  cases h with
  | imported _ => exact src.allSound_import _
  | space name p => exact src.allSound_bare _ name p
  | classConstant h => exact src.allSound_classConstants _ _ _ c h
  | property h => exact src.allSound_properties _ _ _ c h
  | constant h => exact src.allSound_constants _ _ _ c h
  | promoted h => exact src.allSound_constructorProperties _ _ c h

end Source

/-- Nothing that happens to an open symbol makes it unsound. -/
theorem Symbol.allSound_invariant (src : Source) : Symbol.Invariant src (Symbol.AllSound src.document.uri) where
  file := by
    refine List.forall_mem_singleton.2 (Symbol.AllSound.located (.bare _ _ _) ?_)
    rintro _ ⟨⟩
    rfl
  opens h := src.allSound_opens h
  adds hs hc := hs.addChild (src.allSound_adds hc)
  declares hs _ hv _ _ := hs.addChild ((src.allSound_variable _).withType (src.nodup_assignments _ _ _ _ hv))
  usesTraits _ hs := hs.withDetails
  closes hs hc _ := hs.addChild hc

/-- Every symbol of a document is sound. -/
theorem Document.allSound_fileSymbol (d : Document) : d.fileSymbol.AllSound d.uri :=
  (Symbol.allSound_invariant (Source.ofDocument d)).fileSymbol

/-! ### Restored tables -/

namespace TypeText

/-- Both types are absent, or both are there and have the same parts. -/
def agree : Option TypeText → Option TypeText → Bool
  | none, none => true
  | some a, some b => a.sameParts b
  | _, _ => false

end TypeText

namespace Symbol

/-- What a restored symbol has in common with the symbol that was stored. -/
structure RestoredFrom (s original : Symbol) : Prop where
  kind : s.kind = original.kind
  name : s.name = original.name
  location : s.location = original.location
  modifiers : s.modifiers = original.modifiers
  doc : s.doc = original.doc
  associated : s.associated = original.associated
  scope : s.scope = original.scope
  value : s.value = original.value
  type : TypeText.agree s.type original.type = true ↔ ∀ t ∈ original.type, t.Settled

theorem Sound.restoredFrom {uri : String} {s : Symbol} (h : s.Sound uri) : (s.store.restore uri).RestoredFrom s := by
  rw [restore_store_eq]
  refine ⟨rfl, rfl, ?_, rfl, rfl, rfl, rfl, rfl, ?_⟩
  · dsimp only
    cases hl : s.location with
    | none => rfl
    | some l => rw [← h.location l hl]; rfl
  · dsimp only
    cases ht : s.type with
    | none => exact ⟨fun _ => nofun, fun _ => rfl⟩
    | some t =>
      show (TypeText.ofText t.text).sameParts t = true ↔ _
      rw [TypeText.sameParts_ofText_iff (h.type t ht)]
      exact ⟨fun hsettled _ htt => Option.some.inj htt ▸ hsettled, fun hsettled => hsettled t rfl⟩

/-- Every symbol below a restored one comes from the symbol in the same place. -/
theorem AllSound.restoredFrom {uri : String} {s : Symbol} (h : s.AllSound uri) :
    List.Forall₂ RestoredFrom (s.store.restore uri).descendants s.descendants := by
  have hbelow : ∀ cs : List Symbol,
      (∀ c ∈ cs, List.Forall₂ RestoredFrom (c.store.restore uri).descendants c.descendants) →
      List.Forall₂ RestoredFrom (descendantsOf (cs.map fun c => c.store.restore uri)) (descendantsOf cs) := by
    intro cs hcs
    induction cs with
    | nil => exact .nil
    | cons c cs ih =>
      obtain ⟨hc, hcs⟩ := List.forall_mem_cons.1 hcs
      rw [List.map_cons, descendantsOf, descendantsOf]
      exact List.rel_append hc (ih hcs)
  induction s using childInduction with
  | step s ih =>
    obtain ⟨hs, hchildren⟩ := allSound_iff.1 h
    have hc : (s.store.restore uri).children = s.children.map fun c => c.store.restore uri := by
      rw [restore_store_eq]
    rw [descendants_eq, descendants_eq, hc]
    exact .cons hs.restoredFrom (hbelow _ fun c hc => ih c hc (hchildren c hc))

end Symbol

namespace SymbolTable

/-- Restoring the stored table of a document gives the same symbols, apart from the types that are not settled. -/
theorem restore_store_ofDocument (d : Document) : (ofDocument d).store.restore.uri = (ofDocument d).uri ∧
    List.Forall₂ Symbol.RestoredFrom (ofDocument d).store.restore.symbols (ofDocument d).symbols :=
  ⟨rfl, d.allSound_fileSymbol.restoredFrom⟩

/-- A function outside every class that is documented to return `parent` or a number. -/
private def returnsParent : Document :=
  ⟨"file:///a.php", "<?php /** @return parent|int */ function f() {}",
    ⟨.statementList, [.token ⟨.documentComment, 6, 25⟩,
      .phrase .functionDeclaration [.phrase .functionDeclarationHeader [
        .token ⟨.functionKeyword, 32, 8⟩, .token ⟨.name, 41, 1⟩]]]⟩⟩

/-- The type of the function has an empty part, which its text does not keep. -/
theorem parent_type_lost :
    (ofDocument returnsParent).symbols.map (·.type) = [none, some ⟨["", "int"]⟩] ∧
    (ofDocument returnsParent).store.restore.symbols.map (·.type) = [none, some ⟨["int"]⟩] ∧
    ¬ List.Forall₂ (fun s original => TypeText.agree s.type original.type = true)
      (ofDocument returnsParent).store.restore.symbols (ofDocument returnsParent).symbols := by
  have horiginal : (ofDocument returnsParent).symbols.map (·.type) = [none, some ⟨["", "int"]⟩] := by
    unfold ofDocument
    rw [Document.fileSymbol_eq_walk]
    decide +kernel
  have hrestored : (ofDocument returnsParent).store.restore.symbols.map (·.type) = [none, some ⟨["int"]⟩] := by
    unfold ofDocument
    rw [Document.fileSymbol_eq_walk]
    decide +kernel
  refine ⟨horiginal, hrestored, fun h => ?_⟩
  have hagree : List.Forall₂ (fun a b => TypeText.agree a b = true)
      ((ofDocument returnsParent).store.restore.symbols.map (·.type))
      ((ofDocument returnsParent).symbols.map (·.type)) := by
    rw [List.forall₂_map_left_iff, List.forall₂_map_right_iff]
    exact h
  rw [horiginal, hrestored] at hagree
  obtain ⟨-, hf⟩ := List.forall₂_cons.1 hagree
  obtain ⟨hf, -⟩ := List.forall₂_cons.1 hf
  exact absurd hf (by decide)

end SymbolTable

end CodeAtlas
