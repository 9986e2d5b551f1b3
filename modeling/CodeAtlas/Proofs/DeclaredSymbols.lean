import CodeAtlas.Proofs.SymbolFamily

/-!
# The symbols of declarations

Which family the symbols belong to that declarations are read into, and that a symbol has no child in a family when it
is opened (`Symbol.Fresh`).  What never has children, such as a constant or a parameter, is plain (`Symbol.IsPlain`) and
belongs to no family.  The members among them name the innermost class of the naming context (`Symbol.IsMemberOf`).
-/

namespace CodeAtlas

/-- A symbol of the given kind without children and with ordinary modifiers. -/
structure Symbol.IsPlain (kind : SymbolKind) (s : Symbol) : Prop where
  kind : s.kind = kind
  modifiers : s.modifiers.Ordinary
  children : s.children = []

theorem Symbol.IsPlain.unpaired {kind : SymbolKind} {s : Symbol} (h : s.IsPlain kind)
    (hk : kind.isUnpaired = true) : s.PairedAs none :=
  Symbol.pairedAs_none (h.kind ▸ hk) h.modifiers.2.2

namespace Source

/-- Placing a symbol changes its location only. -/
theorem placed_eq (src : Source) (s : Symbol) (p : Phrase) :
    ∃ location, src.placed s p = { s with location := location } := by
  unfold placed
  cases src.location? p with
  | none => exact ⟨s.location, by cases s; rfl⟩
  | some location => exact ⟨some location, rfl⟩

@[simp] theorem placed_kind (src : Source) (s : Symbol) (p : Phrase) : (src.placed s p).kind = s.kind := by
  obtain ⟨_, h⟩ := src.placed_eq s p
  rw [h]

@[simp] theorem placed_modifiers (src : Source) (s : Symbol) (p : Phrase) :
    (src.placed s p).modifiers = s.modifiers := by
  obtain ⟨_, h⟩ := src.placed_eq s p
  rw [h]

@[simp] theorem placed_children (src : Source) (s : Symbol) (p : Phrase) : (src.placed s p).children = s.children := by
  obtain ⟨_, h⟩ := src.placed_eq s p
  rw [h]

@[simp] theorem placed_name (src : Source) (s : Symbol) (p : Phrase) : (src.placed s p).name = s.name := by
  obtain ⟨_, h⟩ := src.placed_eq s p
  rw [h]

theorem empty_ordinary : Modifiers.empty.Ordinary := ⟨rfl, rfl, rfl⟩

private theorem staticBit_ordinary : Modifiers.staticBit.Ordinary := ⟨rfl, rfl, rfl⟩

private theorem referenceBit_ordinary : Modifiers.referenceBit.Ordinary := ⟨rfl, rfl, rfl⟩

private theorem abstractBit_ordinary : Modifiers.abstractBit.Ordinary := ⟨rfl, rfl, rfl⟩

theorem classConstants_plain (src : Source) (r : Resolver) (doc : Option DocBlock) (p : Phrase) :
    ∀ c ∈ src.classConstants r doc p, c.IsPlain .classConstant := by
  intro c hc
  obtain ⟨element, -, h⟩ := List.mem_filterMap.1 hc
  obtain ⟨token, -, rfl⟩ := Option.map_eq_some_iff.1 h
  refine ⟨?_, ?_, ?_⟩
  · simp [Symbol.withType, Symbol.withScope, Symbol.withModifiers, Symbol.bare]
  · simp only [Symbol.withType, Symbol.withScope, Symbol.withModifiers, placed_modifiers, Symbol.bare]
    exact empty_ordinary.or ((allModifiers_ordinary p).or staticBit_ordinary)
  · simp [Symbol.withType, Symbol.withScope, Symbol.withModifiers, Symbol.bare]

theorem properties_plain (src : Source) (r : Resolver) (doc : Option DocBlock) (p : Phrase) :
    ∀ c ∈ src.properties r doc p, c.IsPlain .property := by
  intro c hc
  obtain ⟨element, -, h⟩ := List.mem_filterMap.1 hc
  obtain ⟨token, -, rfl⟩ := Option.map_eq_some_iff.1 h
  refine ⟨?_, ?_, ?_⟩
  · simp [Symbol.withType, Symbol.withScope, Symbol.withModifiers, Symbol.bare]
  · simp only [Symbol.withType, Symbol.withScope, Symbol.withModifiers, placed_modifiers, Symbol.bare]
    exact empty_ordinary.or (allModifiers_ordinary p)
  · simp [Symbol.withType, Symbol.withScope, Symbol.withModifiers, Symbol.bare]

theorem constants_plain (src : Source) (r : Resolver) (doc : Option DocBlock) (p : Phrase) :
    ∀ c ∈ src.constants r doc p, c.IsPlain .constant := by
  intro c hc
  obtain ⟨element, -, h⟩ := List.mem_filterMap.1 hc
  obtain ⟨token, -, rfl⟩ := Option.map_eq_some_iff.1 h
  refine ⟨?_, ?_, ?_⟩
  · simp [Symbol.withType, Symbol.bare]
  · simp only [Symbol.withType, placed_modifiers, Symbol.bare]
    exact empty_ordinary
  · simp [Symbol.withType, Symbol.bare]

theorem constructorProperties_plain (src : Source) (r : Resolver) (header : Phrase) :
    ∀ c ∈ src.constructorProperties r header, c.IsPlain .property := by
  intro c hc
  unfold constructorProperties at hc
  split at hc
  · exact absurd hc List.not_mem_nil
  · obtain ⟨p, -, h⟩ := List.mem_filterMap.1 hc
    obtain ⟨parameter, -, rfl⟩ := Option.map_eq_some_iff.1 h
    exact ⟨rfl, empty_ordinary.or (allModifiers_ordinary p), rfl⟩

/-- The kinds of what can be imported. -/
def importedKinds : List SymbolKind :=
  [.function, .constant, .cls]

theorem importedKind_mem (owner : Phrase) {default : SymbolKind} (h : default ∈ importedKinds) :
    importedKind owner default ∈ importedKinds := by
  unfold importedKind
  split
  · decide
  · split
    · decide
    · exact h

theorem imports_kind {src : Source} {p : Phrase} {i : Import} (h : i ∈ src.imports p) : i.kind ∈ importedKinds := by
  obtain ⟨clause, -, hi⟩ := List.mem_filterMap.1 h
  obtain ⟨name, -, rfl⟩ := Option.map_eq_some_iff.1 hi
  exact importedKind_mem clause (importedKind_mem p (by decide))

theorem importSymbol_paired (src : Source) (i : Import) (hk : i.kind ≠ .method) :
    (src.importSymbol i).PairedAs (some .imported) := by
  have hm : (src.importSymbol i).modifiers = Modifiers.empty ||| Modifiers.importBit := by
    simp [importSymbol, Symbol.withModifiers, Symbol.bare]
  refine Symbol.pairedAs_imported ?_ ?_ ?_
  · simpa [importSymbol, Symbol.withModifiers, Symbol.bare] using hk
  · unfold Symbol.isAnonymous Symbol.has
    rw [hm]
    rfl
  · unfold Symbol.isImport Symbol.has
    rw [hm]
    rfl

theorem classSymbol_paired (src : Source) (r : Resolver) (p : Phrase) :
    (src.classSymbol r p).PairedAs (some .classLike) := by
  have hkind : (classKinds p.kind).1.isClassLike = true := by
    unfold classKinds
    split <;> rfl
  unfold classSymbol
  generalize classKinds p.kind = kinds at hkind ⊢
  obtain ⟨kind, headerKind⟩ := kinds
  have hs : ∀ name, (src.placed (Symbol.bare kind name) p).PairedAs (some .classLike) := by
    intro name
    refine Symbol.pairedAs_classLike (by simpa [Symbol.bare] using hkind) ?_ ?_ <;>
      simp only [Symbol.isAnonymous, Symbol.isImport, Symbol.has, placed_modifiers, Symbol.bare] <;> rfl
  simp only
  split
  · exact hs ""
  · rename_i header _
    have hm : (Modifiers.empty ||| (allModifiers header &&&
        (Modifiers.abstractBit ||| Modifiers.finalBit ||| Modifiers.readOnlyBit))).Ordinary :=
      empty_ordinary.or ((allModifiers_ordinary header).and _)
    refine Symbol.pairedAs_classLike (by simpa [Symbol.withModifiers, Symbol.bare] using hkind) ?_ ?_ <;>
      simp only [Symbol.isAnonymous, Symbol.isImport, Symbol.has, Symbol.withModifiers, placed_modifiers, Symbol.bare]
    · exact hm.2.1
    · exact hm.2.2

theorem anonymousClassSymbol_paired (src : Source) (r : Resolver) (p : Phrase) :
    (src.anonymousClassSymbol r p).PairedAs (some .anonymousClass) := by
  unfold anonymousClassSymbol
  extract_lets offset name symbol
  have hs : symbol.PairedAs (some .anonymousClass) := by
    have hm : symbol.modifiers = Modifiers.empty ||| Modifiers.anonymousBit := by
      simp [symbol, Symbol.withModifiers, Symbol.bare]
    refine Symbol.pairedAs_anonymousClass (by simp [symbol, Symbol.withModifiers, Symbol.bare]) ?_ ?_ <;>
      simp only [Symbol.isAnonymous, Symbol.isImport, Symbol.has, hm] <;> rfl
  split
  · exact hs
  · exact hs.congr rfl rfl

/-- A class keeps its family when its documentation is read. -/
theorem withClassDoc_paired {family : Option DeclarationFamily} {s : Symbol} (h : s.PairedAs family) (r : Resolver)
    (doc : Option DocBlock) : (withClassDoc r doc s).PairedAs family := by
  cases doc with
  | none => exact h
  | some doc => exact h.congr rfl rfl

theorem callableSymbol_kind (src : Source) (r : Resolver) (doc : Option DocBlock) (kind : SymbolKind)
    (name : String) (p header : Phrase) : (src.callableSymbol r doc kind name p header).kind = kind := by
  unfold callableSymbol
  simp only
  split <;> simp [Symbol.withModifiers, Symbol.withType, Symbol.bare]

theorem callableSymbol_ordinary (src : Source) (r : Resolver) (doc : Option DocBlock) (kind : SymbolKind)
    (name : String) (p header : Phrase) : (src.callableSymbol r doc kind name p header).modifiers.Ordinary := by
  unfold callableSymbol
  simp only
  split <;> simp only [Symbol.withModifiers, Symbol.withType, placed_modifiers, Symbol.bare]
  · exact empty_ordinary.or referenceBit_ordinary
  · exact empty_ordinary

theorem methodSymbol_paired (src : Source) (r : Resolver) (doc : Option DocBlock) (inInterface : Bool)
    (p header : Phrase) : (src.methodSymbol r doc inInterface p header).PairedAs (some .method) := by
  have hc := src.callableSymbol_ordinary r doc .method (src.methodName header) p header
  have hk := src.callableSymbol_kind r doc .method (src.methodName header) p header
  have hm := hc.or (allModifiers_ordinary header)
  unfold methodSymbol
  simp only
  split
  · have hm' := hm.or abstractBit_ordinary
    exact Symbol.pairedAs_method hk hm'.1 hm'.2.2
  · exact Symbol.pairedAs_method hk hm.1 hm.2.2

theorem functionSymbol_paired (src : Source) (r : Resolver) (doc : Option DocBlock) (p header : Phrase) :
    (src.functionSymbol r doc p header).PairedAs (some .function) := by
  have hm := fun name => src.callableSymbol_ordinary r doc .function name p header
  exact Symbol.pairedAs_function (src.callableSymbol_kind r doc .function _ p header) (hm _).2.1 (hm _).2.2

theorem anonymousFunction_paired (src : Source) (r : Resolver) (doc : Option DocBlock) (p header : Phrase) :
    (src.anonymousFunction r doc p header).PairedAs (some .closure) := by
  obtain ⟨-, ha, hi⟩ := src.callableSymbol_ordinary r doc .function closureName p header
  have hk := src.callableSymbol_kind r doc .function closureName p header
  unfold anonymousFunction
  simp only
  split
  · refine Symbol.pairedAs_closure hk ?_ ?_ <;>
      simp only [Symbol.isAnonymous, Symbol.isImport, Symbol.has, Symbol.withModifiers, Modifiers.has_or_anonymous,
        Modifiers.has_or_import, ha, hi] <;> rfl
  · refine Symbol.pairedAs_closure hk ?_ ?_ <;>
      simp only [Symbol.isAnonymous, Symbol.isImport, Symbol.has, Symbol.withModifiers, Modifiers.has_or_anonymous,
        Modifiers.has_or_import, ha, hi] <;> rfl

theorem closureSymbol_paired (src : Source) (r : Resolver) (doc : Option DocBlock) (p : Phrase) :
    (src.closureSymbol r doc p).PairedAs (some .closure) := by
  unfold closureSymbol
  extract_lets header symbol
  have hs := src.anonymousFunction_paired r doc p header
  split
  · exact hs
  · exact hs.congr rfl rfl

/-! ### Symbols when they are opened -/

private theorem or_ordinary_of_ite {b : Bool} {m : Modifiers} (h : m.Ordinary) :
    (if b then m else Modifiers.empty).Ordinary := by
  cases b
  · exact empty_ordinary
  · exact h

theorem parameters_plain (src : Source) (r : Resolver) (doc : Option DocBlock) (header : Phrase) :
    ∀ c ∈ src.parameters r doc header, c.IsPlain .parameter := by
  intro c hc
  unfold parameters at hc
  split at hc
  · exact absurd hc List.not_mem_nil
  · obtain ⟨p, -, h⟩ := List.mem_filterMap.1 hc
    obtain ⟨token, -, rfl⟩ := Option.map_eq_some_iff.1 h
    refine ⟨?_, ?_, ?_⟩
    · simp [Symbol.withType, Symbol.withModifiers, Symbol.bare]
    · simp only [Symbol.withType, Symbol.withModifiers, placed_modifiers, Symbol.bare]
      exact empty_ordinary.or ((or_ordinary_of_ite referenceBit_ordinary).or (or_ordinary_of_ite ⟨rfl, rfl, rfl⟩))
    · simp [Symbol.withType, Symbol.withModifiers, Symbol.bare]

private theorem callableSymbol_fresh (src : Source) (r : Resolver) (doc : Option DocBlock) (kind : SymbolKind)
    (name : String) (p header : Phrase) : (src.callableSymbol r doc kind name p header).Fresh :=
  fun c hc => (src.parameters_plain r doc header c hc).unpaired rfl

theorem methodSymbol_fresh (src : Source) (r : Resolver) (doc : Option DocBlock) (inInterface : Bool)
    (p header : Phrase) : (src.methodSymbol r doc inInterface p header).Fresh := by
  have h := src.callableSymbol_fresh r doc .method (src.methodName header) p header
  unfold methodSymbol
  simp only
  split <;> exact h

theorem functionSymbol_fresh (src : Source) (r : Resolver) (doc : Option DocBlock) (p header : Phrase) :
    (src.functionSymbol r doc p header).Fresh :=
  src.callableSymbol_fresh r doc .function _ p header

theorem anonymousFunction_fresh (src : Source) (r : Resolver) (doc : Option DocBlock) (p header : Phrase) :
    (src.anonymousFunction r doc p header).Fresh := by
  have h := src.callableSymbol_fresh r doc .function closureName p header
  unfold anonymousFunction
  simp only
  split <;> exact h

theorem capturedVariables_plain (src : Source) (byReference : Bool) (ts : List Token) :
    ∀ c ∈ src.capturedVariables byReference ts, c.IsPlain .var := by
  fun_induction src.capturedVariables byReference ts with
  | case1 => exact nofun
  | case2 _ _ _ _ ih => exact ih
  | case3 byReference t rest _ symbol ih =>
    intro c hc
    rcases List.mem_cons.1 hc with rfl | hc
    · split
      · exact ⟨rfl, empty_ordinary.or referenceBit_ordinary, rfl⟩
      · exact ⟨rfl, empty_ordinary, rfl⟩
    · exact ih c hc
  | case4 _ _ _ _ _ ih => exact ih

theorem closureSymbol_fresh (src : Source) (r : Resolver) (doc : Option DocBlock) (p : Phrase) :
    (src.closureSymbol r doc p).Fresh := by
  unfold closureSymbol
  extract_lets header symbol
  have hs := src.anonymousFunction_fresh r doc p header
  split
  · exact hs
  · intro c hc
    rcases List.mem_append.1 hc with hc | hc
    · exact hs c hc
    · exact (src.capturedVariables_plain _ _ c hc).unpaired rfl

theorem classSymbol_children (src : Source) (r : Resolver) (p : Phrase) : (src.classSymbol r p).children = [] := by
  unfold classSymbol
  dsimp only
  split <;> simp [Symbol.withModifiers, Symbol.bare]

theorem anonymousClassSymbol_children (src : Source) (r : Resolver) (p : Phrase) :
    (src.anonymousClassSymbol r p).children = [] := by
  unfold anonymousClassSymbol
  dsimp only
  split <;> simp [Symbol.withModifiers, Symbol.bare]

theorem classSymbol_fresh (src : Source) (r : Resolver) (p : Phrase) : (src.classSymbol r p).Fresh :=
  Symbol.fresh_of_nil (src.classSymbol_children r p)

theorem anonymousClassSymbol_fresh (src : Source) (r : Resolver) (p : Phrase) : (src.anonymousClassSymbol r p).Fresh :=
  Symbol.fresh_of_nil (src.anonymousClassSymbol_children r p)

/-- A magic method is in no family. -/
private theorem taggedMember_unpaired {r : Resolver} {tag : DocTag} {s : Symbol} (h : taggedMember? r tag = some s) :
    s.PairedAs none := by
  cases tag with
  | property type name access description =>
    cases h
    refine Symbol.pairedAs_none rfl ?_
    simp only [Symbol.isImport, Symbol.has, Symbol.withType, Symbol.withModifiers, Symbol.bare]
    cases access <;> rfl
  | method type name isStatic parameters description =>
    cases h
    intro f
    cases isStatic <;> cases f <;> simp [DeclarationFamily.includes, Symbol.isImport, Symbol.isAnonymous,
      Symbol.isMagic, Symbol.has, Symbol.withType, Symbol.withModifiers, Symbol.bare, SymbolKind.isClassLike] <;> rfl
  | _ => cases h

theorem withClassDoc_fresh {s : Symbol} (h : s.Fresh) (r : Resolver) (doc : Option DocBlock) :
    (withClassDoc r doc s).Fresh := by
  cases doc with
  | none => exact h
  | some doc =>
    intro c hc
    rcases List.mem_append.1 hc with hc | hc
    · exact h c hc
    · obtain ⟨m, hm, rfl⟩ := List.mem_map.1 hc
      obtain ⟨tag, -, htag⟩ := List.mem_filterMap.1 hm
      exact (taggedMember_unpaired htag).congr rfl rfl

end Source

/-! ### Members -/

namespace Symbol

/-- A member that names its class, and says who may see it. -/
structure IsMemberOf (owner : String) (c : Symbol) : Prop where
  scope : c.scope = some owner
  visible : c.modifiers.meets Modifiers.visibility = true

/-- What may stand in a class of the given name.  A member without a name belongs to no class. -/
def FitsIn (owner : String) (c : Symbol) : Prop :=
  c.kind.isMember = true → c.name ≠ "" → c.IsMemberOf owner

variable {c : Symbol}

theorem IsMemberOf.fitsIn {owner : String} (h : c.IsMemberOf owner) : c.FitsIn owner :=
  fun _ _ => h

theorem fitsIn_of_kind (h : c.kind.isMember = false) (owner : String) : c.FitsIn owner :=
  fun hm => absurd (h.symm.trans hm) Bool.false_ne_true

end Symbol

namespace Modifiers

theorem meets_or {a b other : Modifiers} :
    (a ||| b).meets other = true ↔ a.meets other = true ∨ b.meets other = true := by
  unfold meets
  rw [BitVec.and_or_distrib_right, bne_iff_ne, bne_iff_ne, bne_iff_ne, ← not_and_or]
  exact not_congr BitVec.or_eq_zero_iff

end Modifiers

namespace Source

theorem allModifiers_visible (owner : Phrase) : (allModifiers owner).meets Modifiers.visibility = true := by
  unfold allModifiers
  extract_lets listed modifiers
  split
  · assumption
  · exact Modifiers.meets_or.2 (Or.inr (by decide))

section

variable (src : Source) (r : Resolver) {c : Symbol}

theorem classConstants_members {doc : Option DocBlock} {p : Phrase} (h : c ∈ src.classConstants r doc p) :
    c.IsMemberOf r.className := by
  obtain ⟨element, -, h⟩ := List.mem_filterMap.1 h
  obtain ⟨token, -, rfl⟩ := Option.map_eq_some_iff.1 h
  exact ⟨rfl, Modifiers.meets_or.2 (Or.inr (Modifiers.meets_or.2 (Or.inl (allModifiers_visible p))))⟩

theorem properties_members {doc : Option DocBlock} {p : Phrase} (h : c ∈ src.properties r doc p) :
    c.IsMemberOf r.className := by
  obtain ⟨element, -, h⟩ := List.mem_filterMap.1 h
  obtain ⟨token, -, rfl⟩ := Option.map_eq_some_iff.1 h
  exact ⟨rfl, Modifiers.meets_or.2 (Or.inr (allModifiers_visible p))⟩

theorem constructorProperties_members {header : Phrase} (h : c ∈ src.constructorProperties r header) :
    c.IsMemberOf r.className := by
  unfold constructorProperties at h
  split at h
  · cases h
  · obtain ⟨p, -, h⟩ := List.mem_filterMap.1 h
    obtain ⟨parameter, -, rfl⟩ := Option.map_eq_some_iff.1 h
    exact ⟨rfl, Modifiers.meets_or.2 (Or.inr (allModifiers_visible p))⟩

theorem methodSymbol_member (doc : Option DocBlock) (inInterface : Bool) (p header : Phrase) :
    (src.methodSymbol r doc inInterface p header).IsMemberOf r.className := by
  unfold methodSymbol
  extract_lets symbol marked
  have hvisible : marked.modifiers.meets Modifiers.visibility = true :=
    Modifiers.meets_or.2 (Or.inr (allModifiers_visible header))
  split
  · exact ⟨rfl, Modifiers.meets_or.2 (Or.inl hvisible)⟩
  · exact ⟨rfl, hvisible⟩

theorem taggedMembers_members {doc : DocBlock} {location : Option Location} (h : c ∈ taggedMembers r doc location) :
    c.IsMemberOf r.className := by
  obtain ⟨m, hm, rfl⟩ := List.mem_map.1 h
  obtain ⟨tag, -, htag⟩ := List.mem_filterMap.1 hm
  refine ⟨rfl, ?_⟩
  show m.modifiers.meets Modifiers.visibility = true
  cases tag with
  | property type name access description =>
    cases htag
    simp only [Symbol.withType, Symbol.withModifiers, Symbol.bare]
    cases access <;> rfl
  | method type name isStatic parameters description =>
    cases htag
    simp only [Symbol.withType, Symbol.withModifiers, Symbol.bare]
    cases isStatic <;> rfl
  | _ => cases htag

/-- An import is no member. -/
theorem importSymbol_fits {p : Phrase} {i : Import} (h : i ∈ src.imports p) (owner : String) :
    (src.importSymbol i).FitsIn owner := by
  have hkind : ∀ kind ∈ importedKinds, kind.isMember = false := by decide
  refine Symbol.fitsIn_of_kind ?_ owner
  rw [← hkind i.kind (imports_kind h)]
  simp [importSymbol, Symbol.withModifiers, Symbol.bare]

end

end Source

end CodeAtlas
