import CodeAtlas.Proofs.DeclarationInvariant

/-!
# The shape of a symbol tree

What holds of every symbol of a document, whatever its tree (`Document.wellFormed_fileSymbol`): imports are never
variables, only classes and functions have no name, only members come from documentation, nothing but a scope has more
than parameters below it, no file is inside another symbol, and the variables of a function, method or file are declared
once.

`Source.Opens.opening` says what a symbol is like when its phrase is entered.
-/

namespace CodeAtlas

/-- Kinds of symbols that stand in others and are no variables. -/
def SymbolKind.isItem : SymbolKind → Bool
  | .file | .var | .parameter => false
  | _ => true

theorem SymbolKind.isLocal_of_isItem {k : SymbolKind} (h : k.isItem = true) : k.isLocal = false := by
  cases k <;> first | rfl | cases h

theorem SymbolKind.ne_file_of_isItem {k : SymbolKind} (h : k.isItem = true) : k ≠ .file := by
  rintro rfl
  cases h

namespace Symbol

/-! ### Well-formed symbols -/

/-- A function, method or class-like symbol that is no import and does not come from documentation. -/
def isDeclared (s : Symbol) : Bool :=
  s.isScope && !s.isMagic && !s.isImport

/-- Whether declarations can become children of the symbol. -/
def mayGrow (s : Symbol) : Bool :=
  s.kind == .file || s.isDeclared

/-- The names of the variables that a symbol declares. -/
def variableNames (s : Symbol) : List String :=
  (s.children.filter (·.kind == .var)).map (·.name)

/-- No variable is declared twice, none is the current object, and none is a parameter. -/
structure DeclaresOnce (s : Symbol) : Prop where
  nodup : s.variableNames.Nodup
  this : "$this" ∉ s.variableNames
  parameters : ∀ c ∈ s.children, c.kind = .parameter → c.name ∉ s.variableNames

/-- The symbols whose variables are declared by assignments only; a closure also has those of its use clause. -/
def collectsVariables (s : Symbol) : Bool :=
  s.kind == .file || s.kind == .method || (s.kind == .function && !s.isAnonymous)

structure WellFormed (s : Symbol) : Prop where
  imported : s.isImport = true → s.kind.isLocal = false
  anonymous : s.isAnonymous = true → s.kind = .cls ∨ s.kind = .function
  magic : s.isMagic = true → s.kind = .property ∨ s.kind = .method
  leaf : s.mayGrow = false → ∀ c ∈ s.children, c.kind = .parameter
  inner : ∀ c ∈ s.children, c.kind ≠ .file
  once : s.collectsVariables = true → s.DeclaresOnce

/-- The symbol and everything below it is well-formed. -/
def AllWellFormed (s : Symbol) : Prop :=
  ∀ x ∈ s.descendants, x.WellFormed

theorem allWellFormed_iff {s : Symbol} : s.AllWellFormed ↔ s.WellFormed ∧ ∀ c ∈ s.children, c.AllWellFormed :=
  forall_descendants_iff

theorem isLocal_of_mayGrow {s : Symbol} (h : s.mayGrow = true) : s.kind.isLocal = false := by
  unfold mayGrow isDeclared isScope at h
  cases hk : s.kind <;> rw [hk] at h <;> first | rfl | cases h

theorem declaresOnce_of_no_variables {s : Symbol} (h : ∀ c ∈ s.children, c.kind ≠ .var) : s.DeclaresOnce := by
  have hnil : s.variableNames = [] := by
    unfold variableNames
    rw [List.filter_eq_nil_iff.2 fun c hc hv => h c hc (eq_of_beq hv), List.map_nil]
  exact ⟨hnil ▸ List.nodup_nil, hnil ▸ List.not_mem_nil, fun _ _ _ => hnil ▸ List.not_mem_nil⟩

theorem IsPlain.wellFormed {kind : SymbolKind} {s : Symbol} (h : s.IsPlain kind) : s.AllWellFormed := by
  obtain ⟨hm, ha, hi⟩ := h.modifiers
  refine allWellFormed_iff.2 ⟨⟨?_, ?_, ?_, ?_, ?_, fun _ => declaresOnce_of_no_variables ?_⟩, ?_⟩
  · exact fun h => absurd (hi.symm.trans h) Bool.false_ne_true
  · exact fun h => absurd (ha.symm.trans h) Bool.false_ne_true
  · exact fun h => absurd (hm.symm.trans h) Bool.false_ne_true
  all_goals rw [h.children]
  · exact fun _ => nofun
  · exact nofun
  · exact nofun
  · exact nofun

/-! ### What a new child changes -/

section

variable {s c : Symbol}

theorem variableNames_addChild (s c : Symbol) :
    (s.addChild c).variableNames = s.variableNames ++ if c.kind = .var then [c.name] else [] := by
  unfold variableNames addChild
  rw [List.filter_append, List.map_append]
  by_cases h : c.kind = .var <;> simp [h]

private theorem DeclaresOnce.addChild (h : s.DeclaresOnce) (hc : c.kind.isLocal = false) :
    (s.addChild c).DeclaresOnce := by
  have hvar : ¬ c.kind = .var := fun hk => by rw [hk] at hc; cases hc
  have hnames : (s.addChild c).variableNames = s.variableNames := by
    rw [variableNames_addChild, if_neg hvar, List.append_nil]
  refine ⟨hnames ▸ h.nodup, hnames ▸ h.this, fun x hx hk => ?_⟩
  rw [hnames]
  rcases List.mem_append.1 hx with hx | hx
  · exact h.parameters x hx hk
  · obtain rfl := List.mem_singleton.1 hx
    rw [hk] at hc
    cases hc

private theorem DeclaresOnce.addVariable (h : s.DeclaresOnce) (hk : c.kind = .var) (hthis : c.name ≠ "$this")
    (hnew : s.declares c.name = false) : (s.addChild c).DeclaresOnce := by
  have hnames : (s.addChild c).variableNames = s.variableNames ++ [c.name] := by
    rw [variableNames_addChild, if_pos hk]
  -- the name is new among the variables and the parameters
  have hother : ∀ x ∈ s.children, x.kind.isLocal = true → x.name ≠ c.name := by
    intro x hx hlocal he
    have hany : s.declares c.name = true := List.any_eq_true.2 ⟨x, hx, by rw [hlocal, he]; simp⟩
    rw [hnew] at hany
    cases hany
  have hfresh : c.name ∉ s.variableNames := by
    intro hmem
    obtain ⟨x, hx, he⟩ := List.mem_map.1 hmem
    obtain ⟨hx, hvar⟩ := List.mem_filter.1 hx
    exact hother x hx (by rw [eq_of_beq hvar]; rfl) he
  refine ⟨?_, ?_, fun x hx hp => ?_⟩ <;> rw [hnames]
  · refine List.nodup_append.2 ⟨h.nodup, List.pairwise_singleton _ _, fun a ha b hb => ?_⟩
    rw [List.mem_singleton.1 hb]
    exact ne_of_mem_of_not_mem ha hfresh
  · exact fun hmem => (List.mem_append.1 hmem).elim h.this fun hmem => hthis (List.mem_singleton.1 hmem).symm
  · rcases List.mem_append.1 hx with hx | hx
    · refine fun hmem => (List.mem_append.1 hmem).elim (h.parameters x hx hp) fun hmem => ?_
      exact hother x hx (by rw [hp]; rfl) (List.mem_singleton.1 hmem)
    · obtain rfl := List.mem_singleton.1 hx
      rw [hk] at hp
      cases hp

/-- An open symbol stays well-formed with a new child, if its variables stay declared once. -/
private theorem AllWellFormed.addChild (h : s.AllWellFormed) (hg : s.mayGrow = true) (hc : c.AllWellFormed)
    (hk : c.kind ≠ .file) (honce : s.DeclaresOnce → (s.addChild c).DeclaresOnce) : (s.addChild c).AllWellFormed := by
  obtain ⟨hs, hall⟩ := allWellFormed_iff.1 h
  refine allWellFormed_iff.2 ⟨⟨hs.imported, hs.anonymous, hs.magic, ?_, ?_, fun hv => honce (hs.once hv)⟩, ?_⟩
  · exact fun hno => absurd (hno.symm.trans hg) Bool.false_ne_true
  · intro x hx
    rcases List.mem_append.1 hx with hx | hx
    · exact hs.inner x hx
    · obtain rfl := List.mem_singleton.1 hx
      exact hk
  · intro x hx
    rcases List.mem_append.1 hx with hx | hx
    · exact hall x hx
    · obtain rfl := List.mem_singleton.1 hx
      exact hc

end

end Symbol

/-! ### Symbols when they are opened -/

/-- A member that comes from the documentation of its class. -/
structure Symbol.IsTagged (s : Symbol) : Prop where
  kind : s.kind = .property ∨ s.kind = .method
  magic : s.isMagic = true
  anonymous : s.isAnonymous = false
  imported : s.isImport = false
  children : ∀ c ∈ s.children, c.IsPlain .parameter

theorem Symbol.IsTagged.wellFormed {s : Symbol} (h : s.IsTagged) : s.AllWellFormed := by
  refine allWellFormed_iff.2 ⟨⟨?_, ?_, fun _ => h.kind, fun _ c hc => (h.children c hc).kind, ?_, fun _ => ?_⟩, ?_⟩
  · exact fun hi => absurd (h.imported.symm.trans hi) Bool.false_ne_true
  · exact fun ha => absurd (h.anonymous.symm.trans ha) Bool.false_ne_true
  · exact fun c hc hk => by rw [(h.children c hc).kind] at hk; cases hk
  · exact declaresOnce_of_no_variables fun c hc hk => by rw [(h.children c hc).kind] at hk; cases hk
  · exact fun c hc => (h.children c hc).wellFormed

/-- A symbol for the phrase `p` when it is opened. -/
structure Symbol.Opening (src : Source) (p : Phrase) (s : Symbol) : Prop where
  location : s.location = src.location? p
  declared : s.isDeclared = true
  anonymous : s.isAnonymous = true → s.kind = .cls ∨ s.kind = .function
  children : ∀ c ∈ s.children, c.IsTagged ∨ c.IsPlain .parameter ∨ s.isAnonymous = true ∧ c.IsPlain .var

namespace Source

section

variable (src : Source) (r : Resolver) (doc : Option DocBlock) (p : Phrase)

theorem placed_bare_location (kind : SymbolKind) (name : String) :
    (src.placed (Symbol.bare kind name) p).location = src.location? p := by
  unfold placed
  cases src.location? p <;> rfl

private theorem isDeclared_of {s : Symbol} (hk : s.isScope = true) (hm : s.isMagic = false) (hi : s.isImport = false) :
    s.isDeclared = true := by
  unfold Symbol.isDeclared
  rw [hk, hm, hi]
  rfl

/-- Opened symbols with ordinary modifiers. -/
private theorem opening_of_ordinary {s : Symbol} (hl : s.location = src.location? p) (hk : s.isScope = true)
    (hm : s.modifiers.Ordinary) (hc : ∀ c ∈ s.children, c.IsTagged ∨ c.IsPlain .parameter) : s.Opening src p :=
  ⟨hl, isDeclared_of hk hm.1 hm.2.2, fun ha => absurd (hm.2.1.symm.trans ha) Bool.false_ne_true,
    fun c hc' => (hc c hc').imp_right Or.inl⟩

theorem callableSymbol_location (kind : SymbolKind) (name : String) (header : Phrase) :
    (src.callableSymbol r doc kind name p header).location = src.location? p := by
  unfold callableSymbol
  extract_lets docType symbol marked
  rw [← src.placed_bare_location p kind name]
  show marked.location = symbol.location
  unfold marked
  split <;> rfl

private theorem classSymbol_opening : (src.classSymbol r p).Opening src p := by
  have hkind : (classKinds p.kind).1.isClassLike = true := by
    unfold classKinds
    split <;> rfl
  unfold classSymbol
  generalize classKinds p.kind = kinds at hkind ⊢
  obtain ⟨kind, headerKind⟩ := kinds
  dsimp only at hkind ⊢
  split
  · refine src.opening_of_ordinary p (src.placed_bare_location p _ _) ?_ ?_ ?_
    · unfold Symbol.isScope
      rw [placed_kind]
      simp [Symbol.bare, hkind]
    · rw [placed_modifiers]
      exact empty_ordinary
    · rw [placed_children]
      exact nofun
  · rename_i header _
    refine src.opening_of_ordinary p (src.placed_bare_location p _ _) ?_ ?_ ?_
    · unfold Symbol.isScope
      simp [Symbol.withModifiers, Symbol.bare, hkind]
    · simp only [Symbol.withModifiers, placed_modifiers, Symbol.bare]
      exact empty_ordinary.or ((allModifiers_ordinary header).and _)
    · simp [Symbol.withModifiers, Symbol.bare]

private theorem anonymousClassSymbol_opening : (src.anonymousClassSymbol r p).Opening src p := by
  unfold anonymousClassSymbol
  extract_lets offset name symbol
  have hk : symbol.kind = .cls := by simp [symbol, Symbol.withModifiers, Symbol.bare]
  have hm : symbol.modifiers = Modifiers.empty ||| Modifiers.anonymousBit := by
    simp [symbol, Symbol.withModifiers, Symbol.bare]
  have hc : symbol.children = [] := by simp [symbol, Symbol.withModifiers, Symbol.bare]
  have hs : symbol.Opening src p := by
    refine ⟨src.placed_bare_location p _ _, isDeclared_of ?_ ?_ ?_, fun _ => Or.inl hk,
      by rw [hc]; exact List.forall_mem_nil _⟩
    · unfold Symbol.isScope
      rw [hk]
      rfl
    · unfold Symbol.isMagic Symbol.has
      rw [hm]
      rfl
    · unfold Symbol.isImport Symbol.has
      rw [hm]
      rfl
  split
  · exact hs
  · exact ⟨hs.location, hs.declared, hs.anonymous, hs.children⟩

private theorem taggedMember_isTagged {tag : DocTag} {s : Symbol} (h : taggedMember? r tag = some s) : s.IsTagged := by
  cases tag with
  | property type name access description =>
    cases h
    refine ⟨Or.inl rfl, ?_, ?_, ?_, nofun⟩ <;>
      simp only [Symbol.isMagic, Symbol.isAnonymous, Symbol.isImport, Symbol.has, Symbol.withType, Symbol.withModifiers,
        Symbol.bare] <;>
      cases access <;> rfl
  | method type name isStatic parameters description =>
    cases h
    refine ⟨Or.inr rfl, ?_, ?_, ?_, List.forall_mem_map.2 fun parameter _ => ⟨rfl, empty_ordinary, rfl⟩⟩ <;>
      simp only [Symbol.isMagic, Symbol.isAnonymous, Symbol.isImport, Symbol.has, Symbol.withType, Symbol.withModifiers,
        Symbol.bare] <;>
      cases isStatic <;> rfl
  | _ => cases h

private theorem withClassDoc_opening {p : Phrase} {s : Symbol} (h : s.Opening src p) :
    (withClassDoc r doc s).Opening src p := by
  cases doc with
  | none => exact h
  | some doc =>
    refine ⟨h.location, h.declared, h.anonymous, fun c hc => ?_⟩
    rcases List.mem_append.1 hc with hc | hc
    · exact h.children c hc
    · obtain ⟨m, hm, rfl⟩ := List.mem_map.1 hc
      obtain ⟨tag, -, htag⟩ := List.mem_filterMap.1 hm
      obtain ⟨hk, hmagic, ha, hi, hch⟩ := taggedMember_isTagged r htag
      exact Or.inl ⟨hk, hmagic, ha, hi, hch⟩

private theorem callableSymbol_opening {kind : SymbolKind} (hk : kind = .function ∨ kind = .method) (name : String)
    (header : Phrase) : (src.callableSymbol r doc kind name p header).Opening src p := by
  refine src.opening_of_ordinary p (src.callableSymbol_location r doc p kind name header) ?_
    (src.callableSymbol_ordinary r doc kind name p header)
    fun c hc => Or.inr (src.parameters_plain r doc header c hc)
  unfold Symbol.isScope
  rw [callableSymbol_kind]
  rcases hk with rfl | rfl <;> rfl

/-- Ordinary modifiers and the name of the class change nothing. -/
private theorem Opening.withDetails {src : Source} {p : Phrase} {s s' : Symbol} (h : s.Opening src p)
    (hm : s.modifiers.Ordinary) (hm' : s'.modifiers.Ordinary) (hk : s'.kind = s.kind) (hl : s'.location = s.location)
    (hc : s'.children = s.children) : s'.Opening src p := by
  refine src.opening_of_ordinary p (hl.trans h.location) ?_ hm' fun c hc' => ?_
  · have hd := h.declared
    unfold Symbol.isDeclared at hd
    rw [Bool.and_eq_true, Bool.and_eq_true] at hd
    unfold Symbol.isScope at hd ⊢
    rw [hk]
    exact hd.1.1
  · rw [hc] at hc'
    rcases h.children c hc' with hc' | hc' | ⟨ha, -⟩
    · exact Or.inl hc'
    · exact Or.inr hc'
    · exact absurd (hm.2.1.symm.trans ha) Bool.false_ne_true

private theorem methodSymbol_opening (inInterface : Bool) (header : Phrase) :
    (src.methodSymbol r doc inInterface p header).Opening src p := by
  have hs := src.callableSymbol_opening r doc p (Or.inr rfl) (src.methodName header) header
  have hm := src.callableSymbol_ordinary r doc .method (src.methodName header) p header
  have hm' := hm.or (allModifiers_ordinary header)
  unfold methodSymbol
  extract_lets symbol marked
  split
  · exact Opening.withDetails hs hm (hm'.or ⟨rfl, rfl, rfl⟩) rfl rfl rfl
  · exact Opening.withDetails hs hm hm' rfl rfl rfl

private theorem anonymousFunction_opening (header : Phrase) : (src.anonymousFunction r doc p header).Opening src p ∧
    (src.anonymousFunction r doc p header).isAnonymous = true := by
  have hs := src.callableSymbol_opening r doc p (Or.inl rfl) closureName header
  obtain ⟨hm, ha, hi⟩ := src.callableSymbol_ordinary r doc .function closureName p header
  have hk := src.callableSymbol_kind r doc .function closureName p header
  have hparts : ∀ s' : Symbol, s'.kind = .function → s'.location = src.location? p →
      s'.children = src.parameters r doc header → s'.isMagic = false → s'.isImport = false → s'.Opening src p := by
    intro s' hk hl hc hm hi
    refine ⟨hl, isDeclared_of ?_ hm hi, fun _ => Or.inr hk, fun c hc' => ?_⟩
    · unfold Symbol.isScope
      rw [hk]
      rfl
    · exact Or.inr (Or.inl (src.parameters_plain r doc header c (hc ▸ hc')))
  unfold anonymousFunction
  extract_lets symbol
  split
  · refine ⟨hparts _ hk hs.location rfl ?_ ?_, ?_⟩ <;>
      simp only [symbol, Symbol.isMagic, Symbol.isImport, Symbol.isAnonymous, Symbol.has, Symbol.withModifiers,
        Modifiers.has_or_magic, Modifiers.has_or_import, Modifiers.has_or_anonymous, hm, ha, hi] <;> rfl
  · refine ⟨hparts _ hk hs.location rfl ?_ ?_, ?_⟩ <;>
      simp only [symbol, Symbol.isMagic, Symbol.isImport, Symbol.isAnonymous, Symbol.has, Symbol.withModifiers,
        Modifiers.has_or_magic, Modifiers.has_or_import, Modifiers.has_or_anonymous, hm, ha, hi] <;> rfl

private theorem closureSymbol_opening : (src.closureSymbol r doc p).Opening src p := by
  unfold closureSymbol
  extract_lets header symbol
  obtain ⟨hs, ha⟩ := src.anonymousFunction_opening r doc p header
  split
  · exact hs
  · refine ⟨hs.location, hs.declared, hs.anonymous, fun c hc => ?_⟩
    rcases List.mem_append.1 hc with hc | hc
    · exact hs.children c hc
    · exact Or.inr (Or.inr ⟨ha, src.capturedVariables_plain _ _ c hc⟩)

end

variable {src : Source} {p : Phrase} {s : Symbol}

/-- What every opened symbol is like. -/
theorem Opens.opening (h : src.Opens p s) : s.Opening src p := by
  cases h with
  | cls r r' doc => exact src.withClassDoc_opening r doc (src.classSymbol_opening r' p)
  | anonymousClass r r' doc => exact src.withClassDoc_opening r doc (src.anonymousClassSymbol_opening r' p)
  | headless hk =>
    refine src.opening_of_ordinary p (src.placed_bare_location p _ _) ?_ ?_ ?_
    · unfold Symbol.isScope
      rw [placed_kind]
      rcases hk with rfl | rfl <;> rfl
    · rw [placed_modifiers]
      exact empty_ordinary
    · rw [placed_children]
      exact nofun
  | method r doc inInterface header => exact src.methodSymbol_opening r doc p inInterface header
  | function r doc header => exact src.callableSymbol_opening r doc p (Or.inl rfl) _ header
  | closure r doc => exact src.closureSymbol_opening r doc p
  | arrowFunction r doc => exact (src.anonymousFunction_opening r doc p p).1

end Source

/-! ### The invariant -/

namespace Symbol

theorem Opening.wellFormed {src : Source} {p : Phrase} {s : Symbol} (h : s.Opening src p) : s.AllWellFormed := by
  have hd := h.declared
  have hg : s.mayGrow = true := by
    unfold mayGrow
    rw [hd, Bool.or_true]
  unfold isDeclared at hd
  rw [Bool.and_eq_true, Bool.and_eq_true, Bool.not_eq_true', Bool.not_eq_true'] at hd
  refine allWellFormed_iff.2 ⟨⟨fun _ => isLocal_of_mayGrow hg, h.anonymous, ?_, ?_, fun c hc hk => ?_, fun hv => ?_⟩,
    fun c hc => ?_⟩
  · exact fun hm => absurd (hd.1.2.symm.trans hm) Bool.false_ne_true
  · exact fun hno => absurd (hno.symm.trans hg) Bool.false_ne_true
  · rcases h.children c hc with hc | hc | ⟨-, hc⟩
    · rcases hc.kind with hk' | hk' <;> rw [hk'] at hk <;> cases hk
    · rw [hc.kind] at hk
      cases hk
    · rw [hc.kind] at hk
      cases hk
  · refine declaresOnce_of_no_variables fun c hc hk => ?_
    rcases h.children c hc with hc | hc | ⟨ha, -⟩
    · rcases hc.kind with hk' | hk' <;> rw [hk'] at hk <;> cases hk
    · rw [hc.kind] at hk
      cases hk
    · -- an unnamed function or class collects its variables otherwise
      unfold collectsVariables at hv
      rw [ha] at hv
      rcases h.anonymous ha with hk' | hk' <;> rw [hk'] at hv <;> cases hv
  · rcases h.children c hc with hc | hc | ⟨-, hc⟩
    · exact hc.wellFormed
    · exact hc.wellFormed
    · exact hc.wellFormed

end Symbol

namespace Source

private theorem importSymbol_modifiers (src : Source) (i : Import) :
    (src.importSymbol i).modifiers = Modifiers.empty ||| Modifiers.importBit := by
  simp [importSymbol, Symbol.withModifiers, Symbol.bare]

theorem importSymbol_isImport (src : Source) (i : Import) : (src.importSymbol i).isImport = true := by
  unfold Symbol.isImport Symbol.has
  rw [src.importSymbol_modifiers]
  rfl

/-- An import symbol is never about a variable. -/
theorem importSymbol_wellFormed {src : Source} {p : Phrase} {i : Import} (h : i ∈ src.imports p) :
    (src.importSymbol i).kind.isItem = true ∧ (src.importSymbol i).AllWellFormed := by
  have hitem : ∀ kind ∈ importedKinds, kind.isItem = true := by decide
  have hkind : i.kind.isItem = true := hitem i.kind (imports_kind h)
  have hk : (src.importSymbol i).kind.isItem = true := by simpa [importSymbol, Symbol.withModifiers, Symbol.bare]
  have hm := src.importSymbol_modifiers i
  have hc : (src.importSymbol i).children = [] := by simp [importSymbol, Symbol.withModifiers, Symbol.bare]
  refine ⟨hk, Symbol.allWellFormed_iff.2 ⟨⟨fun _ => SymbolKind.isLocal_of_isItem hk, ?_, ?_, ?_, ?_, fun _ => ?_⟩, ?_⟩⟩
  · unfold Symbol.isAnonymous Symbol.has
    rw [hm]
    exact fun h => absurd h (by decide)
  · unfold Symbol.isMagic Symbol.has
    rw [hm]
    exact fun h => absurd h (by decide)
  · rw [hc]
    exact fun _ => List.forall_mem_nil _
  · rw [hc]
    exact List.forall_mem_nil _
  · exact Symbol.declaresOnce_of_no_variables (by rw [hc]; exact List.forall_mem_nil _)
  · rw [hc]
    exact List.forall_mem_nil _

theorem Adds.wellFormed {src : Source} {c : Symbol} (h : src.Adds c) : c.kind.isItem = true ∧ c.AllWellFormed := by
  have hplain : ∀ kind : SymbolKind, kind.isItem = true → c.IsPlain kind → c.kind.isItem = true ∧ c.AllWellFormed :=
    fun kind hk hc => ⟨by rw [hc.kind, hk], hc.wellFormed⟩
  cases h with
  | imported h => exact importSymbol_wellFormed h
  | space name p =>
    refine hplain .space rfl ⟨by simp [Symbol.bare], ?_, by simp [Symbol.bare]⟩
    rw [placed_modifiers]
    exact empty_ordinary
  | classConstant h => exact hplain _ rfl (src.classConstants_plain _ _ _ c h)
  | property h => exact hplain _ rfl (src.properties_plain _ _ _ c h)
  | constant h => exact hplain _ rfl (src.constants_plain _ _ _ c h)
  | promoted h => exact hplain _ rfl (src.constructorProperties_plain _ _ c h)

end Source

/-- Whatever happens to an open symbol, it stays well-formed. -/
theorem Symbol.wellFormed_invariant (src : Source) :
    Symbol.Invariant src fun s => s.mayGrow = true ∧ s.AllWellFormed where
  file := by
    refine List.forall_mem_singleton.2 ⟨rfl, Symbol.IsPlain.wellFormed (?_ : Symbol.IsPlain .file _)⟩
    exact ⟨rfl, Source.empty_ordinary, rfl⟩
  opens h := by
    have ho := h.opening
    refine ⟨?_, ho.wellFormed⟩
    unfold Symbol.mayGrow
    rw [ho.declared, Bool.or_true]
  adds hs hc := by
    obtain ⟨hk, hw⟩ := hc.wellFormed
    refine ⟨hs.1, hs.2.addChild hs.1 hw (SymbolKind.ne_file_of_isItem hk) fun ho => ?_⟩
    exact ho.addChild (SymbolKind.isLocal_of_isItem hk)
  declares := by
    intro s r doc p v hs _ _ hthis hnew
    have hplain : (src.variableSymbol v).IsPlain .var := ⟨rfl, Source.empty_ordinary, rfl⟩
    exact ⟨hs.1, hs.2.addChild hs.1 hplain.wellFormed nofun fun ho => ho.addVariable rfl hthis hnew⟩
  usesTraits links hs := by
    obtain ⟨hg, hw⟩ := hs
    obtain ⟨hw, hall⟩ := Symbol.allWellFormed_iff.1 hw
    refine ⟨hg, Symbol.allWellFormed_iff.2 ⟨⟨hw.imported, hw.anonymous, hw.magic, hw.leaf, hw.inner, fun hv => ?_⟩,
      hall⟩⟩
    obtain ⟨h1, h2, h3⟩ := hw.once hv
    exact ⟨h1, h2, h3⟩
  closes hs hc hk := ⟨hs.1, hs.2.addChild hs.1 hc.2 hk fun ho => ho.addChild (Symbol.isLocal_of_mayGrow hc.1)⟩

/-- Every symbol of a document is well-formed. -/
theorem Document.wellFormed_fileSymbol (d : Document) : ∀ s ∈ d.fileSymbol.descendants, s.WellFormed :=
  (Symbol.wellFormed_invariant (Source.ofDocument d)).fileSymbol.2

end CodeAtlas
