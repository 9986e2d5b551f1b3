import CodeAtlas.Proofs.PhraseTree
import CodeAtlas.Proofs.SymbolShape

/-!
# Induction along the declaration walk

A relation between the open symbols before and after a node holds along the whole walk if it holds of tokens, of the
phrases that are not looked into, of those that open nothing and of those that open a symbol (`Followed.walkNode`).
What a step adds besides is settled: no new child is a declaration with a body of its own (`Symbol.Settles`).

A variable belongs to the innermost open symbol that owns variables, and once a phrase gives it a value, that symbol
declares it (`enter_declares`).
-/

namespace CodeAtlas

/-- The phrases that the declaration walk looks into. -/
def PhraseKind.holdsDeclarations (k : PhraseKind) : Bool :=
  k != .error && k != .namespaceUseDeclaration && !k.hides

/-! ### Settled changes -/

namespace Symbol

/-- The children with a body of their own. -/
def declared (s : Symbol) : List Symbol :=
  s.children.filter isDeclared

/-- `b` grows from `a` without a new declared child. -/
structure Settles (a b : Symbol) : Prop where
  grows : a.Grows b
  declared : b.declared = a.declared

theorem Settles.refl (a : Symbol) : a.Settles a :=
  ⟨Grows.refl a, rfl⟩

theorem Settles.trans {a b c : Symbol} (h : a.Settles b) (h' : b.Settles c) : a.Settles c :=
  ⟨h.grows.trans h'.grows, h'.declared.trans h.declared⟩

theorem declared_addChild (s c : Symbol) :
    (s.addChild c).declared = s.declared ++ if c.isDeclared then [c] else [] := by
  unfold declared addChild
  rw [List.filter_append]
  cases h : c.isDeclared <;> simp [h]

theorem Settles.addChild (a : Symbol) {c : Symbol} (h : c.isDeclared = false) : a.Settles (a.addChild c) := by
  refine ⟨Grows.addChild a c, ?_⟩
  rw [declared_addChild, h]
  exact List.append_nil _

theorem Grows.isDeclared {a b : Symbol} (h : a.Grows b) : b.isDeclared = a.isDeclared := by
  unfold Symbol.isDeclared isScope isMagic isImport has
  rw [h.kind, h.modifiers]

/-- A symbol that is opened has no declared children yet. -/
theorem Opening.declared_eq_nil {src : Source} {p : Phrase} {s : Symbol} (h : s.Opening src p) : s.declared = [] := by
  refine List.filter_eq_nil_iff.2 fun c hc hd => ?_
  unfold isDeclared isScope at hd
  rcases h.children c hc with hc | hc | ⟨-, hc⟩
  · rw [hc.magic, Bool.not_true, Bool.and_false, Bool.false_and] at hd
    cases hd
  · rw [hc.kind] at hd
    cases hd
  · rw [hc.kind] at hd
    cases hd

/-- Every declared symbol belongs to a family. -/
private theorem exists_family {c : Symbol} (hc : c.WellFormed) (h : c.isDeclared = true) :
    ∃ f : DeclarationFamily, f.includes c = true := by
  unfold isDeclared isScope at h
  rw [Bool.and_eq_true, Bool.and_eq_true, Bool.not_eq_true', Bool.not_eq_true'] at h
  obtain ⟨⟨hscope, hm⟩, hi⟩ := h
  cases ha : c.isAnonymous with
  | true =>
    rcases hc.anonymous ha with hk | hk
    · exact ⟨.anonymousClass, by simp [DeclarationFamily.includes, hk, ha]⟩
    · exact ⟨.closure, by simp [DeclarationFamily.includes, hk, ha]⟩
  | false =>
    rw [Bool.or_eq_true, Bool.or_eq_true, beq_iff_eq, beq_iff_eq] at hscope
    rcases hscope with (hk | hk) | hk
    · exact ⟨.classLike, by simp [DeclarationFamily.includes, hk, ha, hi]⟩
    · exact ⟨.function, by simp [DeclarationFamily.includes, hk, ha, hi]⟩
    · exact ⟨.method, by simp [DeclarationFamily.includes, hk, hm]⟩

/-- Quiet growth is settled among well-formed symbols. -/
theorem GrowsQuietly.settles {a b : Symbol} (h : a.GrowsQuietly b) (hb : b.AllWellFormed) : a.Settles b := by
  refine ⟨h.grows, ?_⟩
  obtain ⟨added, hadded⟩ := h.grows.children
  have hnone : added.filter isDeclared = [] := by
    refine List.filter_eq_nil_iff.2 fun c hc hd => ?_
    have hmem : c ∈ b.children := hadded ▸ List.mem_append_right _ hc
    obtain ⟨f, hf⟩ := exists_family (allWellFormed_iff.1 ((allWellFormed_iff.1 hb).2 c hmem)).1 hd
    have hfamily := h.families f
    unfold inFamily at hfamily
    rw [← hadded, List.filter_append, List.append_right_eq_self, List.filter_eq_nil_iff] at hfamily
    exact hfamily c hc hf
  unfold declared
  rw [← hadded, List.filter_append, hnone, List.append_nil]

end Symbol

/-- The innermost open symbol gets parts of the kind `f`, which match the trees one by one. -/
def Gets {α : Type} (f : Symbol → List Symbol) (M : Symbol → PhraseTree α → Prop) (trees : List (PhraseTree α))
    (o o' : List Symbol) : Prop :=
  ∀ top below, o = top :: below → ∃ top' below' added, o' = top' :: below' ∧ f top' = f top ++ added ∧
    List.Forall₂ M added trees

namespace Gets

variable {α : Type} {f : Symbol → List Symbol} {M : Symbol → PhraseTree α → Prop} {trees trees' : List (PhraseTree α)}
  {o o' o'' : List Symbol}

theorem of_settles (hf : ∀ {a b : Symbol}, a.Settles b → f b = f a) (h : List.Forall₂ Symbol.Settles o o') :
    Gets f M [] o o' := by
  rintro top below rfl
  obtain ⟨top', below', hs, -, rfl⟩ := List.forall₂_cons_left_iff.1 h
  exact ⟨top', below', [], rfl, by rw [hf hs, List.append_nil], .nil⟩

theorem trans (h : Gets f M trees o o') (h' : Gets f M trees' o' o'') : Gets f M (trees ++ trees') o o'' := by
  intro top below ho
  obtain ⟨top', below', added, ho', hf, ha⟩ := h top below ho
  obtain ⟨top'', below'', added', ho'', hf', ha'⟩ := h' top' below' ho'
  exact ⟨top'', below'', added ++ added', ho'', by rw [hf', hf, List.append_assoc], List.rel_append ha ha'⟩

/-- A finished symbol and what it adds to the symbol around it. -/
theorem of_addChild (hf : ∀ {a b : Symbol}, a.Settles b → f b = f a) {top built : Symbol} {below added : List Symbol}
    (ho : List.Forall₂ Symbol.Settles o (top :: below)) (hadds : f (top.addChild built) = f top ++ added)
    (ha : List.Forall₂ M added trees) (hs : List.Forall₂ Symbol.Settles (top.addChild built :: below) o') :
    Gets f M trees o o' := by
  rintro top₀ below₀ rfl
  obtain ⟨htop, -⟩ := List.forall₂_cons.1 ho
  obtain ⟨top', below', htop', -, ho'⟩ := List.forall₂_cons_left_iff.1 hs
  exact ⟨top', below', added, ho', by rw [hf htop', hadds, hf htop], ha⟩

/-- Between two lists with one symbol on top. -/
theorem top {a b : Symbol} {l m : List Symbol} (h : Gets f M trees (a :: l) (b :: m)) (ha : f a = []) :
    List.Forall₂ M (f b) trees := by
  obtain ⟨_, _, added, hcons, hf, hadded⟩ := h a l rfl
  obtain ⟨rfl, -⟩ := List.cons.inj hcons
  rw [ha, List.nil_append] at hf
  exact hf ▸ hadded

end Gets

/-! ### Variables that are given values -/

namespace Source

/-- The tokens of the variables that a phrase gives a value to: the target of an assignment, one variable for each slot
of a loop over a collection, the variable of a catch clause and those of a global declaration. -/
def assignedTokens (p : Phrase) : List Token :=
  match p.kind with
  | .simpleAssignmentExpression | .byRefAssignmentExpression => (p.phrases.head?.bind nameToken?).toList
  | .foreachStatement =>
    (p.phrases.filter fun child => child.kind == .foreachKey || child.kind == .foreachValue).filterMap
      (·.phrases.findSome? nameToken?)
  | .catchClause => (p.token? .variableName).toList
  | .globalDeclaration => p.phrases.filterMap nameToken?
  | _ => []

def assignedNames (src : Source) (p : Phrase) : List String :=
  (assignedTokens p).map src.text

theorem assignments_tokens (src : Source) (r : Resolver) (doc : Option DocBlock) (p : Phrase) :
    (src.assignments r doc p).map (·.token) = assignedTokens p := by
  have hoption : ∀ (o : Option Token) (f : Token → TypeText),
      (o.map fun token => Assigned.mk token (f token)).toList.map (·.token) = o.toList := by
    intro o f
    cases o <;> rfl
  have hslots : ∀ slots : List Phrase, (slots.filterMap fun slot =>
      (slot.phrases.findSome? nameToken?).map (Assigned.mk · TypeText.empty)).map (·.token) =
        slots.filterMap (·.phrases.findSome? nameToken?) := by
    intro slots
    rw [List.map_filterMap]
    congr 1
    funext slot
    rw [Option.map_map]
    exact congrFun Option.map_id _
  obtain ⟨kind, children⟩ := p
  cases kind
  case simpleAssignmentExpression => exact hoption _ _
  case byRefAssignmentExpression => exact hoption _ _
  case foreachStatement => exact hslots _
  case catchClause => exact hoption _ _
  case globalDeclaration => exact (List.map_map ..).trans (List.map_id _)
  all_goals rfl

end Source

/-- The innermost of the open symbols that owns variables declares the name. -/
def OwnerDeclares (opened : List Symbol) (name : String) : Prop :=
  ∃ owner, opened.find? Symbol.ownsVariables = some owner ∧ owner.declares name = true

section Owner

variable {o o' : List Symbol} {name : String}

theorem Symbol.Grows.ownsVariables {a b : Symbol} (h : a.Grows b) : b.ownsVariables = a.ownsVariables := by
  unfold Symbol.ownsVariables
  rw [h.kind]

theorem Symbol.Grows.declares {a b : Symbol} (h : a.Grows b) (ha : a.declares name = true) :
    b.declares name = true := by
  obtain ⟨c, hc, hname⟩ := List.any_eq_true.1 ha
  exact List.any_eq_true.2 ⟨c, h.children.subset hc, hname⟩

/-- The owner stays the same, grown. -/
private theorem find_owner (h : List.Forall₂ Symbol.Grows o o') {owner : Symbol}
    (hf : o.find? Symbol.ownsVariables = some owner) :
    ∃ owner', o'.find? Symbol.ownsVariables = some owner' ∧ owner.Grows owner' := by
  induction h with
  | nil => cases hf
  | cons hg _ ih =>
    rw [List.find?_cons] at hf
    rw [List.find?_cons, hg.ownsVariables]
    split at hf
    · obtain rfl := Option.some.inj hf
      exact ⟨_, rfl, hg⟩
    · exact ih hf

theorem OwnerDeclares.grows (h : OwnerDeclares o name) (hg : List.Forall₂ Symbol.Grows o o') :
    OwnerDeclares o' name := by
  obtain ⟨owner, hf, hd⟩ := h
  obtain ⟨owner', hf', hg⟩ := find_owner hg hf
  exact ⟨owner', hf', hg.declares hd⟩

/-- Changing the owner. -/
private theorem find_updateFirst {f : Symbol → Symbol} (hf : ∀ a, (f a).ownsVariables = a.ownsVariables)
    (o : List Symbol) : (updateFirst Symbol.ownsVariables f o).find? Symbol.ownsVariables = (o.find? Symbol.ownsVariables).map f := by
  induction o with
  | nil => rfl
  | cons a o ih =>
    unfold updateFirst
    cases ha : a.ownsVariables with
    | true => rw [if_pos rfl, List.find?_cons_of_pos ((hf a).trans ha), List.find?_cons_of_pos ha, Option.map_some]
    | false =>
      rw [if_neg Bool.false_ne_true, List.find?_cons_of_neg (by rw [ha]; exact Bool.false_ne_true),
        List.find?_cons_of_neg (by rw [ha]; exact Bool.false_ne_true), ih]

end Owner

namespace DeclarationState

variable {src : Source} {t : DeclarationState}

private theorem declareAll_grows (src : Source) (t : DeclarationState) (vs : List Source.Assigned) :
    List.Forall₂ Symbol.Grows t.opened (t.declareAll src vs).opened :=
  (Quiet.declareAll src t vs).opened.imp fun _ _ h => h.grows

private theorem declare_declares (ho : (t.opened.find? Symbol.ownsVariables).isSome) {v : Source.Assigned}
    (hv : src.text v.token ≠ "$this") : OwnerDeclares (t.declare src v).opened (src.text v.token) := by
  obtain ⟨owner, ho⟩ := Option.isSome_iff_exists.1 ho
  unfold declare
  dsimp only
  rw [if_neg hv]
  refine ⟨_, (find_updateFirst (fun holder => ?_) t.opened).trans (congrArg (Option.map _) ho), ?_⟩
  · split <;> rfl
  · dsimp only
    split
    · assumption
    · exact List.any_eq_true.2 ⟨_, List.mem_append_right _ List.mem_cons_self, by simp [Symbol.bare, Symbol.withType,
        Symbol.withLocation, SymbolKind.isLocal]⟩

theorem declareAll_declares (vs : List Source.Assigned) (ho : (t.opened.find? Symbol.ownsVariables).isSome) :
    ∀ v ∈ vs, src.text v.token ≠ "$this" → OwnerDeclares (t.declareAll src vs).opened (src.text v.token) := by
  induction vs generalizing t with
  | nil => exact nofun
  | cons w vs ih =>
    intro v hv hthis
    obtain ⟨owner, howner⟩ := Option.isSome_iff_exists.1 ho
    obtain ⟨owner', howner', -⟩ := find_owner (declareAll_grows src t [w]) howner
    rcases List.mem_cons.1 hv with rfl | hv
    · exact (declare_declares ho hthis).grows (declareAll_grows src (t.declare src v) vs)
    · exact ih (Option.isSome_iff_exists.2 ⟨owner', howner'⟩) v hv hthis

/-- Once a phrase is entered that gives a variable a value, the owner of the variable declares it. -/
theorem enter_declares (ho : (t.opened.find? Symbol.ownsVariables).isSome) (p : Phrase) :
    ∀ name ∈ src.assignedNames p, name ≠ "$this" → OwnerDeclares (t.enter src p).1.opened name := by
  have hgives : ∀ t' : DeclarationState, t'.opened = t.opened → ∀ name ∈ src.assignedNames p, name ≠ "$this" →
      OwnerDeclares (t'.declareAll src (src.assignments t'.resolver t'.doc p)).opened name := by
    intro t' ho' name hname hthis
    unfold Source.assignedNames at hname
    rw [← src.assignments_tokens t'.resolver t'.doc p, List.map_map] at hname
    obtain ⟨v, hv, rfl⟩ := List.mem_map.1 hname
    exact declareAll_declares _ (ho' ▸ ho) v hv hthis
  obtain ⟨kind, children⟩ := p
  cases kind
  case simpleAssignmentExpression => exact hgives t rfl
  case byRefAssignmentExpression => exact hgives t rfl
  case foreachStatement => exact hgives { t with doc := none } rfl
  case catchClause => exact hgives t rfl
  case globalDeclaration => exact hgives { t with doc := none } rfl
  all_goals exact fun _ hname => absurd hname List.not_mem_nil

/-! ### Entering -/

/-- Entering a phrase that opens no symbol. -/
theorem enter_unopened (src : Source) (t : DeclarationState) (p : Phrase) (hk : p.kind.family? = none)
    (he : (t.enter src p).2 = true) : List.Forall₂ Symbol.GrowsQuietly t.opened (t.enter src p).1.opened ∧
      ∃ frame, (t.enter src p).1.frames = frame :: t.frames ∧ (frame = .plain ∨ frame = .bracedSpace) := by
  cases hd : p.kind.declares with
  | false =>
    have h := enter_plain src t p hd
    revert he h
    generalize t.enter src p = result
    rintro he (⟨hq⟩ | ⟨hq⟩)
    · cases he
    · exact ⟨hq.opened, .plain, congrArg _ hq.frames, Or.inl rfl⟩
  | true =>
    rcases ReferenceState.declares_cases hd with ⟨family, hf⟩ | hi | hn
    · rw [hf] at hk
      cases hk
    · rw [enter_imports src t p hi] at he
      cases he
    · rw [enter_space src t p hn]
      have hq := spaceDefinition_quiet src t p
      refine ⟨hq.opened, _, congrArg _ hq.frames, ?_⟩
      split
      · exact Or.inr rfl
      · exact Or.inl rfl

theorem enter_ne_nil (src : Source) {p : Phrase} (hne : t.opened ≠ []) (he : (t.enter src p).2 = true) :
    (t.enter src p).1.opened ≠ [] := by
  cases hk : p.kind.family? with
  | none =>
    have hg := (enter_unopened src t p hk he).1
    intro hnil
    rw [hnil, List.forall₂_nil_right_iff] at hg
    exact hne hg
  | some family =>
    obtain ⟨-, symbol, outer, -, -, ho, -⟩ := (enter_declaration src t p hk).opens
    rw [ho]
    exact List.cons_ne_nil symbol outer

/-- The symbol that a declaration opens. -/
theorem enter_opens (src : Source) (t : DeclarationState) (p : Phrase) {family : DeclarationFamily}
    (hf : p.kind.family? = some family) :
    ∃ symbol outer, (t.enter src p).1.opened = symbol :: outer ∧ src.Opens p symbol := by
  obtain ⟨kind, children⟩ := p
  cases kind
  case classDeclaration => exact ⟨_, _, rfl, .cls _ _ _⟩
  case interfaceDeclaration => exact ⟨_, _, rfl, .cls _ _ _⟩
  case traitDeclaration => exact ⟨_, _, rfl, .cls _ _ _⟩
  case anonymousClassDeclaration => exact ⟨_, _, rfl, .anonymousClass _ _ _⟩
  case methodDeclaration =>
    show ∃ symbol outer, (t.methodDeclaration src _).opened = symbol :: outer ∧ _
    unfold methodDeclaration
    dsimp only
    split
    · exact ⟨_, _, rfl, .headless (Or.inr rfl)⟩
    · exact ⟨_, _, rfl, .method _ _ _ _⟩
  case functionDeclaration =>
    show ∃ symbol outer, (t.functionDeclaration src _).opened = symbol :: outer ∧ _
    unfold functionDeclaration
    dsimp only
    split
    · exact ⟨_, _, rfl, .headless (Or.inl rfl)⟩
    · exact ⟨_, _, rfl, .function _ _ _⟩
  case anonymousFunctionCreationExpression => exact ⟨_, _, rfl, .closure _ _⟩
  case arrowFunctionCreationExpression => exact ⟨_, _, rfl, .arrowFunction _ _⟩
  all_goals cases hf

private theorem addImports_settles (src : Source) (is : List Source.Import) {top : Symbol} {below : List Symbol}
    (h : t.opened = top :: below) :
    ∃ top', (is.foldl (addImport src) t).opened = top' :: below ∧ top.Settles top' := by
  induction is generalizing t top with
  | nil => exact ⟨top, h, Symbol.Settles.refl top⟩
  | cons i is ih =>
    obtain ⟨top', ho, hs⟩ := ih (congrArg opened (addImport_of_opened src i h))
    have hi : (src.importSymbol i).isDeclared = false := by
      unfold Symbol.isDeclared
      rw [src.importSymbol_isImport, Bool.not_true, Bool.and_false]
    exact ⟨top', ho, (Symbol.Settles.addChild top hi).trans hs⟩

/-! ### The walk -/

/-- All open symbols are well-formed, and one of them owns variables. -/
structure Grounded (t : DeclarationState) : Prop where
  wellFormed : t.All fun s => s.mayGrow = true ∧ s.AllWellFormed
  owner : (t.opened.find? Symbol.ownsVariables).isSome = true

theorem Grounded.ne_nil (h : t.Grounded) : t.opened ≠ [] := by
  intro hnil
  have ho := h.owner
  rw [hnil] at ho
  cases ho

theorem Grounded.of_grows {t' : DeclarationState} (h : t.Grounded)
    (hw : t'.All fun s => s.mayGrow = true ∧ s.AllWellFormed) (hg : List.Forall₂ Symbol.Grows t.opened t'.opened) :
    t'.Grounded := by
  obtain ⟨owner, ho⟩ := Option.isSome_iff_exists.1 h.owner
  obtain ⟨owner', ho', -⟩ := find_owner hg ho
  exact ⟨hw, Option.isSome_iff_exists.2 ⟨owner', ho'⟩⟩

private theorem settles_of_quiet {o o' : List Symbol} (hg : List.Forall₂ Symbol.GrowsQuietly o o')
    (hw : ∀ x ∈ o', x.mayGrow = true ∧ x.AllWellFormed) : List.Forall₂ Symbol.Settles o o' := by
  induction hg with
  | nil => exact .nil
  | cons hg _ ih =>
    obtain ⟨ha, hw⟩ := List.forall_mem_cons.1 hw
    exact .cons (hg.settles ha.2) (ih hw)

theorem Grounded.settles {o : List Symbol} {t' : DeclarationState} (h : t'.Grounded)
    (hg : List.Forall₂ Symbol.GrowsQuietly o t'.opened) : List.Forall₂ Symbol.Settles o t'.opened :=
  settles_of_quiet hg h.wellFormed.each

theorem Progress.all_grow {t' : DeclarationState} (h : t.Progress t') :
    List.Forall₂ Symbol.Grows t.opened t'.opened := by
  obtain ⟨top, below, top', below', ho, ho', hg, hb⟩ := h.opened
  rw [ho, ho']
  exact .cons hg (hb.imp fun _ _ h => h.grows)

theorem enter_grounded (src : Source) {p : Phrase} (h : t.Grounded) (he : (t.enter src p).2 = true) :
    (t.enter src p).1.Grounded := by
  have hw := (Symbol.wellFormed_invariant src).enter h.wellFormed p
  cases hk : p.kind.family? with
  | none => exact h.of_grows hw ((enter_unopened src t p hk he).1.imp fun _ _ h => h.grows)
  | some family =>
    obtain ⟨-, symbol, outer, -, -, ho, hout, -⟩ := (enter_declaration src t p hk).opens
    obtain ⟨owner, howner⟩ := Option.isSome_iff_exists.1 h.owner
    obtain ⟨owner', howner', -⟩ := find_owner (hout.imp fun _ _ h => h.grows) howner
    refine ⟨hw, ?_⟩
    rw [ho, List.find?_cons, howner']
    split <;> rfl

/-- A relation between the open symbols before and after a node that can be followed along the declaration walk. -/
structure Followed (src : Source) (R : Node → List Symbol → List Symbol → Prop)
    (Rs : List Node → List Symbol → List Symbol → Prop) : Prop where
  token : ∀ {k : Token} {o o'}, List.Forall₂ Symbol.Settles o o' → R (.token k) o o'
  refused : ∀ {p : Phrase} {o o'}, p.kind.holdsDeclarations = false → List.Forall₂ Symbol.Settles o o' → R p.toNode o o'
  plain : ∀ {p : Phrase} {o o₁ o₂ o₃}, p.kind.holdsDeclarations = true → p.kind.family? = none →
    List.Forall₂ Symbol.Settles o o₁ → (∀ name ∈ src.assignedNames p, name ≠ "$this" → OwnerDeclares o₁ name) →
    Rs p.children o₁ o₂ → List.Forall₂ Symbol.Grows o₁ o₂ → List.Forall₂ Symbol.Settles o₂ o₃ → R p.toNode o o₃
  declared : ∀ {p : Phrase} {family o o₁ symbol built top below o₃}, p.kind.holdsDeclarations = true →
    p.kind.family? = some family → symbol.Opening src p → List.Forall₂ Symbol.Settles o (top :: below) →
    Rs p.children (symbol :: o₁) (built :: top :: below) →
    List.Forall₂ Symbol.Grows (symbol :: o₁) (built :: top :: below) → built.PairedAs (some family) →
    List.Forall₂ Symbol.Settles (top.addChild built :: below) o₃ → R p.toNode o o₃
  nil : ∀ o, Rs [] o o
  cons : ∀ {n ns o o' o''}, R n o o' → Rs ns o' o'' → List.Forall₂ Symbol.Grows o' o'' → Rs (n :: ns) o o''

namespace Followed

variable {R : Node → List Symbol → List Symbol → Prop} {Rs : List Node → List Symbol → List Symbol → Prop}

/-- A phrase, once its children have been followed. -/
private theorem phrase (h : Followed src R Rs) {p : Phrase} {path : List Phrase} (ht : t.Grounded)
    (hc : (t.enter src p).1.Grounded → Rs p.children (t.enter src p).1.opened
        ((visitor src).walkNodes (p :: path) p.children (t.enter src p).1).opened ∧
      ((visitor src).walkNodes (p :: path) p.children (t.enter src p).1).Grounded) :
    R p.toNode t.opened ((visitor src).walkNode path p.toNode t).opened ∧
      ((visitor src).walkNode path p.toNode t).Grounded := by
  have hprogress := walkNode_progress src path p.toNode t ht.ne_nil
  have hlook : (t.enter src p).2 = p.kind.holdsDeclarations := enter_snd src t p
  cases he : (t.enter src p).2 with
  | false =>
    have hr : (visitor src).enter t ⟨p.kind, p.children⟩ path = ((t.enter src p).1, false) := Prod.ext rfl he
    unfold Phrase.toNode at hprogress ⊢
    rw [Visitor.walkNode_refused _ hr] at hprogress ⊢
    have hg : (t.enter src p).1.Grounded :=
      ht.of_grows ((Symbol.wellFormed_invariant src).enter ht.wellFormed p) hprogress.all_grow
    refine ⟨h.refused (hlook.symm.trans he) ?_, hg⟩
    cases hd : p.kind.declares with
    | false =>
      have hq := enter_plain src t p hd
      revert hq he hg
      generalize t.enter src p = result
      rintro he hg (⟨hq⟩ | ⟨hq⟩)
      · exact hg.settles hq.opened
      · cases he
    | true =>
      rcases ReferenceState.declares_cases hd with ⟨family, hf⟩ | hi | hn
      · exact absurd ((enter_declaration src t p hf).opens.1.symm.trans he) (by decide)
      · rw [enter_imports src t p hi]
        obtain ⟨top, below, ho⟩ := List.exists_cons_of_ne_nil ht.ne_nil
        obtain ⟨top', ho', hs⟩ := addImports_settles src (src.imports p) ho
        rw [show (t.importNames src p).opened = top' :: below from ho', ho]
        exact .cons hs (List.forall₂_same.2 fun a _ => Symbol.Settles.refl a)
      · rw [enter_space src t p hn] at he
        cases he
  | true =>
    have hr : (visitor src).enter t ⟨p.kind, p.children⟩ path = ((t.enter src p).1, true) := Prod.ext rfl he
    have hg₁ := enter_grounded src ht he
    obtain ⟨hRs, hg₂⟩ := hc hg₁
    have hinner := walkNodes_progress src (p :: path) p.children _ hg₁.ne_nil
    unfold Phrase.toNode at hprogress ⊢
    rw [Visitor.walkNode_entered _ hr] at hprogress ⊢
    have hg₃ := ht.of_grows ((Symbol.wellFormed_invariant src).leave hg₂.wellFormed p) hprogress.all_grow
    refine ⟨?_, hg₃⟩
    have hlook' := hlook.symm.trans he
    cases hk : p.kind.family? with
    | none =>
      obtain ⟨hq, frame, hf, hframe⟩ := enter_unopened src t p hk he
      have hleft := (leave_growth (hinner.frames.trans hf) hframe p).1
      exact h.plain hlook' hk (hg₁.settles hq) (enter_declares ht.owner p) hRs hinner.all_grow (hg₃.settles hleft)
    | some family =>
      obtain ⟨-, symbol, built, top, below, hd⟩ := declares_of_progress src hk ht.ne_nil hinner
      obtain ⟨_, _, ho, hopens⟩ := enter_opens src t p hk
      obtain ⟨outer, ho'⟩ := hd.entered
      obtain ⟨rfl, rfl⟩ := List.cons.inj (ho.symm.trans ho')
      have hgrow := hinner.all_grow
      have hw := hg₂.wellFormed.each
      rw [ho, hd.finished] at hgrow hRs
      rw [hd.finished] at hw
      have haround := settles_of_quiet hd.around (List.forall_mem_cons.1 hw).2
      exact h.declared hlook' hk hopens.opening haround hRs hgrow hd.paired (hg₃.settles hd.left)

mutual

/-- What can be followed holds of every node along the walk. -/
theorem walkNode (h : Followed src R Rs) (path : List Phrase) : ∀ (n : Node) (t : DeclarationState), t.Grounded →
    R n t.opened ((visitor src).walkNode path n t).opened ∧ ((visitor src).walkNode path n t).Grounded
  | .token k, t, ht => by
    rw [Visitor.walkNode]
    have hq := Quiet.token src t k
    have hg : (t.token src k).Grounded :=
      ht.of_grows (Symbol.Invariant.token ht.wellFormed src k) (hq.opened.imp fun _ _ h => h.grows)
    exact ⟨h.token (hg.settles hq.opened), hg⟩
  | .phrase kind children, t, ht =>
    phrase (p := ⟨kind, children⟩) h ht fun hg => walkNodes h (⟨kind, children⟩ :: path) children _ hg

theorem walkNodes (h : Followed src R Rs) (path : List Phrase) : ∀ (ns : List Node) (t : DeclarationState),
    t.Grounded → Rs ns t.opened ((visitor src).walkNodes path ns t).opened ∧
      ((visitor src).walkNodes path ns t).Grounded
  | [], t, ht => by
    rw [Visitor.walkNodes]
    exact ⟨h.nil _, ht⟩
  | n :: ns, t, ht => by
    obtain ⟨hn, hg⟩ := walkNode h path n t ht
    obtain ⟨hns, hg'⟩ := walkNodes h path ns _ hg
    rw [Visitor.walkNodes]
    exact ⟨h.cons hn hns (walkNodes_progress src path ns _ hg.ne_nil).all_grow, hg'⟩

end

/-- What can be followed holds of a whole document, between its file when it is opened and its file in the end. -/
theorem fileSymbol {d : Document} (h : Followed (Source.ofDocument d) R Rs) : ∃ file,
    (initial (Source.ofDocument d)).opened = [file] ∧ file.Grows d.fileSymbol ∧
      R d.tree.toNode [file] [d.fileSymbol] := by
  have hg : (initial (Source.ofDocument d)).Grounded :=
    ⟨(Symbol.wellFormed_invariant _).initial, rfl⟩
  have hR := (h.walkNode [] d.tree.toNode _ hg).1
  have hp := walkNode_progress (Source.ofDocument d) [] d.tree.toNode _ hg.ne_nil
  obtain ⟨_, _, top, below, ho, ho', hgrows, hb⟩ := hp.opened
  obtain ⟨rfl, rfl⟩ := List.cons.inj ho
  cases hb
  rw [ho'] at hR
  have hfile : d.fileSymbol = top := by
    rw [d.fileSymbol_eq_walk]
    unfold Visitor.walk finish
    rw [ho']
    rfl
  rw [hfile]
  exact ⟨_, rfl, hgrows, hR⟩

end Followed

end DeclarationState

end CodeAtlas
