import CodeAtlas.Proofs.CatalogLookup
import CodeAtlas.Proofs.ReferenceBalance

/-!
# What the reference walk asks

The reference walk looks up classes, functions and constants by name, and members along the hierarchy of a class; it
never looks up a namespace, because no name that it reads stands for one (`NamesNoSpace`).  So pools that say the same
about classes, functions and constants (`Agrees`) give a document the same references (`ofDocument_congr`).
-/

namespace CodeAtlas

/-! ### Answers of a pool -/

namespace SymbolPool

/-- Both pools say the same about classes, functions and constants; a search in a hierarchy also needs the same number
of steps in both. -/
structure Agrees (s s' : SymbolPool) : Prop where
  classes : ∀ name, s'.findAll name (·.kind.isClassLike) = s.findAll name (·.kind.isClassLike)
  functions : ∀ name, s'.findAll name (·.kind == .function) = s.findAll name (·.kind == .function)
  constants : ∀ name, s'.findAll name (·.kind == .constant) = s.findAll name (·.kind == .constant)
  links : Hierarchy.linkTotal s' = Hierarchy.linkTotal s

namespace Agrees

variable {s s' : SymbolPool}

theorem firstClass (h : s.Agrees s') (name : String) :
    s'.find? name (·.kind.isClassLike) = s.find? name (·.kind.isClassLike) := by
  have hhead := congrArg List.head? (h.classes name)
  unfold findAll at hhead
  rwa [List.head?_filter, List.head?_filter] at hhead

theorem ofName (h : s.Agrees s') (name : String) : Hierarchy.ofName? s' name = Hierarchy.ofName? s name := by
  unfold Hierarchy.ofName?
  rw [h.classes]

/-- The classes above are found name by name. -/
theorem resolve (h : s.Agrees s') (excludeTraits : Bool) (fuel : Nat) (visited : List String)
    (queue : List SymbolLink) :
    Hierarchy.resolve s' excludeTraits fuel visited queue = Hierarchy.resolve s excludeTraits fuel visited queue := by
  induction fuel generalizing visited queue with
  | zero => rw [Hierarchy.resolve, Hierarchy.resolve]
  | succ fuel ih =>
    cases queue with
    | nil => simp [Hierarchy.resolve]
    | cons link queue =>
      rw [Hierarchy.resolve, Hierarchy.resolve, h.firstClass]
      simp only [ih]

theorem associated (h : s.Agrees s') (root : Hierarchy) : root.associated s' = root.associated s := by
  unfold Hierarchy.associated
  rw [h.resolve, h.links]

theorem members (h : s.Agrees s') (root : Hierarchy) (strategy : MergeStrategy) (p : Symbol → Bool) :
    root.members s' strategy p = root.members s strategy p := by
  unfold Hierarchy.members Hierarchy.allMembers
  rw [h.associated]

theorem membersOf (h : s.Agrees s') (scope : TypeText) (kind : SymbolKind) (name : String)
    (strategy : MergeStrategy) : s'.membersOf scope kind name strategy = s.membersOf scope kind name strategy := by
  have hname : Hierarchy.ofName? s' = Hierarchy.ofName? s := funext h.ofName
  unfold SymbolPool.membersOf
  simp only [hname, h.members]

theorem constructors (h : s.Agrees s') (strategy : MergeStrategy) (cls : Symbol) :
    s'.constructors strategy cls = s.constructors strategy cls :=
  h.members _ strategy _

theorem findByReference (h : s.Agrees s') {r : Reference} (hr : r.kind ≠ .space) (strategy : MergeStrategy) :
    s'.findByReference r strategy = s.findByReference r strategy := by
  have hconstructors : s'.constructors strategy = s.constructors strategy := funext (h.constructors strategy)
  unfold SymbolPool.findByReference
  cases hk : r.kind with
  | space => exact absurd hk hr
  | _ => simp only [h.classes, h.functions, h.constants, h.membersOf, hconstructors]

end Agrees

end SymbolPool

/-! ### Open phrases

Declarations and records leave the open phrases as they are. -/

namespace ReferenceState

section

variable (s : ReferenceState)

@[simp] theorem frames_record (r : Reference) : (s.record r).frames = s.frames := by
  unfold record
  split <;> rfl

@[simp] theorem frames_advance (family : DeclarationFamily) : (s.advance family).frames = s.frames := by
  unfold advance
  split
  · rfl
  · split <;> rfl

@[simp] theorem frames_spaceDefinition (src : Source) (p : Phrase) : (s.spaceDefinition src p).frames = s.frames := by
  unfold spaceDefinition
  simp only
  split
  · rfl
  · split <;> simp

@[simp] theorem frames_useClause (src : Source) (clause : Phrase) : (s.useClause src clause).frames = s.frames := by
  unfold useClause
  split
  · rfl
  · split
    · rfl
    · simp only
      split <;> simp

@[simp] theorem frames_importNames (src : Source) (p : Phrase) : (s.importNames src p).frames = s.frames := by
  unfold importNames
  induction p.phrases.filter (·.kind == .namespaceUseClause) generalizing s with
  | nil => rfl
  | cons clause clauses ih => rw [List.foldl_cons, ih, frames_useClause]

@[simp] theorem frames_openClassBody (src : Source) (symbol : Symbol) (name : Option Token) :
    (s.openClassBody src symbol name).frames = s.frames := by
  cases name <;> simp [openClassBody, pushCursor]

@[simp] theorem frames_openFunctionBody (src : Source) (p : Phrase) (symbol : Symbol) (carried : List String) :
    (s.openFunctionBody src p symbol carried).frames = s.frames := rfl

@[simp] theorem frames_classDeclaration (src : Source) (p : Phrase) :
    (s.classDeclaration src p).frames = s.frames := by
  simp [classDeclaration]

@[simp] theorem frames_methodDeclaration (src : Source) (p : Phrase) :
    (s.methodDeclaration src p).frames = s.frames := by
  unfold methodDeclaration
  simp only [frames_openFunctionBody]
  split <;> simp

@[simp] theorem frames_functionDeclaration (src : Source) (p : Phrase) :
    (s.functionDeclaration src p).frames = s.frames := by
  unfold functionDeclaration
  simp only [frames_openFunctionBody]
  split <;> simp

@[simp] theorem frames_closureExpression (src : Source) (p : Phrase) :
    (s.closureExpression src p).frames = s.frames := by
  simp [closureExpression]

@[simp] theorem frames_parameterDeclaration (src : Source) (p : Phrase) :
    (s.parameterDeclaration src p).frames = s.frames := by
  unfold parameterDeclaration
  split <;> simp

@[simp] theorem frames_declaredMember (src : Source) (p : Phrase) : (s.declaredMember src p).frames = s.frames := by
  unfold declaredMember
  simp only
  split <;> simp

end

/-! ### Names of namespaces -/

/-- No open phrase is a name that stands for a namespace. -/
def NamesNoSpace (s : ReferenceState) : Prop :=
  .name .space ∉ s.frames.map (·.transform)

variable {s s' : ReferenceState}

theorem NamesNoSpace.of_frames (h : s.NamesNoSpace) (hf : s'.frames = s.frames) : s'.NamesNoSpace := by
  unfold NamesNoSpace
  rw [hf]
  exact h

theorem NamesNoSpace.of_skeleton (h : s.NamesNoSpace)
    (hf : s'.frames.map ReferenceFrame.skeleton = s.frames.map ReferenceFrame.skeleton) : s'.NamesNoSpace := by
  have ht := congrArg (List.map Prod.fst) hf
  rw [List.map_map, List.map_map] at ht
  unfold NamesNoSpace
  exact fun hmem => h (ht ▸ hmem)

theorem NamesNoSpace.within (h : s.NamesNoSpace) {transform : Reduction} (ht : transform ≠ .name .space) (p : Phrase)
    (exit : Unwinding) : (within p transform exit s).1.NamesNoSpace := by
  intro hmem
  rcases List.mem_cons.1 hmem with he | hmem
  · exact ht he.symm
  · exact h hmem

theorem NamesNoSpace.nextConditionalArm (h : s.NamesNoSpace) (kind : PhraseKind) :
    (s.nextConditionalArm kind).NamesNoSpace := by
  unfold ReferenceState.nextConditionalArm
  split
  · rename_i frame rest hf
    split
    · unfold NamesNoSpace at h ⊢
      simp [hf] at h ⊢
      exact h.2
    · exact h
  · exact h

theorem NamesNoSpace.nextSwitchArm (h : s.NamesNoSpace) (kind : PhraseKind) :
    (s.nextSwitchArm kind).NamesNoSpace := by
  unfold ReferenceState.nextSwitchArm
  split
  · rename_i frame rest hf
    split
    · unfold NamesNoSpace at h ⊢
      simp [hf] at h ⊢
      exact h.2
    · exact h
  · exact h

theorem nameKind_ne_space (parent : Option PhraseKind) : nameKind parent ≠ .space := by
  unfold nameKind
  split <;> decide

/-- A name never stands for a namespace. -/
theorem NamesNoSpace.enter (h : s.NamesNoSpace) (env : ReferenceInput) (p : Phrase) (path : List Phrase) :
    (s.enter env p path).1.NamesNoSpace := by
  unfold ReferenceState.enter
  have hd : (if p.kind.discardsDoc then { s with doc := none } else s).NamesNoSpace := by
    split <;> exact h
  simp only
  generalize (if p.kind.discardsDoc then { s with doc := none } else s) = s at hd
  -- the only phrases with a name transform are written names, and these are told by their parent
  have hname : Reduction.name (nameKind (path.head?.map (·.kind))) ≠ .name .space := by
    intro he
    exact nameKind_ne_space _ (Reduction.name.inj he)
  obtain ⟨kind, children⟩ := p
  cases kind
  case error => exact hd
  case namespaceUseDeclaration => exact hd.of_frames (by simp)
  case namespaceDefinition => exact (hd.of_frames (by simp)).within (by nofun) _ _
  case classDeclaration => exact (hd.of_frames (by simp)).within (by nofun) _ _
  case interfaceDeclaration => exact (hd.of_frames (by simp)).within (by nofun) _ _
  case traitDeclaration => exact (hd.of_frames (by simp)).within (by nofun) _ _
  case anonymousClassDeclaration => exact (hd.of_frames (by simp)).within (by nofun) _ _
  case methodDeclaration => exact (hd.of_frames (by simp)).within (by nofun) _ _
  case functionDeclaration => exact (hd.of_frames (by simp)).within (by nofun) _ _
  case anonymousFunctionCreationExpression => exact (hd.of_frames (by simp)).within (by nofun) _ _
  case arrowFunctionCreationExpression => exact (hd.of_frames (by simp)).within (by nofun) _ _
  case parameterDeclaration => exact (hd.of_frames (by simp)).within (by nofun) _ _
  case propertyElement => exact (hd.of_frames (by simp)).within (by nofun) _ _
  case classConstElement => exact (hd.of_frames (by simp)).within (by nofun) _ _
  case constElement => exact (hd.of_frames (by simp)).within (by nofun) _ _
  case qualifiedName => exact hd.within hname _ _
  case fullyQualifiedName => exact hd.within hname _ _
  case relativeQualifiedName => exact hd.within hname _ _
  case elseIfClause => exact (hd.nextConditionalArm _).within (by nofun) _ _
  case elseClause => exact (hd.nextConditionalArm _).within (by nofun) _ _
  case caseStatement => exact (hd.nextSwitchArm _).within (by nofun) _ _
  case defaultStatement => exact (hd.nextSwitchArm _).within (by nofun) _ _
  all_goals exact hd.within (by nofun) _ _

theorem NamesNoSpace.leave (h : s.NamesNoSpace) (env : ReferenceInput) (p : Phrase) :
    (s.leave env p).NamesNoSpace := by
  cases hf : s.frames with
  | nil =>
    have hsame : s.leave env p = s := by
      unfold ReferenceState.leave
      rw [hf]
    rwa [hsame]
  | cons frame rest =>
    obtain ⟨s₁, hfin, hq⟩ := leave_cons env s p hf
    have hrest : NamesNoSpace { s with frames := rest } := by
      unfold NamesNoSpace at h ⊢
      rw [hf] at h
      exact fun hmem => h (List.mem_cons_of_mem _ hmem)
    exact ((hrest.of_skeleton hfin.frames).of_frames (frames_unwind s₁ frame.exit)).of_skeleton hq.frames

/-! ### Walks -/

section

variable {pool pool' : SymbolPool} (src : Source) (uri : String)

theorem qualifiedName_congr (h : pool.Agrees pool') (s : ReferenceState) (p : Phrase) {kind : SymbolKind}
    (hk : kind ≠ .space) :
    s.qualifiedName ⟨src, uri, pool'⟩ p kind = s.qualifiedName ⟨src, uri, pool⟩ p kind := by
  have hr : ∀ text form, (s.nameReference src p kind text form).kind ≠ .space := by
    intro text form
    unfold nameReference
    simp only
    generalize (if kind == .constructor then SymbolKind.cls else kind) = lookup
    split <;> exact hk
  unfold qualifiedName
  simp only [h.findByReference (hr _ _)]

theorem finishPhrase_congr (h : pool.Agrees pool') (s : ReferenceState) (p : Phrase) {transform : Reduction}
    (ht : transform ≠ .name .space) (outcomes : List Outcome) :
    s.finishPhrase ⟨src, uri, pool'⟩ p transform outcomes = s.finishPhrase ⟨src, uri, pool⟩ p transform outcomes := by
  cases transform with
  | name kind => exact qualifiedName_congr src uri h s p fun hk => ht (congrArg _ hk)
  | member kind =>
    unfold finishPhrase accessMember
    simp only [h.membersOf]
  | _ => rfl

theorem leave_congr (h : pool.Agrees pool') (hs : s.NamesNoSpace) (p : Phrase) :
    s.leave ⟨src, uri, pool'⟩ p = s.leave ⟨src, uri, pool⟩ p := by
  unfold leave
  cases hf : s.frames with
  | nil => rfl
  | cons frame rest =>
    have ht : frame.transform ≠ .name .space := by
      intro he
      apply hs
      rw [hf, ← he]
      exact List.mem_cons_self
    simp only [finishPhrase_congr src uri h _ p ht]

/-- Walks with pools that agree go through the same states. -/
theorem visitor_agrees (h : pool.Agrees pool') : (visitor ⟨src, uri, pool⟩).Related (visitor ⟨src, uri, pool'⟩)
    fun s s' => s' = s ∧ s.NamesNoSpace where
  enter s s' p path := by
    rintro ⟨rfl, hs⟩
    exact ⟨⟨rfl, hs.enter _ p path⟩, rfl⟩
  leave s s' p _ := by
    rintro ⟨rfl, hs⟩
    exact ⟨leave_congr src uri h hs p, hs.leave _ p⟩
  token s s' t _ := by
    rintro ⟨rfl, hs⟩
    exact ⟨rfl, hs.of_skeleton (Quiet.token src s' t).frames⟩

end

end ReferenceState

/-- Reading a document with pools that agree gives the same references. -/
theorem Occurrences.ofDocument_congr (d : Document) (table : SymbolTable) {pool pool' : SymbolPool}
    (h : pool.Agrees pool') : ofDocument d table pool' = ofDocument d table pool := by
  have hinitial : (ReferenceState.initial (Source.ofDocument d) table.root).NamesNoSpace := List.not_mem_nil
  have hs : ReferenceState.ofDocument d table pool' = ReferenceState.ofDocument d table pool :=
    ((ReferenceState.visitor_agrees _ _ h).traverse d.tree ⟨rfl, hinitial⟩).1
  unfold ofDocument
  rw [hs]

end CodeAtlas
