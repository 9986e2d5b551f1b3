import CodeAtlas.Proofs.DeclarationInduction

/-!
# Declared variables

The functions, methods, closures and arrow functions that the declaration walk comes to form a tree, and so do the
symbols of functions and methods in the table; classes stand in between in both.  The two trees match node by node, and
the symbol of a function declares every variable that is given a value in it (`Symbol.Hosts`).  Together with the shape
of symbols this says that variables are declared once and never missed (`Document.variables_declared`).
-/

namespace CodeAtlas

namespace Symbol

mutual

/-- The outermost functions and methods at or below a symbol; classes are looked through. -/
def functionsAt : Symbol → List Symbol
  | .mk kind name location modifiers type doc associated children scope value =>
    let s := Symbol.mk kind name location modifiers type doc associated children scope value
    if s.isDeclared then if kind.isClassLike then functionsOf children else [s] else []

def functionsOf : List Symbol → List Symbol
  | [] => []
  | s :: rest => functionsAt s ++ functionsOf rest

end

/-- The functions, methods and closures in a symbol, without those in another one. -/
def functions (s : Symbol) : List Symbol :=
  functionsOf s.children

section

variable {s c : Symbol}

theorem functionsAt_undeclared (h : s.isDeclared = false) : functionsAt s = [] := by
  cases s
  rw [functionsAt, h]
  rfl

theorem functionsAt_class (h : s.isDeclared = true) (hk : s.kind.isClassLike = true) : functionsAt s = s.functions := by
  cases s
  rw [functionsAt, h]
  exact if_pos hk

theorem functionsAt_function (h : s.isDeclared = true) (hk : s.kind.isClassLike = false) : functionsAt s = [s] := by
  cases s
  rw [functionsAt, h]
  exact if_neg (Bool.not_eq_true _ ▸ hk)

private theorem functionsOf_append (l m : List Symbol) : functionsOf (l ++ m) = functionsOf l ++ functionsOf m := by
  induction l with
  | nil => rfl
  | cons s l ih => rw [List.cons_append, functionsOf, functionsOf, ih, List.append_assoc]

/-- Only declared children matter. -/
private theorem functionsOf_filter (l : List Symbol) : functionsOf (l.filter isDeclared) = functionsOf l := by
  induction l with
  | nil => rfl
  | cons s l ih =>
    cases h : s.isDeclared with
    | true => rw [List.filter_cons_of_pos h, functionsOf, functionsOf, ih]
    | false =>
      rw [List.filter_cons_of_neg (Bool.not_eq_true _ ▸ h), functionsOf, functionsAt_undeclared h, ih]
      rfl

theorem functions_addChild (s c : Symbol) : (s.addChild c).functions = s.functions ++ functionsAt c := by
  unfold functions addChild
  rw [functionsOf_append, functionsOf, functionsOf, List.append_nil]

theorem Settles.functions (h : s.Settles c) : c.functions = s.functions := by
  unfold Symbol.functions
  rw [← functionsOf_filter c.children, ← functionsOf_filter s.children]
  exact congrArg functionsOf h.declared

end

end Symbol

/-- The variables that are given values, by the function that they belong to. -/
def Source.assigned (src : Source) : Harvest String :=
  { enters := PhraseKind.holdsDeclarations, chooses := PhraseKind.isCallable, items := src.assignedNames }

/-- The symbol is that of the phrase, or of the file: it has the same place, it declares the variables that are given
values there, and the functions in it are those of the phrase. -/
inductive Symbol.Hosts (src : Source) : Symbol → PhraseTree String → Prop
  | mk {s : Symbol} {τ : PhraseTree String} (location : s.location = src.locationOf τ.phrase)
    (paired : ∀ p ∈ τ.phrase, s.PairedAs p.kind.family?)
    (declares : ∀ name ∈ τ.held, name ≠ "$this" → s.declares name = true)
    (functions : List.Forall₂ (Symbol.Hosts src) s.functions τ.inner) : Symbol.Hosts src s τ

/-! ### Along the walk -/

/-- What the walk over some nodes does to the open symbols: the owner of variables declares the names, and the innermost
symbol gets the functions. -/
structure Gains (src : Source) (names : List String) (fs : List (PhraseTree String)) (o o' : List Symbol) : Prop where
  declares : ∀ name ∈ names, name ≠ "$this" → OwnerDeclares o' name
  functions : Gets Symbol.functions (Symbol.Hosts src) fs o o'

namespace Gains

variable {src : Source} {names names' : List String} {fs fs' : List (PhraseTree String)} {o o' o'' : List Symbol}

theorem of_settles (hd : ∀ name ∈ names, name ≠ "$this" → OwnerDeclares o' name)
    (h : List.Forall₂ Symbol.Settles o o') : Gains src names [] o o' :=
  ⟨hd, .of_settles Symbol.Settles.functions h⟩

theorem trans (h : Gains src names fs o o') (h' : Gains src names' fs' o' o'')
    (hg : List.Forall₂ Symbol.Grows o' o'') : Gains src (names ++ names') (fs ++ fs') o o'' := by
  refine ⟨fun name hname hthis => ?_, h.functions.trans h'.functions⟩
  rcases List.mem_append.1 hname with hname | hname
  · exact (h.declares name hname hthis).grows hg
  · exact h'.declares name hname hthis

end Gains

/-- A function that is opened has no functions in it yet. -/
private theorem Symbol.Opening.no_functions {src : Source} {p : Phrase} {s : Symbol} (h : s.Opening src p) :
    s.functions = [] := by
  unfold functions
  rw [← functionsOf_filter]
  exact congrArg functionsOf h.declared_eq_nil

/-- A phrase that is a function stands for a function or a method, any other declaration with a body for a class. -/
private theorem kind_of_paired {k : PhraseKind} {family : DeclarationFamily} {s : Symbol} (hf : k.family? = some family)
    (hp : s.PairedAs (some family)) : k.isCallable = true ∧ (s.kind = .function ∨ s.kind = .method) ∨
      k.isCallable = false ∧ s.kind.isClassLike = true := by
  have hi := (hp family).2 rfl
  cases k <;> cases hf <;> simp_all [DeclarationFamily.includes, PhraseKind.isCallable, SymbolKind.isClassLike]

/-- A declaration with a body gives no value to a variable itself. -/
private theorem assignedNames_of_family (src : Source) {p : Phrase} {family : DeclarationFamily}
    (h : p.kind.family? = some family) : src.assignedNames p = [] := by
  obtain ⟨kind, children⟩ := p
  cases kind <;> cases h <;> rfl

/-- The functions of a document and the names that they hold can be followed along the declaration walk. -/
private theorem assigned_followed (src : Source) : DeclarationState.Followed src
    (fun n => Gains src (src.assigned.held n) (src.assigned.trees n))
    (fun ns => Gains src (src.assigned.heldIn ns) (src.assigned.treesIn ns)) where
  token hs := .of_settles nofun hs
  refused hlook hs := by
    rw [Harvest.held_refused hlook, Harvest.trees_refused hlook]
    exact .of_settles nofun hs
  plain := by
    intro p o o₁ o₂ o₃ hlook hf ho hnames hc hg hs
    have hcall : p.kind.isCallable = false := by
      cases hk : p.kind <;> rw [hk] at hf <;> first | rfl | cases hf
    rw [Harvest.held_plain hlook hcall, Harvest.trees_plain hlook hcall]
    have h₁ : Gains src (src.assignedNames p) [] o o₁ := .of_settles hnames ho
    have h₃ : Gains src [] [] o₂ o₃ := .of_settles nofun hs
    have h := (h₁.trans hc hg).trans h₃ (hs.imp fun _ _ h => h.grows)
    rwa [List.append_nil, List.append_nil] at h
  declared := by
    intro p family o o₁ symbol built top below o₃ hlook hf hopen ho hc hg hp hs
    obtain ⟨hbuilt, hbelow⟩ := List.forall₂_cons.1 hg
    have hd : built.isDeclared = true := hbuilt.isDeclared.trans hopen.declared
    have hfunctions := hc.functions.top hopen.no_functions
    -- the functions that the symbol around the declaration gets
    have hgets : ∀ fs, List.Forall₂ (Symbol.Hosts src) (Symbol.functionsAt built) fs →
        Gets Symbol.functions (Symbol.Hosts src) fs o o₃ := fun fs hfs =>
      .of_addChild Symbol.Settles.functions ho (Symbol.functions_addChild top built) hfs hs
    rcases kind_of_paired hf hp with ⟨hcall, hk⟩ | ⟨hcall, hk⟩
    · rw [Harvest.held_chosen hlook hcall, Harvest.trees_chosen hlook hcall]
      refine ⟨nofun, hgets _ ?_⟩
      rw [Symbol.functionsAt_function hd (by rcases hk with hk | hk <;> rw [hk] <;> rfl)]
      refine .cons (.mk (hbuilt.location.trans hopen.location) ?_ ?_ hfunctions) .nil
      · rintro _ ⟨⟩
        rwa [hf]
      · intro name hname hthis
        obtain ⟨owner, howner, hdecl⟩ := hc.declares name hname hthis
        have howns : built.ownsVariables = true := by
          unfold Symbol.ownsVariables
          rcases hk with hk | hk <;> rw [hk] <;> rfl
        rw [List.find?_cons_of_pos howns] at howner
        rwa [Option.some.inj howner]
    · rw [Harvest.held_plain hlook hcall, Harvest.trees_plain hlook hcall]
      rw [show src.assigned.items p = [] from assignedNames_of_family src hf, List.nil_append]
      constructor
      · intro name hname hthis
        -- the class owns no variables, so the owner is among the symbols around it
        obtain ⟨owner, howner, hdecl⟩ := hc.declares name hname hthis
        have howns : ¬ built.ownsVariables = true := by
          unfold Symbol.ownsVariables
          cases hkind : built.kind <;> rw [hkind] at hk <;> first | decide | cases hk
        rw [List.find?_cons_of_neg howns] at howner
        have haround : OwnerDeclares (top.addChild built :: below) name :=
          OwnerDeclares.grows ⟨owner, howner, hdecl⟩
            (.cons (Symbol.Grows.addChild top built) (List.forall₂_same.2 fun a _ => Symbol.Grows.refl a))
        exact haround.grows (hs.imp fun _ _ h => h.grows)
      · refine hgets _ ?_
        rwa [Symbol.functionsAt_class hd hk]
  nil o := .of_settles nofun (List.forall₂_same.2 fun a _ => Symbol.Settles.refl a)
  cons hn hns hg := hn.trans hns hg

/-- In every document, a function, method or file declares each variable once, none of them the current object or a
parameter; a closure may also bind variables in its use clause.  And whatever is given a value inside a function,
method, closure or arrow function, outside of functions in it, is a parameter or a variable of its symbol; likewise for
the file. -/
theorem Document.variables_declared (d : Document) :
    (∀ s ∈ d.fileSymbol.descendants, s.collectsVariables = true → s.DeclaresOnce) ∧
      d.fileSymbol.Hosts (Source.ofDocument d) ((Source.ofDocument d).assigned.ofRoot d.tree) := by
  refine ⟨fun s hs hv => (d.wellFormed_fileSymbol s hs).once hv, ?_⟩
  obtain ⟨file, hfile, hgrows, hgains⟩ := (assigned_followed (Source.ofDocument d)).fileSymbol
  obtain ⟨rfl, -⟩ := List.cons.inj hfile
  refine .mk hgrows.location nofun (fun name hname hthis => ?_) (hgains.functions.top rfl)
  obtain ⟨owner, howner, hdecl⟩ := hgains.declares name hname hthis
  rw [List.find?_cons_of_pos (hgrows.ownsVariables.trans rfl)] at howner
  rwa [Option.some.inj howner]

end CodeAtlas
