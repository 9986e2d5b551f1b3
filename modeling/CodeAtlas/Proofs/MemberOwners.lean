import CodeAtlas.Proofs.StackBalance
import CodeAtlas.Proofs.SymbolShape

/-!
# Members and their classes

The scope of a member comes from the naming context, but the member becomes a child of the innermost open symbol.  Both
are the same class, because open phrases, open symbols and the classes of the naming context stand in line (`Stacked`):
an open class is innermost among the symbols only where it is innermost in the naming context.

So a child that is added always fits in the symbol that it is added to, and every named member in the symbols of a
document has the name of its class as its scope, and a visibility (`Document.members_belong`).
-/

namespace CodeAtlas

namespace Symbol

/-- The children of a class fit in it. -/
def OwnsChildren (s : Symbol) : Prop :=
  s.kind.isClassLike = true → ∀ c ∈ s.children, c.FitsIn s.name

/-- All classes at or below the symbol own their children. -/
def AllOwn (s : Symbol) : Prop :=
  ∀ x ∈ s.descendants, x.OwnsChildren

variable {s c : Symbol}

theorem allOwn_iff : s.AllOwn ↔ s.OwnsChildren ∧ ∀ c ∈ s.children, c.AllOwn :=
  forall_descendants_iff

theorem allOwn_of_children_eq_nil (h : s.children = []) : s.AllOwn := by
  refine allOwn_iff.2 ⟨fun _ => ?_, ?_⟩ <;>
  · rw [h]
    exact nofun

theorem AllOwn.addChild (hs : s.AllOwn) (hc : c.AllOwn) (hfit : s.kind.isClassLike = true → c.FitsIn s.name) :
    (s.addChild c).AllOwn := by
  obtain ⟨hown, hall⟩ := allOwn_iff.1 hs
  refine allOwn_iff.2 ⟨fun hk x hx => ?_, fun x hx => ?_⟩
  · rcases List.mem_append.1 hx with hx | hx
    · exact hown hk x hx
    · rw [List.mem_singleton.1 hx]
      exact hfit hk
  · rcases List.mem_append.1 hx with hx | hx
    · exact hall x hx
    · rw [List.mem_singleton.1 hx]
      exact hc

/-- What stands below an opened symbol has no members of its own. -/
theorem Opening.allOwn {src : Source} {p : Phrase} (h : s.Opening src p) (hown : s.OwnsChildren) : s.AllOwn := by
  refine allOwn_iff.2 ⟨hown, fun c hc => ?_⟩
  rcases h.children c hc with hc | hc | ⟨-, hc⟩
  · refine allOwn_iff.2 ⟨fun hk => ?_, fun x hx => allOwn_of_children_eq_nil (hc.children x hx).children⟩
    rcases hc.kind with hk' | hk' <;> rw [hk'] at hk <;> cases hk
  · exact allOwn_of_children_eq_nil hc.children
  · exact allOwn_of_children_eq_nil hc.children

end Symbol

/-- A class that is opened owns the members in its documentation. -/
theorem Source.withClassDoc_ownsChildren {s : Symbol} {r : Resolver} (hc : s.children = []) (hr : r.className = s.name)
    (doc : Option DocBlock) : (Source.withClassDoc r doc s).OwnsChildren := by
  intro _ c h
  cases doc with
  | none =>
    have h : c ∈ s.children := h
    rw [hc] at h
    cases h
  | some doc =>
    have h : c ∈ s.children ++ Source.taggedMembers r doc s.location := h
    rw [hc, List.nil_append] at h
    exact hr ▸ (Source.taggedMembers_members r h).fitsIn

/-! ### Stacks in line -/

/-- `b` is `a` with other children or links, and owns its children if `a` does. -/
structure Symbol.Keeps (a b : Symbol) : Prop where
  kind : b.kind = a.kind
  name : b.name = a.name
  modifiers : b.modifiers = a.modifiers
  scope : b.scope = a.scope
  own : a.AllOwn → b.AllOwn

namespace Symbol

variable {a b c : Symbol}

theorem Keeps.refl (a : Symbol) : a.Keeps a :=
  ⟨rfl, rfl, rfl, rfl, id⟩

/-- A child that is no member fits everywhere. -/
theorem Keeps.addChild (a : Symbol) (hc : c.AllOwn) (hk : c.kind.isMember = false) : a.Keeps (a.addChild c) :=
  ⟨rfl, rfl, rfl, rfl, fun ha => ha.addChild hc fun _ => fitsIn_of_kind hk _⟩

theorem Keeps.useTraits (a : Symbol) (links : List SymbolLink) :
    a.Keeps { a with associated := a.associated ++ links } :=
  ⟨rfl, rfl, rfl, rfl, fun ha => allOwn_iff.2 ⟨(allOwn_iff.1 ha).1, (allOwn_iff.1 ha).2⟩⟩

theorem FitsIn.congr {owner : String} (h : a.FitsIn owner) (hk : b.kind = a.kind) (hn : b.name = a.name)
    (hm : b.modifiers = a.modifiers) (hs : b.scope = a.scope) : b.FitsIn owner := by
  intro hmember hname
  obtain ⟨hscope, hvisible⟩ := h (hk ▸ hmember) (hn ▸ hname)
  exact ⟨hs.trans hscope, hm ▸ hvisible⟩

end Symbol

namespace DeclarationState

/-- The frames of the open phrases, the open symbols and the names of the open classes, all innermost first.  A symbol
that is no class fits in the class around it. -/
inductive Stacked : List DeclarationFrame → List Symbol → List String → Prop
  | file {s : Symbol} (hk : s.kind.isClassLike = false) (hs : s.AllOwn) : Stacked [] [s] []
  | plain {frames : List DeclarationFrame} {opened : List Symbol} {classes : List String}
    (h : Stacked frames opened classes) : Stacked (.plain :: frames) opened classes
  | bracedSpace {frames : List DeclarationFrame} {opened : List Symbol} {classes : List String}
    (h : Stacked frames opened classes) : Stacked (.bracedSpace :: frames) opened classes
  | symbol {frames : List DeclarationFrame} {opened : List Symbol} {classes : List String} {s : Symbol}
    (h : Stacked frames opened classes) (hk : s.kind.isClassLike = false) (hs : s.AllOwn)
    (hfit : s.FitsIn (classes.headD "")) : Stacked (.symbol :: frames) (s :: opened) classes
  | cls {frames : List DeclarationFrame} {opened : List Symbol} {classes : List String} {s : Symbol}
    (h : Stacked frames opened classes) (hk : s.kind.isClassLike = true) (hs : s.AllOwn) :
    Stacked (.cls :: frames) (s :: opened) (s.name :: classes)

namespace Stacked

variable {frames : List DeclarationFrame} {opened : List Symbol} {classes : List String} {c top : Symbol}

theorem congr (h : Stacked frames opened classes) {opened' : List Symbol}
    (hk : List.Forall₂ Symbol.Keeps opened opened') : Stacked frames opened' classes := by
  induction h generalizing opened' with
  | file hclass hs =>
    obtain ⟨b, _, hb, hnil, rfl⟩ := List.forall₂_cons_left_iff.1 hk
    cases hnil
    exact .file (hb.kind ▸ hclass) (hb.own hs)
  | plain _ ih => exact .plain (ih hk)
  | bracedSpace _ ih => exact .bracedSpace (ih hk)
  | symbol _ hclass hs hfit ih =>
    obtain ⟨b, _, hb, hrest, rfl⟩ := List.forall₂_cons_left_iff.1 hk
    exact .symbol (ih hrest) (hb.kind ▸ hclass) (hb.own hs) (hfit.congr hb.kind hb.name hb.modifiers hb.scope)
  | cls _ hclass hs ih =>
    obtain ⟨b, _, hb, hrest, rfl⟩ := List.forall₂_cons_left_iff.1 hk
    rw [← hb.name]
    exact .cls (ih hrest) (hb.kind ▸ hclass) (hb.own hs)

/-- What fits in the innermost class fits in the innermost symbol. -/
theorem addChild {rest : List Symbol} (h : Stacked frames (top :: rest) classes) (hc : c.AllOwn)
    (hfit : c.FitsIn (classes.headD "")) : Stacked frames (top.addChild c :: rest) classes := by
  generalize ho : top :: rest = opened at h
  induction h with
  | file hk hs =>
    obtain ⟨rfl, rfl⟩ := List.cons.inj ho
    exact .file hk (hs.addChild hc fun h => absurd (hk.symm.trans h) Bool.false_ne_true)
  | plain _ ih => exact .plain (ih hfit ho)
  | bracedSpace _ ih => exact .bracedSpace (ih hfit ho)
  | symbol h hk hs hfit' =>
    obtain ⟨rfl, rfl⟩ := List.cons.inj ho
    have hs' := hs.addChild hc fun h => absurd (hk.symm.trans h) Bool.false_ne_true
    exact .symbol h hk hs' (hfit'.congr rfl rfl rfl rfl)
  | cls h hk hs =>
    obtain ⟨rfl, rfl⟩ := List.cons.inj ho
    exact .cls (s := top.addChild c) h hk (hs.addChild hc fun _ => hfit)

theorem exists_cons (h : Stacked frames opened classes) : ∃ top rest, opened = top :: rest := by
  induction h with
  | plain _ ih => exact ih
  | bracedSpace _ ih => exact ih
  | _ => exact ⟨_, _, rfl⟩

/-- A symbol that is no class is closed. -/
theorem closeSymbol (h : Stacked (.symbol :: frames) opened classes) :
    ∃ top parent rest, opened = top :: parent :: rest ∧ Stacked frames (parent.addChild top :: rest) classes := by
  cases h with
  | symbol h hk hs hfit =>
    obtain ⟨parent, rest, rfl⟩ := h.exists_cons
    exact ⟨_, parent, rest, rfl, h.addChild hs hfit⟩

/-- A class is closed. -/
theorem closeClass (h : Stacked (.cls :: frames) opened classes) :
    ∃ top parent rest, opened = top :: parent :: rest ∧ Stacked frames (parent.addChild top :: rest) classes.tail := by
  cases h with
  | @cls _ _ _ s h hk hs =>
    obtain ⟨parent, rest, rfl⟩ := h.exists_cons
    have hmember : s.kind.isMember = false := by cases hkind : s.kind <;> rw [hkind] at hk <;> first | rfl | cases hk
    exact ⟨_, parent, rest, rfl, h.addChild hs (Symbol.fitsIn_of_kind hmember _)⟩

end Stacked

/-- The stacks of the state are in line. -/
def InLine (s : DeclarationState) : Prop :=
  Stacked s.frames s.opened (s.resolver.classes.map (·.name))

end DeclarationState

theorem Resolver.className_eq (r : Resolver) : r.className = (r.classes.map (·.name)).headD "" := by
  unfold className
  cases r.classes <;> rfl

namespace DeclarationState

namespace InLine

variable {src : Source} {s : DeclarationState} {p : Phrase} {c : Symbol}

/-! ### Entering -/

private theorem addChild (hs : s.InLine) (hc : c.AllOwn) (hfit : c.FitsIn s.resolver.className) :
    (s.addChild c).InLine := by
  unfold DeclarationState.addChild
  split
  · exact hs
  · rename_i top rest ho
    unfold InLine at hs ⊢
    rw [ho] at hs
    exact hs.addChild hc (s.resolver.className_eq ▸ hfit)

private theorem updateFirst (hs : s.InLine) (holds : Symbol → Bool) {f : Symbol → Symbol}
    (hf : ∀ x : Symbol, x.Keeps (f x)) : { s with opened := CodeAtlas.updateFirst holds f s.opened }.InLine :=
  hs.congr (forall₂_updateFirst Symbol.Keeps.refl hf holds s.opened)

private theorem declare (hs : s.InLine) (v : Source.Assigned) : (s.declare src v).InLine := by
  unfold DeclarationState.declare
  dsimp only
  split
  · exact hs
  · refine InLine.updateFirst hs _ fun holder => ?_
    split
    · exact Symbol.Keeps.refl holder
    · exact Symbol.Keeps.addChild holder (Symbol.allOwn_of_children_eq_nil rfl) rfl

private theorem change {s' : DeclarationState} (h : Change src p s s') (hs : s.InLine) : s'.InLine := by
  cases h with
  | doc => exact hs
  | imports => exact hs
  | space => exact hs
  | adds h hfit => exact hs.addChild (Symbol.allOwn_of_children_eq_nil h.children_eq_nil) hfit
  | declares => exact hs.declare _
  | usesTraits => exact hs.updateFirst _ fun c => Symbol.Keeps.useTraits c _

/-- A function or method is opened. -/
private theorem openSymbol (hs : s.InLine) (ho : src.Opens p c) (hk : c.kind.isClassLike = false)
    (hfit : c.FitsIn s.resolver.className) : (within .symbol (s.openSymbol c)).1.InLine := by
  have hown : c.AllOwn := ho.opening.allOwn fun h => absurd (hk.symm.trans h) Bool.false_ne_true
  exact Stacked.symbol hs hk hown (s.resolver.className_eq ▸ hfit)

private theorem openClassBody (hs : s.InLine) (ho : ∀ r doc, src.Opens p (Source.withClassDoc r doc c))
    (hk : c.kind.isClassLike = true) (hc : c.children = []) : (within .cls (s.openClassBody c)).1.InLine := by
  unfold DeclarationState.openClassBody
  extract_lets base resolver
  have hsame : (Source.withClassDoc resolver s.doc c).kind = c.kind ∧
      (Source.withClassDoc resolver s.doc c).name = c.name := by cases s.doc <;> exact ⟨rfl, rfl⟩
  have hown : (Source.withClassDoc resolver s.doc c).AllOwn :=
    (ho resolver s.doc).opening.allOwn (Source.withClassDoc_ownsChildren hc rfl s.doc)
  have hcls := Stacked.cls hs (hsame.1 ▸ hk) hown
  rw [hsame.2] at hcls
  exact hcls

theorem enter (hs : s.InLine) (src : Source) (p : Phrase) : (s.enter src p).1.InLine := by
  have hchanges : ∀ s', Relation.ReflTransGen (Change src p) s s' → s'.InLine := by
    intro s' h
    induction h with
    | refl => exact hs
    | tail _ h ih => exact change h ih
  have he := enter_entry src s p
  revert he
  generalize s.enter src p = result
  intro he
  cases he with
  | refused h => exact hchanges _ h
  | plain h => exact (hchanges _ h).plain
  | bracedSpace h => exact (hchanges _ h).bracedSpace
  | symbol h ho hk hfit => exact (hchanges _ h).openSymbol ho hk hfit
  | cls h ho hk hc => exact (hchanges _ h).openClassBody ho hk hc

/-! ### Leaving -/

theorem leave (hs : s.InLine) (p : Phrase) : (s.leave p).InLine := by
  cases hf : s.frames with
  | nil =>
    unfold DeclarationState.leave
    rw [hf]
    dsimp only
    split
    · exact hs
    · exact hs
  | cons frame rest =>
    have hstacked : Stacked (frame :: rest) s.opened (s.resolver.classes.map (·.name)) := hf ▸ hs
    have hunwind : ({ s with frames := rest }.unwind frame).InLine := by
      cases frame with
      | plain =>
        cases hstacked with
        | plain h => exact h
      | bracedSpace =>
        cases hstacked with
        | bracedSpace h => exact h
      | symbol =>
        obtain ⟨top, parent, below, ho, h⟩ := hstacked.closeSymbol
        unfold unwind closeTop
        dsimp only
        rw [ho]
        exact h
      | cls =>
        obtain ⟨top, parent, below, ho, h⟩ := hstacked.closeClass
        rw [← List.map_tail] at h
        unfold unwind closeTop
        dsimp only
        rw [ho]
        exact h
    rw [leave_eq_unwind hf]
    split
    · exact hunwind
    · exact hunwind

theorem token (hs : s.InLine) (src : Source) (t : Token) : (s.token src t).InLine := by
  unfold DeclarationState.token
  split
  · exact hs
  · exact hs

theorem initial (src : Source) : (DeclarationState.initial src).InLine :=
  .file rfl (Symbol.allOwn_of_children_eq_nil rfl)

end InLine

end DeclarationState

/-! ### Documents -/

/-- All classes of a document own their members. -/
theorem Document.allOwn_fileSymbol (d : Document) : d.fileSymbol.AllOwn := by
  have hs : (DeclarationState.ofDocument d).InLine := by
    refine Visitor.traverse_keeps DeclarationState.InLine ?_ ?_ ?_ d.tree (.initial (Source.ofDocument d))
    · exact fun s p _ hs => hs.enter _ p
    · exact fun s p _ hs => hs.leave p
    · exact fun s t _ hs => hs.token _ t
  obtain ⟨-, hframes⟩ := (DeclarationState.visitor_balanced (Source.ofDocument d)).traverse d.tree
    (DeclarationState.initial_level (Source.ofDocument d))
  have hframes : (DeclarationState.ofDocument d).frames = [] := List.length_eq_zero_iff.1 hframes
  unfold DeclarationState.InLine at hs
  rw [hframes] at hs
  show ((DeclarationState.ofDocument d).finish (Source.ofDocument d)).AllOwn
  unfold DeclarationState.finish
  generalize (DeclarationState.ofDocument d).opened = opened at hs
  generalize (DeclarationState.ofDocument d).resolver.classes.map (·.name) = classes at hs
  cases hs with
  | file _ hs => exact hs

/-- Members belong to their class: every named property, class constant or method among the children of a class,
interface or trait has its name as the scope and is public, protected or private. -/
theorem Document.members_belong (d : Document) {s c : Symbol} (hs : s ∈ d.fileSymbol.descendants)
    (hclass : s.kind.isClassLike = true) (hc : c ∈ s.children) (hmember : c.kind.isMember = true)
    (hname : c.name ≠ "") :
    c.scope = some s.name ∧ c.modifiers.meets Modifiers.visibility = true := by
  obtain ⟨hscope, hvisible⟩ := d.allOwn_fileSymbol s hs hclass c hc hmember hname
  exact ⟨hscope, hvisible⟩

/-- A class in a method of a class: `class A { private $p; function f() { return new class { const C = 1; }; } }`. -/
private def nestedClass : Document :=
  ⟨"file:///a.php",
    "<?php class A \x7b private $p; function f() \x7b return new class \x7b const C = 1; \x7d; \x7d \x7d",
    ⟨.statementList, [.phrase .classDeclaration [
      .phrase .classDeclarationHeader [.token ⟨.classKeyword, 6, 5⟩, .token ⟨.name, 12, 1⟩],
      .phrase .classDeclarationBody [
        .phrase .propertyDeclaration [
          .phrase .memberModifierList [.token ⟨.privateKeyword, 16, 7⟩],
          .phrase .propertyElement [.token ⟨.variableName, 24, 2⟩]],
        .phrase .methodDeclaration [
          .phrase .methodDeclarationHeader [.token ⟨.functionKeyword, 28, 8⟩, .token ⟨.name, 37, 1⟩],
          .phrase .methodDeclarationBody [.phrase .compoundStatement [.phrase .returnStatement [
            .phrase .objectCreationExpression [.phrase .anonymousClassDeclaration [
              .phrase .anonymousClassDeclarationHeader [.token ⟨.classKeyword, 54, 5⟩],
              .phrase .classDeclarationBody [.phrase .classConstDeclaration [
                .phrase .classConstElement [.token ⟨.name, 68, 1⟩]]]]]]]]]]]]⟩⟩

theorem Document.members_belong_nested : ∃ s ∈ nestedClass.fileSymbol.descendants, ∃ c ∈ s.children,
    s.kind.isClassLike = true ∧ c.kind.isMember = true ∧ c.name = "C" ∧ s.name = "#anon#file:///a.php#54" ∧
      c.scope = some s.name ∧ c.modifiers.meets Modifiers.visibility = true := by
  have hfound : (nestedClass.fileSymbol.descendants.any fun s =>
      s.kind.isClassLike && s.name == "#anon#file:///a.php#54" &&
        s.children.any fun c => c.kind.isMember && c.name == "C") = true := by
    rw [Document.fileSymbol_eq_walk]
    decide +kernel
  obtain ⟨s, hs, hs'⟩ := List.any_eq_true.1 hfound
  rw [Bool.and_eq_true, Bool.and_eq_true, beq_iff_eq] at hs'
  obtain ⟨⟨hclass, hsname⟩, hchild⟩ := hs'
  obtain ⟨c, hc, hc'⟩ := List.any_eq_true.1 hchild
  rw [Bool.and_eq_true, beq_iff_eq] at hc'
  obtain ⟨hmember, hcname⟩ := hc'
  obtain ⟨hscope, hvisible⟩ := nestedClass.members_belong hs hclass hc hmember (by rw [hcname]; decide)
  exact ⟨s, hs, c, hc, hclass, hmember, hcname, hsname, hscope, hvisible⟩

end CodeAtlas
