import CodeAtlas.Proofs.ReferenceSteps
import Mathlib.Data.List.Forall2

/-!
# Families of symbols

The pairing of declarations goes by families, and a symbol is in at most one (`Symbol.PairedAs`).  An open symbol only
grows: it gets more children at the end, and links to the traits that it uses (`Symbol.Grows`).  Growth is quiet when
the new children belong to no family, so that no later pairing sees them (`Symbol.GrowsQuietly`).
-/

namespace CodeAtlas

/-! ### Modifiers bit by bit -/

namespace Modifiers

/-- A set of one modifier. -/
private def single (i : Nat) : Modifiers :=
  BitVec.twoPow 13 i

private theorem has_single (m : Modifiers) {i : Nat} (hi : i < 13) : m.has (single i) = m.getLsbD i := by
  unfold has single
  rw [BitVec.and_twoPow]
  cases h : m.getLsbD i with
  | true => simp
  | false =>
    have : BitVec.twoPow 13 i ≠ 0#13 := by
      intro h0
      have := congrArg (·.getLsbD i) h0
      simp [hi] at this
    simp [Ne.symm this]

private theorem magicBit_eq : magicBit = single 8 := by decide

private theorem anonymousBit_eq : anonymousBit = single 9 := by decide

private theorem importBit_eq : importBit = single 12 := by decide

private theorem has_or_single (a b : Modifiers) {i : Nat} (hi : i < 13) :
    (a ||| b).has (single i) = (a.has (single i) || b.has (single i)) := by
  rw [has_single _ hi, has_single _ hi, has_single _ hi, BitVec.getLsbD_or]

theorem has_or_magic (a b : Modifiers) : (a ||| b).has magicBit = (a.has magicBit || b.has magicBit) := by
  rw [magicBit_eq, has_or_single _ _ (by omega)]

theorem has_or_anonymous (a b : Modifiers) :
    (a ||| b).has anonymousBit = (a.has anonymousBit || b.has anonymousBit) := by
  rw [anonymousBit_eq, has_or_single _ _ (by omega)]

theorem has_or_import (a b : Modifiers) : (a ||| b).has importBit = (a.has importBit || b.has importBit) := by
  rw [importBit_eq, has_or_single _ _ (by omega)]

/-- None of the modifiers that tell how a symbol came about. -/
def Ordinary (m : Modifiers) : Prop :=
  m.has magicBit = false ∧ m.has anonymousBit = false ∧ m.has importBit = false

theorem Ordinary.or {a b : Modifiers} (ha : a.Ordinary) (hb : b.Ordinary) : (a ||| b).Ordinary := by
  obtain ⟨h1, h2, h3⟩ := ha
  obtain ⟨k1, k2, k3⟩ := hb
  unfold Ordinary
  rw [has_or_magic, has_or_anonymous, has_or_import, h1, h2, h3, k1, k2, k3]
  exact ⟨rfl, rfl, rfl⟩

theorem Ordinary.and {a : Modifiers} (ha : a.Ordinary) (b : Modifiers) : (a &&& b).Ordinary := by
  unfold Ordinary at ha ⊢
  rw [magicBit_eq, anonymousBit_eq, importBit_eq, has_single _ (by omega), has_single _ (by omega),
    has_single _ (by omega)] at ha ⊢
  simp only [BitVec.getLsbD_and, ha.1, ha.2.1, ha.2.2, Bool.false_and, and_self]

end Modifiers

theorem Source.modifierOf_ordinary (k : TokenKind) : (modifierOf k).Ordinary := by
  unfold Modifiers.Ordinary
  cases k <;> decide

/-- What is written in front of a member is ordinary. -/
theorem Source.allModifiers_ordinary (owner : Phrase) : (allModifiers owner).Ordinary := by
  have hfold : ∀ (ts : List Token) (m : Modifiers), m.Ordinary →
      (ts.foldl (fun m t => m ||| modifierOf t.kind) m).Ordinary := by
    intro ts
    induction ts with
    | nil => exact fun m hm => hm
    | cons t ts ih => exact fun m hm => ih _ (hm.or (modifierOf_ordinary t.kind))
  unfold allModifiers
  extract_lets listed modifiers
  have hm : modifiers.Ordinary := hfold _ _ ⟨rfl, rfl, rfl⟩
  split
  · exact hm
  · exact hm.or ⟨rfl, rfl, rfl⟩

/-! ### The family of a symbol -/

/-- Kinds of symbols that are never paired with a phrase. -/
def SymbolKind.isUnpaired : SymbolKind → Bool
  | .cls | .interface | .trait | .function | .method => false
  | _ => true

namespace Symbol

/-- The symbol belongs to the given family and to no other. -/
def PairedAs (family : Option DeclarationFamily) (s : Symbol) : Prop :=
  ∀ f : DeclarationFamily, f.includes s = true ↔ family = some f

theorem PairedAs.isClassLike {family : DeclarationFamily} {s : Symbol} (h : s.PairedAs (some family))
    (hf : family.isClass = true) : s.kind.isClassLike = true := by
  have hi := (h family).2 rfl
  cases family <;> simp_all [DeclarationFamily.includes, DeclarationFamily.isClass, SymbolKind.isClassLike]

theorem PairedAs.kind_eq_method {s : Symbol} (h : s.PairedAs (some .method)) : s.kind = .method := by
  have hi := (h .method).2 rfl
  simp_all [DeclarationFamily.includes]

theorem PairedAs.kind_eq_function {family : DeclarationFamily} {s : Symbol} (h : s.PairedAs (some family))
    (hf : family = .function ∨ family = .closure) : s.kind = .function := by
  have hi := (h family).2 rfl
  rcases hf with rfl | rfl <;> simp_all [DeclarationFamily.includes]

/-- The family of a symbol is a matter of its kind and its modifiers. -/
theorem PairedAs.congr {family : Option DeclarationFamily} {s s' : Symbol} (h : s.PairedAs family)
    (hk : s'.kind = s.kind) (hm : s'.modifiers = s.modifiers) : s'.PairedAs family := by
  intro f
  rw [← h f]
  have : f.includes s' = f.includes s := by
    unfold DeclarationFamily.includes
    simp only [isImport, isAnonymous, isMagic, has, hk, hm]
  rw [this]

theorem pairedAs_none {s : Symbol} (hk : s.kind.isUnpaired = true) (hi : s.isImport = false) :
    s.PairedAs none := by
  intro f
  cases hs : s.kind <;> rw [hs] at hk <;>
    first
    | exact absurd hk (by decide)
    | cases f <;> simp [DeclarationFamily.includes, hi, hs, SymbolKind.isClassLike]

theorem pairedAs_classLike {s : Symbol} (hk : s.kind.isClassLike = true) (ha : s.isAnonymous = false)
    (hi : s.isImport = false) : s.PairedAs (some .classLike) := by
  intro f
  cases hs : s.kind <;> rw [hs] at hk <;>
    first
    | exact absurd hk (by decide)
    | cases f <;> simp [DeclarationFamily.includes, ha, hi, hs, SymbolKind.isClassLike]

theorem pairedAs_anonymousClass {s : Symbol} (hk : s.kind = .cls) (ha : s.isAnonymous = true)
    (hi : s.isImport = false) : s.PairedAs (some .anonymousClass) := by
  intro f
  cases f <;> simp [DeclarationFamily.includes, ha, hi, hk, SymbolKind.isClassLike]

theorem pairedAs_function {s : Symbol} (hk : s.kind = .function) (ha : s.isAnonymous = false)
    (hi : s.isImport = false) : s.PairedAs (some .function) := by
  intro f
  cases f <;> simp [DeclarationFamily.includes, ha, hi, hk, SymbolKind.isClassLike]

theorem pairedAs_closure {s : Symbol} (hk : s.kind = .function) (ha : s.isAnonymous = true)
    (hi : s.isImport = false) : s.PairedAs (some .closure) := by
  intro f
  cases f <;> simp [DeclarationFamily.includes, ha, hi, hk, SymbolKind.isClassLike]

theorem pairedAs_method {s : Symbol} (hk : s.kind = .method) (hm : s.isMagic = false)
    (hi : s.isImport = false) : s.PairedAs (some .method) := by
  intro f
  cases f <;> simp [DeclarationFamily.includes, hm, hi, hk, SymbolKind.isClassLike]

theorem pairedAs_imported {s : Symbol} (hk : s.kind ≠ .method) (ha : s.isAnonymous = false)
    (hi : s.isImport = true) : s.PairedAs (some .imported) := by
  intro f
  cases f <;> simp [DeclarationFamily.includes, ha, hi, hk]

/-! ### Descendants -/

/-- What holds of a symbol whenever it holds of its children holds of every symbol. -/
@[elab_as_elim] theorem childInduction {P : Symbol → Prop} (step : ∀ s, (∀ c ∈ s.children, P c) → P s)
    (s : Symbol) : P s := by
  refine step s fun c hc => ?_
  have hlt : sizeOf c < sizeOf s := by
    have := List.sizeOf_lt_of_mem hc
    cases s
    simp only [mk.sizeOf_spec] at this ⊢
    omega
  exact childInduction step c
termination_by s

theorem mem_descendantsOf {s : Symbol} {cs : List Symbol} : s ∈ descendantsOf cs ↔ ∃ c ∈ cs, s ∈ c.descendants := by
  induction cs with
  | nil => simp [descendantsOf]
  | cons c cs ih => simp [descendantsOf, ih]

theorem descendants_eq (s : Symbol) : s.descendants = s :: descendantsOf s.children := by
  cases s
  rw [descendants]

/-- What holds at and below a symbol holds of it, and at and below its children. -/
theorem forall_descendants_iff {P : Symbol → Prop} {s : Symbol} :
    (∀ x ∈ s.descendants, P x) ↔ P s ∧ ∀ c ∈ s.children, ∀ x ∈ c.descendants, P x := by
  rw [descendants_eq, List.forall_mem_cons]
  refine and_congr_right fun _ => ⟨fun h c hc x hx => h x (mem_descendantsOf.2 ⟨c, hc, hx⟩), fun h x hx => ?_⟩
  obtain ⟨c, hc, hx⟩ := mem_descendantsOf.1 hx
  exact h c hc x hx

theorem self_mem_descendants (s : Symbol) : s ∈ s.descendants := by
  rw [descendants_eq]
  exact List.mem_cons_self

theorem mem_descendants_of_child {s c x : Symbol} (hc : c ∈ s.children) (hx : x ∈ c.descendants) :
    x ∈ s.descendants := by
  rw [descendants_eq]
  exact List.mem_cons_of_mem _ (mem_descendantsOf.2 ⟨c, hc, hx⟩)

theorem mem_descendants_of_below {s x : Symbol} (hx : x ∈ descendantsOf s.children) : x ∈ s.descendants := by
  rw [descendants_eq]
  exact List.mem_cons_of_mem s hx

theorem mem_descendants_trans {s y x : Symbol} (hy : y ∈ s.descendants) (hx : x ∈ y.descendants) :
    x ∈ s.descendants := by
  induction s using childInduction with
  | step s ih =>
    rw [descendants_eq] at hy
    rcases List.mem_cons.1 hy with rfl | hy
    · exact hx
    · obtain ⟨c, hc, hy⟩ := mem_descendantsOf.1 hy
      exact mem_descendants_of_child hc (ih c hc hy)

/-! ### Growth -/

/-- `b` is `a` with more children, and with more traits used. -/
structure Grows (a b : Symbol) : Prop where
  kind : b.kind = a.kind
  name : b.name = a.name
  modifiers : b.modifiers = a.modifiers
  location : b.location = a.location
  children : a.children <+: b.children
  associated : ∃ links : List SymbolLink, b.associated = a.associated ++ links ∧ ∀ l ∈ links, l.kind = .trait

theorem Grows.refl (a : Symbol) : a.Grows a :=
  ⟨rfl, rfl, rfl, rfl, List.prefix_refl _, [], (List.append_nil _).symm, nofun⟩

theorem Grows.trans {a b c : Symbol} (h : a.Grows b) (h' : b.Grows c) : a.Grows c := by
  obtain ⟨l, hl, ht⟩ := h.associated
  obtain ⟨l', hl', ht'⟩ := h'.associated
  refine ⟨h'.kind.trans h.kind, h'.name.trans h.name, h'.modifiers.trans h.modifiers, h'.location.trans h.location,
    h.children.trans h'.children, l ++ l', by rw [hl', hl, List.append_assoc], ?_⟩
  intro link hlink
  rcases List.mem_append.1 hlink with h | h
  · exact ht link h
  · exact ht' link h

theorem Grows.addChild (a child : Symbol) : a.Grows (a.addChild child) :=
  ⟨rfl, rfl, rfl, rfl, List.prefix_append _ _, [], (List.append_nil _).symm, nofun⟩

/-- Using more traits does not change the base class. -/
theorem Grows.baseName {a b : Symbol} (h : a.Grows b) : b.baseName = a.baseName := by
  obtain ⟨links, hl, ht⟩ := h.associated
  have hnone : links.find? (·.kind == .cls) = none := by
    rw [List.find?_eq_none]
    intro l hmem
    simp [ht l hmem]
  unfold Symbol.baseName Symbol.baseClass?
  rw [h.kind, hl, List.find?_append, hnone, Option.or_none]

/-- The children of a symbol in a family. -/
def inFamily (s : Symbol) (f : DeclarationFamily) : List Symbol :=
  s.children.filter f.includes

/-- `b` grows from `a` without new children in any family. -/
structure GrowsQuietly (a b : Symbol) : Prop where
  grows : a.Grows b
  families : ∀ f, b.inFamily f = a.inFamily f

theorem GrowsQuietly.refl (a : Symbol) : a.GrowsQuietly a :=
  ⟨Grows.refl a, fun _ => rfl⟩

theorem GrowsQuietly.trans {a b c : Symbol} (h : a.GrowsQuietly b) (h' : b.GrowsQuietly c) : a.GrowsQuietly c :=
  ⟨h.grows.trans h'.grows, fun f => (h'.families f).trans (h.families f)⟩

theorem allGrowQuietly_trans {a b c : List Symbol} (h : List.Forall₂ GrowsQuietly a b)
    (h' : List.Forall₂ GrowsQuietly b c) : List.Forall₂ GrowsQuietly a c := by
  induction h generalizing c with
  | nil => exact h'
  | cons h _ ih =>
    cases h' with
    | cons h' hbc => exact .cons (h.trans h') (ih hbc)

theorem inFamily_addChild (s child : Symbol) (f : DeclarationFamily) :
    (s.addChild child).inFamily f = s.inFamily f ++ if f.includes child then [child] else [] := by
  unfold inFamily addChild
  rw [List.filter_append]
  cases h : f.includes child <;> simp [h]

/-- A child in one family makes that family longer by itself and leaves the others. -/
theorem inFamily_addChild_of_paired {family : DeclarationFamily} {child : Symbol} (h : child.PairedAs (some family))
    (s : Symbol) (f : DeclarationFamily) :
    (s.addChild child).inFamily f = s.inFamily f ++ if f = family then [child] else [] := by
  rw [inFamily_addChild]
  by_cases hf : f = family
  · rw [if_pos ((h f).2 (by rw [hf])), if_pos hf]
  · rw [if_neg (fun hi => hf (Option.some.inj ((h f).1 hi)).symm), if_neg hf]

theorem GrowsQuietly.addChild (a : Symbol) {child : Symbol} (h : child.PairedAs none) :
    a.GrowsQuietly (a.addChild child) := by
  refine ⟨Grows.addChild a child, fun f => ?_⟩
  have : ¬ f.includes child = true := fun hi => nomatch (h f).1 hi
  rw [inFamily_addChild, if_neg this, List.append_nil]

/-- No child of the symbol is in any family. -/
def Fresh (s : Symbol) : Prop :=
  ∀ c ∈ s.children, c.PairedAs none

theorem Fresh.inFamily {s : Symbol} (h : s.Fresh) (f : DeclarationFamily) : s.inFamily f = [] := by
  unfold Symbol.inFamily
  rw [List.filter_eq_nil_iff]
  exact fun c hc hi => nomatch (h c hc f).1 hi

theorem fresh_of_nil {s : Symbol} (h : s.children = []) : s.Fresh := by
  unfold Fresh
  rw [h]
  exact nofun

theorem GrowsQuietly.useTraits (a : Symbol) {links : List SymbolLink} (h : ∀ l ∈ links, l.kind = .trait) :
    a.GrowsQuietly { a with associated := a.associated ++ links } :=
  ⟨⟨rfl, rfl, rfl, rfl, List.prefix_refl _, links, rfl, h⟩, fun _ => rfl⟩

end Symbol

end CodeAtlas
