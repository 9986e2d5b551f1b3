import CodeAtlas.Pool.Basic

/-!
# Which symbols are listed

The symbols of a table that go into the catalog, told by where they stand: an occurrence is a symbol with the symbols
around it, and whether it can be indexed is a matter of itself, its parent and the classes around it
(`Occurrence.isIndexable`).  The listed symbols of a table are its indexable ones, in pre-order (`listed_symbols`).
-/

namespace CodeAtlas

/-- A symbol below the root of a table. -/
structure Occurrence where
  /-- The symbols around it, without the root, innermost first. -/
  above : List Symbol
  symbol : Symbol

/-- The kind of the innermost of the symbols around a place; the root counts as a file. -/
def parentKindOf : List Symbol → SymbolKind
  | [] => .file
  | parent :: _ => parent.kind

namespace Occurrence

def parentKind (o : Occurrence) : SymbolKind :=
  parentKindOf o.above

/-- Whether the symbol belongs into the catalog. -/
def isIndexable (members : Bool) (o : Occurrence) : Bool :=
  decide (o.symbol.name ≠ "" ∧ o.symbol.isImport = false ∧ o.symbol.isAnonymous = false ∧
    (∀ a ∈ o.above, ¬ (a.isAnonymous = true ∧ a.kind.isClassLike = true)) ∧
    o.symbol.kind ≠ .file ∧ o.symbol.kind ≠ .parameter ∧
    (o.symbol.kind = .var → o.parentKind = .file) ∧
    (o.symbol.kind ∈ [.method, .property, .classConstant] → members = true ∧ o.parentKind.isClassLike = true))

end Occurrence

mutual

/-- A symbol and everything below it, in pre-order. -/
def Symbol.occurrences (above : List Symbol) : Symbol → List Occurrence
  | .mk kind name location modifiers type doc associated children scope value =>
    let s := Symbol.mk kind name location modifiers type doc associated children scope value
    ⟨above, s⟩ :: Symbol.occurrencesOf (s :: above) children

def Symbol.occurrencesOf (above : List Symbol) : List Symbol → List Occurrence
  | [] => []
  | s :: rest => s.occurrences above ++ Symbol.occurrencesOf above rest

end

namespace SymbolTable

/-- All symbols of a table but its root, in pre-order. -/
def occurrences (t : SymbolTable) : List Occurrence :=
  Symbol.occurrencesOf [] t.root.children

/-- The symbols of a table that belong into the catalog, in pre-order. -/
def indexable (members : Bool) (t : SymbolTable) : List Symbol :=
  (t.occurrences.filter (·.isIndexable members)).map (·.symbol)

end SymbolTable

/-! ### Listed and indexable -/

namespace Symbol

mutual

/-- What is around a symbol is around everything below it. -/
private theorem above_of_occurrence {a : Symbol} : ∀ (s : Symbol) (above : List Symbol), a ∈ above →
    ∀ o ∈ s.occurrences above, a ∈ o.above
  | .mk kind name location modifiers type doc associated children scope value, above, ha => by
    intro o ho
    rw [occurrences] at ho
    rcases List.mem_cons.1 ho with rfl | ho
    · exact ha
    · exact above_of_occurrenceOf children _ (List.mem_cons_of_mem _ ha) o ho

private theorem above_of_occurrenceOf {a : Symbol} : ∀ (l : List Symbol) (above : List Symbol), a ∈ above →
    ∀ o ∈ occurrencesOf above l, a ∈ o.above
  | [], _, _ => nofun
  | s :: rest, above, ha => by
    intro o ho
    rw [occurrencesOf] at ho
    rcases List.mem_append.1 ho with ho | ho
    · exact above_of_occurrence s above ha o ho
    · exact above_of_occurrenceOf rest above ha o ho

end

private theorem isIndexable_eq_isListed (members : Bool) {above : List Symbol} {s : Symbol}
    (h : ∀ a ∈ above, ¬ (a.isAnonymous = true ∧ a.kind.isClassLike = true)) :
    (Occurrence.mk above s).isIndexable members = s.isListed members (Occurrence.mk above s).parentKind := by
  unfold Occurrence.isIndexable isListed
  generalize (Occurrence.mk above s).parentKind = parent
  have hname : s.name.isEmpty = false ↔ s.name ≠ "" := by simp
  rw [Bool.eq_iff_iff, decide_eq_true_eq, iff_true_intro h, true_and]
  simp only [Bool.and_eq_true, Bool.not_eq_true', and_assoc, hname]
  cases s.kind <;> simp

mutual

private theorem listedIn_eq (members : Bool) : ∀ (s : Symbol) (above : List Symbol),
    (∀ a ∈ above, ¬ (a.isAnonymous = true ∧ a.kind.isClassLike = true)) →
    listedIn members (Occurrence.mk above s).parentKind s =
      ((s.occurrences above).filter (·.isIndexable members)).map (·.symbol)
  | .mk kind name location modifiers type doc associated children scope value, above, h => by
    rw [listedIn, occurrences]
    generalize hs : Symbol.mk kind name location modifiers type doc associated children scope value = s
    have hkind : kind = s.kind := by rw [← hs]
    split
    · -- neither the anonymous class nor anything below it is indexable
      rename_i hanon
      rw [hkind, Bool.and_eq_true] at hanon
      have hnil : (Occurrence.mk above s :: occurrencesOf (s :: above) children).filter (·.isIndexable members) =
          [] := by
        rw [List.filter_eq_nil_iff]
        intro o ho hi
        have hi := of_decide_eq_true hi
        rcases List.mem_cons.1 ho with rfl | ho
        · rw [hi.2.2.1] at hanon
          exact Bool.false_ne_true hanon.1
        · exact hi.2.2.2.1 s (above_of_occurrenceOf children _ List.mem_cons_self o ho) hanon
      rw [hnil]
      rfl
    · rename_i hanon
      rw [hkind, Bool.and_eq_true] at hanon
      have habove : ∀ a ∈ s :: above, ¬ (a.isAnonymous = true ∧ a.kind.isClassLike = true) := by
        intro a ha
        rcases List.mem_cons.1 ha with rfl | ha
        · exact hanon
        · exact h a ha
      have hrest := listedInAll_eq members children (s :: above) habove
      rw [hkind, List.filter_cons, isIndexable_eq_isListed members h]
      split
      · rw [List.map_cons, ← hrest]
        rfl
      · rw [← hrest]
        rfl

private theorem listedInAll_eq (members : Bool) : ∀ (l : List Symbol) (above : List Symbol),
    (∀ a ∈ above, ¬ (a.isAnonymous = true ∧ a.kind.isClassLike = true)) →
    listedInAll members (parentKindOf above) l =
      ((occurrencesOf above l).filter (·.isIndexable members)).map (·.symbol)
  | [], _, _ => rfl
  | s :: rest, above, h => by
    rw [listedInAll, occurrencesOf, List.filter_append, List.map_append, ← listedInAll_eq members rest above h,
      ← listedIn_eq members s above h]
    rfl

end

end Symbol

/-- The listed symbols of a table are the indexable ones. -/
theorem SymbolTable.listed_symbols (members : Bool) (t : SymbolTable) :
    (t.listed members).map (·.2) = t.indexable members := by
  have h := Symbol.listedInAll_eq members t.root.children [] nofun
  unfold listed indexable occurrences
  rw [← h, List.map_map]
  exact List.zipIdx_map_fst 0 _

end CodeAtlas
