import CodeAtlas.Proofs.PoolAnswers
import CodeAtlas.Proofs.WorkspaceHistory

/-!
# The order of a batch

A batch of documents can be analysed in any order (`analyzeAll_perm`).  The order shows in the tables, in the numbers of
catalog entries and in the order of entries under a key.  But a question about the name of a class, a function or a
constant is answered by one table at most, if documents do not compete for names (`SymbolTable.Apart`); then pools with
the same tables agree (`agrees_of_perm`), and so all documents are read alike.
-/

namespace CodeAtlas

/-! ### Pools with the same tables -/

/-- No class of one table has the name of a class of the other, and so for functions and constants; only symbols that
belong into the catalog count. -/
def SymbolTable.Apart (members : Bool) (t u : SymbolTable) : Prop :=
  ∀ x ∈ t.indexable members, ∀ y ∈ u.indexable members,
    (x.kind.isClassLike = true → y.kind.isClassLike = true → Text.sameFolded x.name y.name = false) ∧
    (x.kind = .function → y.kind = .function → Text.sameFolded x.name y.name = false) ∧
    (x.kind = .constant → y.kind = .constant → x.name ≠ y.name)

instance (members : Bool) (t u : SymbolTable) : Decidable (t.Apart members u) :=
  inferInstanceAs (Decidable (∀ x ∈ t.indexable members, ∀ y ∈ u.indexable members, _))

theorem Text.sameFolded_of_both {a b c : String} (ha : sameFolded a c = true) (hb : sameFolded b c = true) :
    sameFolded a b = true := by
  unfold sameFolded at ha hb ⊢
  rw [beq_iff_eq] at ha hb ⊢
  exact ha.trans hb.symm

theorem SymbolKind.sameNames_of_folding {kind : SymbolKind} (h : kind.respectsCase = false) (a b : String) :
    kind.sameNames a b = Text.sameFolded a b := by
  unfold sameNames
  simp [h]

/-- Of two symbols with different names, at most one has the name that is asked for. -/
private theorem not_sameNames {x y : Symbol} {name : String} (hx : x.kind.respectsCase = false)
    (hy : y.kind.respectsCase = false) (hno : Text.sameFolded x.name y.name = false)
    (hname : x.kind.sameNames x.name name = true) : y.kind.sameNames y.name name = false := by
  rw [SymbolKind.sameNames_of_folding hx] at hname
  rw [SymbolKind.sameNames_of_folding hy, Bool.eq_false_iff]
  intro hname'
  rw [Text.sameFolded_of_both hname hname'] at hno
  cases hno

namespace SymbolPool

variable {s s' : SymbolPool}

/-- A question about a name that at most one table answers. -/
theorem findAll_perm (h : s.Consistent) (h' : s'.Consistent) (hm : s'.listMembers = s.listMembers)
    (hp : s.tables.Perm s'.tables) {name : String} {p : Symbol → Bool}
    (hone : s.tables.Pairwise fun t u => ∀ x ∈ t.indexable s.listMembers, ∀ y ∈ u.indexable s.listMembers,
      p x = true → p y = true → x.kind.sameNames x.name name = true → y.kind.sameNames y.name name = false) :
    s'.findAll name p = s.findAll name p := by
  rw [h.findAll_eq_flatMap, h'.findAll_eq_flatMap, hm]
  refine (Keyed.flatMap_perm hp (hone.imp fun {t u} htu => ?_)).symm
  -- two tables that both have something to say would both have a symbol of that name
  by_contra hboth
  rw [not_or] at hboth
  obtain ⟨x, hx⟩ := List.exists_mem_of_ne_nil _ hboth.1
  obtain ⟨y, hy⟩ := List.exists_mem_of_ne_nil _ hboth.2
  rw [List.mem_filter, Bool.and_eq_true] at hx hy
  have hno := htu x hx.1 y hy.1 hx.2.2 hy.2.2 hx.2.1
  rw [hy.2.1] at hno
  cases hno

/-- The bound on searches in hierarchies counts all links under all keys, in whatever order. -/
theorem linkTotal_perm (h : s.Consistent) (h' : s'.Consistent) (hm : s'.listMembers = s.listMembers)
    (hp : s.tables.Perm s'.tables) : Hierarchy.linkTotal s' = Hierarchy.linkTotal s := by
  obtain ⟨entries, hl, he⟩ := h.symbols
  obtain ⟨entries', hl', he'⟩ := h'.symbols
  have hsymbols : (entries.map (·.symbol)).Perm (entries'.map (·.symbol)) := by
    rw [he, he', hm]
    exact hp.flatMap_right _
  have hitems : ∀ k, ((NameMap.itemsAt k s.catalog.names.nodes).map (·.symbol)).Perm
      ((NameMap.itemsAt k s'.catalog.names.nodes).map (·.symbol)) := by
    intro k
    have hfilter := hsymbols.filter fun x => decide (k ∈ x.keys)
    rw [List.filter_map, List.filter_map] at hfilter
    rw [hl.itemsAt_eq_filter, hl'.itemsAt_eq_filter]
    exact hfilter
  have hall := (NameMap.items_perm _ hl.wellFormed hl'.wellFormed hitems).flatMap_right (·.associated)
  have hlength := hall.length_eq
  unfold Hierarchy.linkTotal
  simp only [List.flatMap_map, List.flatMap_assoc] at hlength
  exact hlength.symm

/-- Pools with the same tables agree, if these do not compete for names. -/
theorem agrees_of_perm (h : s.Consistent) (h' : s'.Consistent) (hm : s'.listMembers = s.listMembers)
    (hp : s.tables.Perm s'.tables) (hapart : s.tables.Pairwise fun t u => t.Apart s.listMembers u) : s.Agrees s' := by
  constructor
  case classes =>
    intro name
    refine findAll_perm h h' hm hp (hapart.imp fun {t u} htu x hx y hy px py hname => ?_)
    have hfold : ∀ {kind : SymbolKind}, kind.isClassLike = true → kind.respectsCase = false := by
      intro kind
      cases kind <;> decide
    exact not_sameNames (hfold px) (hfold py) ((htu x hx y hy).1 px py) hname
  case functions =>
    intro name
    refine findAll_perm h h' hm hp (hapart.imp fun {t u} htu x hx y hy px py hname => ?_)
    rw [beq_iff_eq] at px py
    exact not_sameNames (by rw [px]; rfl) (by rw [py]; rfl) ((htu x hx y hy).2.1 px py) hname
  case constants =>
    intro name
    refine findAll_perm h h' hm hp (hapart.imp fun {t u} htu x hx y hy px py hname => ?_)
    rw [beq_iff_eq] at px py
    have hne := (htu x hx y hy).2.2 px py
    rw [px] at hname
    rw [py]
    have hx : x.name = name := by simpa [SymbolKind.sameNames, SymbolKind.respectsCase] using hname
    simp [SymbolKind.sameNames, SymbolKind.respectsCase, ← hx, Ne.symm hne]
  case links => exact linkTotal_perm h h' hm hp

end SymbolPool

/-! ### Batches -/

/-- The document known under a uri after all of some documents have been analysed. -/
theorem Document.foldl_knownAfter {ds : List Document} (hn : (ds.map (·.uri)).Nodup) (uri : String)
    (known : Option Document) : ds.foldl (knownAfter uri) known = (ds.find? (·.uri == uri)).or known := by
  induction ds generalizing known with
  | nil => rfl
  | cons d ds ih =>
    rw [List.map_cons, List.nodup_cons] at hn
    rw [List.foldl_cons, ih hn.2, List.find?_cons]
    unfold knownAfter
    by_cases hd : d.uri = uri
    · have hnone : ds.find? (·.uri == uri) = none := by
        rw [Keyed.find?_eq_none]
        intro d' hd' he
        exact hn.1 (List.mem_map.2 ⟨d', hd', he.trans hd.symm⟩)
      simp [hd, hnone]
    · have hb : (d.uri == uri) = false := beq_eq_false_iff_ne.2 hd
      simp [hd, hb]

namespace Workspace

theorem listMembers_declare {w w' : Workspace} {d : Document} {table : SymbolTable}
    (h : w.declare d table = .ok w') : w'.symbols.listMembers = w.symbols.listMembers := by
  have hremove : (w.symbols.remove d.uri).listMembers = w.symbols.listMembers := by
    unfold SymbolPool.remove
    split <;> rfl
  unfold declare SymbolPool.add at h
  cases hadd : (w.symbols.remove d.uri).add? table with
  | none =>
    rw [hadd] at h
    cases h
  | some symbols =>
    rw [hadd] at h
    cases h
    rw [(SymbolPool.add_eq_some hadd).2, ← hremove]

theorem listMembers_declareAll {w w' : Workspace} {l : List (Document × SymbolTable)} (h : w.declareAll l = .ok w') :
    w'.symbols.listMembers = w.symbols.listMembers := by
  induction l generalizing w with
  | nil =>
    cases h
    rfl
  | cons x l ih =>
    obtain ⟨d, table⟩ := x
    rw [declareAll] at h
    cases hd : w.declare d table with
    | error e =>
      rw [hd] at h
      cases h
    | ok w₁ =>
      rw [hd] at h
      exact (ih h).trans (listMembers_declare hd)

/-- Reading documents one after the other: each has the references that the symbols give it. -/
theorem get?_addAllReferences {w : Workspace} (ds : List Document) {uri : String} (known : Option Document)
    (h : w.references.get? uri = known.map fun d => Occurrences.ofDocument d (SymbolTable.ofDocument d) w.symbols) :
    (ds.foldl (fun w d => w.addReferences d (SymbolTable.ofDocument d)) w).references.get? uri =
      (ds.foldl (Document.knownAfter uri) known).map fun d =>
        Occurrences.ofDocument d (SymbolTable.ofDocument d) w.symbols := by
  induction ds generalizing w known with
  | nil => exact h
  | cons d ds ih =>
    refine ih (w := w.addReferences d (SymbolTable.ofDocument d)) (d.knownAfter uri known) ?_
    refine (w.references.get?_add _ uri).trans ?_
    unfold Document.knownAfter
    by_cases hd : d.uri = uri
    · rw [if_pos hd]
      exact if_pos hd
    · rw [if_neg hd]
      exact (if_neg hd).trans h

/-- What a batch gives in an empty workspace. -/
theorem analyzeAll_empty (settings : Settings) (ds : List Document) :
    ∃ w, (empty settings).analyzeAll ds = .ok w ∧
      w.Holds (fun u => ds.foldl (Document.knownAfter u) none) ds.length ∧
      w.symbols.listMembers = settings.listMembers ∧
      ∀ uri, w.references.get? uri = (ds.foldl (Document.knownAfter uri) none).map fun d =>
        Occurrences.ofDocument d (SymbolTable.ofDocument d) w.symbols := by
  have hempty : (empty settings).Holds (fun _ => none) 0 :=
    ⟨⟨SymbolPool.empty_consistent settings, fun _ => rfl⟩, ⟨ReferencePool.empty_indexed, fun _ => rfl, nofun⟩, rfl⟩
  obtain ⟨symbols, hdeclare, -⟩ := declareAll_holds hempty.symbols ds
  obtain ⟨references, hread, -⟩ := addAllReferences_holds (w := { empty settings with symbols := symbols })
    hempty.references ds
  have hget : ∀ uri, references.get? uri = (ds.foldl (Document.knownAfter uri) none).map fun d =>
      Occurrences.ofDocument d (SymbolTable.ofDocument d) symbols := by
    intro uri
    have hnone : (empty settings).references.get? uri = none := rfl
    have := get?_addAllReferences (w := { empty settings with symbols := symbols }) ds none hnone
    rwa [hread] at this
  have hrun := analyzeAll_of_declareAll hdeclare
  rw [hread] at hrun
  obtain ⟨w, hw, h⟩ := analyzeAll_holds hempty ds
  obtain rfl := Except.ok.inj (hw.symm.trans hrun)
  rw [Nat.zero_add] at h
  exact ⟨_, hw, h, listMembers_declareAll hdeclare, hget⟩

/-- The tables after a batch are those of its documents. -/
theorem Holds.exists_document {w : Workspace} {ds : List Document} {analyses : Nat}
    (h : w.Holds (fun u => ds.foldl (Document.knownAfter u) none) analyses) (hn : (ds.map (·.uri)).Nodup)
    {t : SymbolTable} (ht : t ∈ w.symbols.tables) : ∃ d ∈ ds, SymbolTable.ofDocument d = t := by
  have hfind : w.symbols.table? t.uri = some t := Keyed.find?_eq_some h.symbols.consistent.uris ht
  rw [h.symbols.table, Document.foldl_knownAfter hn, Option.or_none] at hfind
  obtain ⟨d, hd, htable⟩ := Option.map_eq_some_iff.1 hfind
  exact ⟨d, List.mem_of_find?_eq_some hd, htable⟩

theorem Holds.tables_perm {w w' : Workspace} {known : String → Option Document} {n n' : Nat} (h : w.Holds known n)
    (h' : w'.Holds known n') : w.symbols.tables.Perm w'.symbols.tables := by
  refine Keyed.perm_of_find?_eq h.symbols.consistent.uris h'.symbols.consistent.uris fun uri => ?_
  exact (h.symbols.table uri).trans (h'.symbols.table uri).symm

/-- Workspaces that know the same documents and have the same references have the same totals. -/
theorem Holds.stats_eq {w w' : Workspace} {known : String → Option Document} {n : Nat} (h : w.Holds known n)
    (h' : w'.Holds known n) (hsame : ∀ uri, w'.references.get? uri = w.references.get? uri) : w'.stats = w.stats := by
  have htables := h'.tables_perm h
  have hdocuments : w'.references.documents.Perm w.references.documents :=
    Keyed.perm_of_find?_eq h'.references.indexed.uris h.references.indexed.uris hsame
  have hlength : w'.symbols.documentCount = w.symbols.documentCount := htables.length_eq
  have hcount : w'.symbols.symbolCount = w.symbols.symbolCount := by
    rw [h.symbols.consistent.count, h'.symbols.consistent.count]
    exact (htables.map _).sum_nat
  have hreferences : w'.references.referenceCount = w.references.referenceCount :=
    (hdocuments.flatMap_right _).length_eq
  rw [h.stats, h'.stats, hlength, hcount, hreferences]

/-- A batch can be analysed in any order, if its documents have different uris and do not compete for names: both
analyses succeed and give the same references for every uri, and the same totals. -/
theorem analyzeAll_perm (settings : Settings) {ds ds' : List Document} (hp : ds.Perm ds')
    (hn : (ds.map (·.uri)).Nodup)
    (hapart : ∀ d ∈ ds, ∀ d' ∈ ds, d.uri ≠ d'.uri →
      (SymbolTable.ofDocument d).Apart settings.listMembers (SymbolTable.ofDocument d')) :
    ∃ w w', (empty settings).analyzeAll ds = .ok w ∧ (empty settings).analyzeAll ds' = .ok w' ∧
      (∀ uri, w'.references.get? uri = w.references.get? uri) ∧ w'.stats = w.stats := by
  obtain ⟨w, hw, h, hm, hget⟩ := analyzeAll_empty settings ds
  obtain ⟨w', hw', h', hm', hget'⟩ := analyzeAll_empty settings ds'
  have hn' : (ds'.map (·.uri)).Nodup := (hp.map _).nodup_iff.1 hn
  have hknown : ∀ uri, ds'.foldl (Document.knownAfter uri) none = ds.foldl (Document.knownAfter uri) none := by
    intro uri
    rw [Document.foldl_knownAfter hn, Document.foldl_knownAfter hn', Keyed.find?_perm hp hn]
  simp only [hknown, ← hp.length_eq] at h' hget'
  have hagrees : w.symbols.Agrees w'.symbols := by
    refine SymbolPool.agrees_of_perm h.symbols.consistent h'.symbols.consistent (hm'.trans hm.symm)
      (h.tables_perm h') ?_
    have huris := List.pairwise_map.1 h.symbols.consistent.uris
    refine huris.imp_of_mem fun {t u} ht hu hne => ?_
    obtain ⟨d, hd, rfl⟩ := h.exists_document hn ht
    obtain ⟨d', hd', rfl⟩ := h.exists_document hn hu
    rw [hm]
    exact hapart d hd d' hd' hne
  have hsame : ∀ uri, w'.references.get? uri = w.references.get? uri := by
    intro uri
    rw [hget, hget']
    simp only [Occurrences.ofDocument_congr _ _ hagrees]
  exact ⟨w, w', hw, hw', hsame, h.stats_eq h' hsame⟩

/-- A class with a constant. -/
private def declaringDocument : Document :=
  ⟨"file:///a.php", "<?php class A { const X = 1; }",
    ⟨.statementList, [.phrase .classDeclaration [
      .phrase .classDeclarationHeader [.token ⟨.classKeyword, 6, 5⟩, .token ⟨.name, 12, 1⟩],
      .phrase .classDeclarationBody [.phrase .classConstDeclaration [
        .phrase .classConstElement [.token ⟨.name, 22, 1⟩, .token ⟨.integerLiteral, 26, 1⟩]]]]]⟩⟩

/-- A function with the name of the class, up to case, and a use of the constant. -/
private def usingDocument : Document :=
  ⟨"file:///b.php", "<?php function a() {} A::X;",
    ⟨.statementList, [
      .phrase .functionDeclaration [.phrase .functionDeclarationHeader [.token ⟨.name, 15, 1⟩]],
      .phrase .expressionStatement [.phrase .classConstantAccessExpression [
        .phrase .scopeResolutionQualifier [.phrase .qualifiedName [.phrase .namespaceName [.token ⟨.name, 22, 1⟩]]],
        .token ⟨.colonColon, 23, 2⟩, .token ⟨.name, 25, 1⟩]]]⟩⟩

theorem analyzeAll_perm_swap : [declaringDocument, usingDocument].Perm [usingDocument, declaringDocument] ∧
    ([declaringDocument, usingDocument].map (·.uri)).Nodup ∧
    (∀ d ∈ [declaringDocument, usingDocument], ∀ d' ∈ [declaringDocument, usingDocument], d.uri ≠ d'.uri →
      (SymbolTable.ofDocument d).Apart true (SymbolTable.ofDocument d')) ∧
    ∃ w w', (empty {}).analyzeAll [declaringDocument, usingDocument] = .ok w ∧
      (empty {}).analyzeAll [usingDocument, declaringDocument] = .ok w' ∧
      (∀ uri, w'.references.get? uri = w.references.get? uri) ∧ w'.stats = w.stats := by
  have hp : [declaringDocument, usingDocument].Perm [usingDocument, declaringDocument] := List.Perm.swap _ _ []
  have hn : ([declaringDocument, usingDocument].map (·.uri)).Nodup := by decide
  have hapart : ∀ d ∈ [declaringDocument, usingDocument], ∀ d' ∈ [declaringDocument, usingDocument],
      d.uri ≠ d'.uri → (SymbolTable.ofDocument d).Apart true (SymbolTable.ofDocument d') := by decide +kernel
  exact ⟨hp, hn, hapart, analyzeAll_perm {} hp hn hapart⟩

end Workspace

end CodeAtlas
