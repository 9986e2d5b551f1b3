import CodeAtlas.Proofs.Mentions
import CodeAtlas.Proofs.PoolHistory
import CodeAtlas.Workspace

/-!
# The history of a workspace

Whatever is analysed and forgotten in whatever order, no analysis fails, the symbols and the references of a workspace
are those of the same documents, and its totals are right (`run_agrees`).  Within one batch all declarations come before
all references, so the two pools are followed one after the other: `SymbolPool.Holds` and `ReferencePool.Holds` say which
documents a pool is about, and each change of a pool has one lemma.
-/

namespace CodeAtlas

/-- One change of a workspace. -/
inductive WorkspaceStep where
  | analyze (d : Document)
  | analyzeAll (ds : List Document)
  | forget (uri : String)

/-- The document known under the uri after one more analysis. -/
def Document.knownAfter (uri : String) (known : Option Document) (d : Document) : Option Document :=
  if d.uri = uri then some d else known

namespace WorkspaceStep

/-- The documents that are processed, in order. -/
def documents : WorkspaceStep → List Document
  | .analyze d => [d]
  | .analyzeAll ds => ds
  | .forget _ => []

/-- The document known under the uri after one more change. -/
def knownAfter (uri : String) (known : Option Document) (change : WorkspaceStep) : Option Document :=
  match change with
  | .forget u => if u = uri then none else known
  | _ => change.documents.foldl (Document.knownAfter uri) known

end WorkspaceStep

/-! ### Symbols -/

namespace SymbolPool

/-- The pool has the tables of these documents, known by their uris. -/
structure Holds (s : SymbolPool) (known : String → Option Document) : Prop where
  consistent : s.Consistent
  table : ∀ uri, s.table? uri = (known uri).map SymbolTable.ofDocument

theorem Holds.remove {s : SymbolPool} {known : String → Option Document} (h : s.Holds known) (uri : String) :
    (s.remove uri).Holds fun u => if uri = u then none else known u := by
  refine ⟨h.consistent.remove uri, fun u => ?_⟩
  unfold table?
  rw [tables_remove, Keyed.find?_filter]
  split
  · rfl
  · exact h.table u

/-- After its uri has been removed, a table can be added. -/
theorem exists_replaced (s : SymbolPool) (t : SymbolTable) : ∃ s', (s.remove t.uri).add? t = some s' ∧
    s'.tables = s.tables.filter (·.uri != t.uri) ++ [t] := by
  have hnew : t.uri ∉ (s.remove t.uri).tables.map (·.uri) := by
    rw [tables_remove, List.mem_map]
    rintro ⟨u, hu, huri⟩
    have hne := (List.mem_filter.1 hu).2
    simp [huri] at hne
  cases hadd : (s.remove t.uri).add? t with
  | none => exact absurd ((add_eq_none_iff _ _).1 hadd) hnew
  | some s' =>
    refine ⟨s', rfl, ?_⟩
    rw [(add_eq_some hadd).2, ← tables_remove]

theorem Holds.replace {s : SymbolPool} {known : String → Option Document} (h : s.Holds known) (d : Document) :
    ∃ s', (s.remove d.uri).add? (SymbolTable.ofDocument d) = some s' ∧
      s'.Holds fun u => d.knownAfter u (known u) := by
  obtain ⟨s', hadd, htables⟩ := s.exists_replaced (SymbolTable.ofDocument d)
  refine ⟨s', hadd, (h.consistent.remove d.uri).add hadd, fun u => ?_⟩
  have htable : s'.table? u = if d.uri = u then some (SymbolTable.ofDocument d) else s.table? u := by
    unfold table?
    rw [htables]
    exact Keyed.find?_replace (SymbolTable.ofDocument d) u
  rw [htable, h.table]
  unfold Document.knownAfter
  split <;> rfl

end SymbolPool

/-! ### References -/

namespace ReferencePool

/-- The pool has references of these documents, known by their uris, each read with the symbols of its time. -/
structure Holds (s : ReferencePool) (known : String → Option Document) : Prop where
  indexed : s.Indexed
  document : ∀ uri, (s.get? uri).isSome = (known uri).isSome
  reads : ∀ uri o, s.get? uri = some o →
    ∃ d pool, known uri = some d ∧ o = Occurrences.ofDocument d (SymbolTable.ofDocument d) pool

theorem Holds.remove {s : ReferencePool} {known : String → Option Document} (h : s.Holds known) (uri : String) :
    (s.remove uri).Holds fun u => if uri = u then none else known u := by
  have hget : ∀ u, (s.remove uri).get? u = if uri = u then none else s.get? u := by
    intro u
    unfold get?
    rw [documents_remove, Keyed.find?_filter]
  refine ⟨h.indexed.remove uri, fun u => ?_, fun u o ho => ?_⟩
  · rw [hget]
    split
    · rfl
    · exact h.document u
  · rw [hget] at ho
    split at ho
    · cases ho
    · rename_i hne
      rw [if_neg hne]
      exact h.reads u o ho

theorem get?_add (s : ReferencePool) (o : Occurrences) (uri : String) :
    (s.add o).get? uri = if o.uri = uri then some o else s.get? uri := by
  have hdocs : (s.add o).documents = s.documents.filter (·.uri != o.uri) ++ [o] := s.documents_step (.add o)
  unfold get?
  rw [hdocs, Keyed.find?_replace]

theorem Holds.add {s : ReferencePool} {known : String → Option Document} (h : s.Holds known) (d : Document)
    (pool : SymbolPool) : (s.add (Occurrences.ofDocument d (SymbolTable.ofDocument d) pool)).Holds
      fun u => d.knownAfter u (known u) := by
  have hget : ∀ u, (s.add (Occurrences.ofDocument d (SymbolTable.ofDocument d) pool)).get? u =
      if d.uri = u then some (Occurrences.ofDocument d (SymbolTable.ofDocument d) pool) else s.get? u :=
    s.get?_add (Occurrences.ofDocument d (SymbolTable.ofDocument d) pool)
  unfold Document.knownAfter
  refine ⟨h.indexed.add _, fun u => ?_, fun u o ho => ?_⟩
  · rw [hget]
    split
    · rfl
    · exact h.document u
  · rw [hget] at ho
    split at ho
    · rename_i heq
      rw [if_pos heq]
      exact ⟨d, pool, rfl, (Option.some.inj ho).symm⟩
    · rename_i hne
      rw [if_neg hne]
      exact h.reads u o ho

end ReferencePool

/-! ### Batches -/

namespace Workspace

variable {w : Workspace} {known known' : String → Option Document}

theorem declare_holds (h : w.symbols.Holds known) (d : Document) :
    ∃ symbols, w.declare d (SymbolTable.ofDocument d) = .ok { w with symbols := symbols } ∧
      symbols.Holds fun u => d.knownAfter u (known u) := by
  obtain ⟨symbols, hadd, hs⟩ := h.replace d
  refine ⟨symbols, ?_, hs⟩
  unfold declare SymbolPool.add
  rw [hadd]
  rfl

theorem declareAll_holds (h : w.symbols.Holds known) (ds : List Document) :
    ∃ symbols, w.declareAll (ds.map fun d => (d, SymbolTable.ofDocument d)) = .ok { w with symbols := symbols } ∧
      symbols.Holds fun u => ds.foldl (Document.knownAfter u) (known u) := by
  induction ds generalizing w known with
  | nil => exact ⟨w.symbols, rfl, h⟩
  | cons d ds ih =>
    obtain ⟨symbols, hd, hs⟩ := declare_holds h d
    obtain ⟨symbols', hds, hs'⟩ := ih (w := { w with symbols := symbols }) hs
    refine ⟨symbols', ?_, hs'⟩
    rw [List.map_cons, declareAll, hd]
    exact hds

/-- Reading the references of some documents leaves the symbols alone and counts the documents. -/
theorem addAllReferences_holds (h : w.references.Holds known) (ds : List Document) :
    ∃ references, ds.foldl (fun w d => w.addReferences d (SymbolTable.ofDocument d)) w =
        { w with
          references := references
          stats := { w.stats with analyses := w.stats.analyses + ds.length } } ∧
      references.Holds fun u => ds.foldl (Document.knownAfter u) (known u) := by
  induction ds generalizing w known with
  | nil => exact ⟨w.references, rfl, h⟩
  | cons d ds ih =>
    have hadd := h.add d w.symbols
    obtain ⟨references, hds, hr⟩ := ih (w := w.addReferences d (SymbolTable.ofDocument d)) hadd
    refine ⟨references, ?_, hr⟩
    rw [List.foldl_cons, hds, List.length_cons, Nat.add_comm ds.length, ← Nat.add_assoc]
    rfl

/-! ### Steps -/

def step (w : Workspace) : WorkspaceStep → Except WorkspaceError Workspace
  | .analyze d => (w.analyze d).map (·.1)
  | .analyzeAll ds => w.analyzeAll ds
  | .forget uri => .ok (w.forget uri)

/-- The workspace after some changes of an empty one, or the first error. -/
def run (settings : Settings) (steps : List WorkspaceStep) : Except WorkspaceError Workspace :=
  steps.foldlM step (empty settings)

/-- Both pools are about these documents, and the totals are up to date. -/
structure Holds (w : Workspace) (known : String → Option Document) (analyses : Nat) : Prop where
  symbols : w.symbols.Holds known
  references : w.references.Holds known
  stats : w.stats = ⟨w.symbols.documentCount, w.symbols.symbolCount, w.references.referenceCount, analyses⟩

/-- Once all documents are declared, their references are read one after the other. -/
theorem analyzeAll_of_declareAll {w' : Workspace} {ds : List Document}
    (h : w.declareAll (ds.map fun d => (d, SymbolTable.ofDocument d)) = .ok w') : w.analyzeAll ds =
      .ok (ds.foldl (fun (w : Workspace) d => w.addReferences d (SymbolTable.ofDocument d)) w').recount := by
  unfold analyzeAll
  simp only
  rw [h]
  simp only [Except.map, List.foldl_map]

theorem analyzeAll_holds {analyses : Nat} (h : w.Holds known analyses) (ds : List Document) :
    ∃ w', w.analyzeAll ds = .ok w' ∧
      w'.Holds (fun u => ds.foldl (Document.knownAfter u) (known u)) (analyses + ds.length) := by
  obtain ⟨symbols, hdeclare, hs⟩ := declareAll_holds h.symbols ds
  obtain ⟨references, hread, hr⟩ := addAllReferences_holds (w := { w with symbols := symbols }) h.references ds
  have hrun := analyzeAll_of_declareAll hdeclare
  rw [hread] at hrun
  refine ⟨_, hrun, hs, hr, ?_⟩
  simp only [recount, h.stats]

/-- Analysing one document does the same as analysing a batch of one. -/
theorem analyze_eq_analyzeAll (h : w.symbols.Holds known) (hr : w.references.Holds known) (d : Document) :
    (w.analyze d).map (·.1) = w.analyzeAll [d] := by
  obtain ⟨symbols, hdeclare, -⟩ := declare_holds h d
  have hadd := hr.add d symbols
  have hget : ((w.references.add (Occurrences.ofDocument d (SymbolTable.ofDocument d) symbols)).get? d.uri).isSome =
      true := by
    rw [hadd.document]
    unfold Document.knownAfter
    rw [if_pos rfl]
    rfl
  obtain ⟨o, ho⟩ := Option.isSome_iff_exists.1 hget
  have hanalyze : w.analyze d = .ok ((({ w with symbols := symbols }.addReferences d (SymbolTable.ofDocument d)).recount), o) := by
    unfold analyze
    simp only
    rw [hdeclare]
    simp only [addReferences, recount, ho]
  unfold analyzeAll
  simp only [List.map_cons, List.map_nil, declareAll]
  rw [hanalyze, hdeclare]
  rfl

theorem step_holds {analyses : Nat} (h : w.Holds known analyses) (change : WorkspaceStep) :
    ∃ w', w.step change = .ok w' ∧
      w'.Holds (fun u => change.knownAfter u (known u)) (analyses + change.documents.length) := by
  cases change with
  | analyze d =>
    obtain ⟨w', hw, hh⟩ := analyzeAll_holds h [d]
    exact ⟨w', (analyze_eq_analyzeAll h.symbols h.references d).trans hw, hh⟩
  | analyzeAll ds => exact analyzeAll_holds h ds
  | forget uri =>
    refine ⟨_, rfl, h.symbols.remove uri, h.references.remove uri, ?_⟩
    simp only [forget, recount, h.stats]
    rfl

/-- The document last analysed under the uri, if it has not been forgotten since. -/
def current (steps : List WorkspaceStep) (uri : String) : Option Document :=
  steps.foldl (WorkspaceStep.knownAfter uri) none

theorem run_holds (settings : Settings) (steps : List WorkspaceStep) :
    ∃ w, run settings steps = .ok w ∧ w.Holds (current steps) (steps.map (·.documents.length)).sum := by
  have hsteps : ∀ (steps : List WorkspaceStep) (w : Workspace) (known : String → Option Document) (analyses : Nat),
      w.Holds known analyses → ∃ w', steps.foldlM step w = .ok w' ∧
        w'.Holds (fun u => steps.foldl (WorkspaceStep.knownAfter u) (known u))
          (analyses + (steps.map (·.documents.length)).sum) := by
    intro steps
    induction steps with
    | nil => exact fun w known analyses h => ⟨w, rfl, h⟩
    | cons change steps ih =>
      intro w known analyses h
      obtain ⟨w₁, hw₁, h₁⟩ := step_holds h change
      obtain ⟨w', hw', h'⟩ := ih w₁ _ _ h₁
      refine ⟨w', ?_, ?_⟩
      · rw [List.foldlM_cons, hw₁]
        exact hw'
      · rw [List.map_cons, List.sum_cons, ← Nat.add_assoc]
        exact h'
  obtain ⟨w, hw, h⟩ := hsteps steps (empty settings) (fun _ => none) 0
    ⟨⟨SymbolPool.empty_consistent settings, fun _ => rfl⟩, ⟨ReferencePool.empty_indexed, fun _ => rfl, nofun⟩, rfl⟩
  rw [Nat.zero_add] at h
  exact ⟨w, hw, h⟩

/-! ### Histories -/

/-- Both pools have the same uris. -/
theorem Holds.uris_perm {analyses : Nat} (h : w.Holds known analyses) :
    (w.symbols.tables.map (·.uri)).Perm (w.references.documents.map (·.uri)) := by
  rw [List.perm_ext_iff_of_nodup h.symbols.consistent.uris h.references.indexed.uris]
  intro uri
  have htable := h.symbols.table uri
  have hdocument := h.references.document uri
  have hsymbols : uri ∈ w.symbols.tables.map (·.uri) ↔ (known uri).isSome = true := by
    rw [← Keyed.isSome_find?]
    show (w.symbols.table? uri).isSome = true ↔ _
    rw [htable, Option.isSome_map]
  have hreferences : uri ∈ w.references.documents.map (·.uri) ↔ (known uri).isSome = true := by
    rw [← Keyed.isSome_find?, ← hdocument]
    rfl
  rw [hsymbols, hreferences]

theorem Holds.knows_eq {analyses : Nat} (h : w.Holds known analyses) (uri : String) :
    w.knows uri = (known uri).isSome := by
  have htable : w.symbols.knowsDocument uri = (w.symbols.table? uri).isSome := by
    rw [Bool.eq_iff_iff, SymbolPool.knowsDocument_iff]
    exact Keyed.isSome_find?.symm
  unfold knows
  rw [htable, h.symbols.table, h.references.document, Option.isSome_map, Bool.or_self]

/-- After any sequence of changes, none of which fails: the tables are those of the documents last analysed and not
forgotten since, the references are of the same documents, forgetting a document finds it just when it is one of them,
and the totals are those of the pools. -/
theorem run_agrees (settings : Settings) (steps : List WorkspaceStep) :
    ∃ w, run settings steps = .ok w ∧
      (∀ uri, w.symbols.table? uri = (current steps uri).map SymbolTable.ofDocument) ∧
      (∀ uri, (w.references.get? uri).isSome = (current steps uri).isSome) ∧
      (w.symbols.tables.map (·.uri)).Nodup ∧
      (w.symbols.tables.map (·.uri)).Perm (w.references.documents.map (·.uri)) ∧
      (∀ uri, w.knows uri = (current steps uri).isSome) ∧
      w.stats.documents = w.symbols.tables.length ∧
      w.stats.documents = w.references.documents.length ∧
      w.stats.symbols = (w.symbols.tables.map (·.symbolCount)).sum ∧
      w.stats.references = (w.references.documents.map (·.size)).sum ∧
      w.stats.analyses = (steps.map (·.documents.length)).sum := by
  obtain ⟨w, hrun, h⟩ := run_holds settings steps
  have hlength := h.uris_perm.length_eq
  rw [List.length_map, List.length_map] at hlength
  refine ⟨w, hrun, h.symbols.table, h.references.document, h.symbols.consistent.uris, h.uris_perm, h.knows_eq, ?_⟩
  rw [h.stats]
  refine ⟨rfl, hlength, h.symbols.consistent.count, ?_, rfl⟩
  show (w.references.documents.flatMap (·.sorted)).length = _
  rw [List.length_flatMap]
  rfl

end Workspace

end CodeAtlas
