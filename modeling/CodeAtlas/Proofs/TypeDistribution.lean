import CodeAtlas.Proofs.FlowEnvironment
import CodeAtlas.Proofs.TypeUnion

/-!
# Distribution over unions

Taking elements, resolving names and binding a class go through a type part by part, and keep what the parts stand for
at its first occurrence (`partwise`).  What a repeated part stands for has occurred before, so repetitions can be
dropped before the parts are taken apart as well as after it (`partwise_merge`).  The same operations therefore
distribute over the types that meet after the branches of a conditional (`Distributes.mergedType`).
-/

namespace CodeAtlas

namespace TypeText

/-! ### Part by part -/

/-- Adding parts that are there already changes nothing. -/
theorem insertAll_of_subset {t : TypeText} {l : List String} (h : l ⊆ t.parts) : t.insertAll l = t := by
  have hnone : l.filter (· ∉ t.parts) = [] := List.filter_eq_nil_iff.2 fun part hpart => by simpa using h hpart
  rw [← insertAll_filter (List.Subset.refl t.parts) l, hnone]
  rfl

/-- Repetitions among new parts can be dropped before the parts are added. -/
theorem insertAll_eraseDups (t : TypeText) (l : List String) : t.insertAll l.eraseDups = t.insertAll l := by
  induction l using List.reverseRecOn with
  | nil => rfl
  | append_singleton l part ih =>
    rw [Keyed.eraseDups_concat, insertAll_append]
    split
    · rename_i hmem
      have hpart : [part] ⊆ (t.insertAll l).parts := List.forall_mem_singleton.2 (mem_insertAll.2 (Or.inr hmem))
      rw [ih, insertAll_of_subset hpart]
    · rw [insertAll_append, ih]

/-- The union of what the parts of a type stand for. -/
def partwise (g : String → List String) (t : TypeText) : TypeText :=
  empty.insertAll (t.parts.flatMap g)

theorem element_eq_partwise (t : TypeText) : t.element = t.partwise elementsOf :=
  rfl

theorem mapLeaves_eq_partwise (f : String → String) (t : TypeText) :
    t.mapLeaves f = t.partwise fun part => [mapPart f part] := by
  unfold mapLeaves partwise
  rw [List.map_eq_flatMap]

theorem partwise_insert (g : String → List String) (t : TypeText) (part : String) :
    (t.insert part).partwise g = (t.partwise g).insertAll (g part) := by
  unfold insert
  split
  · rename_i hmem
    -- what the part stands for has been gathered from its first occurrence
    refine (insertAll_of_subset fun x hx => ?_).symm
    exact mem_insertAll.2 (Or.inr (List.mem_flatMap_of_mem hmem hx))
  · unfold partwise
    rw [List.flatMap_append, insertAll_append, List.flatMap_singleton]

theorem partwise_insertAll (g : String → List String) (t : TypeText) (l : List String) :
    (t.insertAll l).partwise g = (t.partwise g).insertAll (l.flatMap g) := by
  induction l generalizing t with
  | nil => rfl
  | cons part l ih =>
    have hstep : t.insertAll (part :: l) = (t.insert part).insertAll l := rfl
    rw [hstep, ih, partwise_insert, List.flatMap_cons, insertAll_append]

theorem partwise_merge (g : String → List String) (a b : TypeText) :
    (a.merge b).partwise g = (a.partwise g).merge (b.partwise g) := by
  calc (a.merge b).partwise g
    _ = (a.partwise g).insertAll (b.parts.flatMap g) := partwise_insertAll g a b.parts
    _ = (a.partwise g).insertAll (b.parts.flatMap g).eraseDups := (insertAll_eraseDups _ _).symm
    _ = (a.partwise g).merge (b.partwise g) := by
      rw [← parts_insertAll_empty]
      rfl

/-! ### Operations that distribute -/

/-- The operation can be applied before types are united, or afterwards. -/
structure Distributes (f : TypeText → TypeText) : Prop where
  empty : f empty = empty
  merge : ∀ a b : TypeText, f (a.merge b) = (f a).merge (f b)

theorem distributes_partwise (g : String → List String) : Distributes (partwise g) where
  empty := rfl
  merge := partwise_merge g

theorem distributes_element : Distributes element := by
  have heq : element = partwise elementsOf := funext element_eq_partwise
  rw [heq]
  exact distributes_partwise _

theorem distributes_mapLeaves (f : String → String) : Distributes (mapLeaves f) := by
  have heq : mapLeaves f = partwise fun part => [mapPart f part] := funext (mapLeaves_eq_partwise f)
  rw [heq]
  exact distributes_partwise _

end TypeText

/-- The frame with `f` applied to the type of each variable. -/
def FlowFrame.mapTypes (f : TypeText → TypeText) (b : FlowFrame) : FlowFrame :=
  { b with types := b.types.map fun (name, type) => (name, f type) }

theorem FlowFrame.get?_mapTypes (f : TypeText → TypeText) (b : FlowFrame) (name : String) :
    (b.mapTypes f).get? name = (b.get? name).map f := by
  unfold get? mapTypes
  induction b.types with
  | nil => rfl
  | cons entry types ih =>
    rw [List.map_cons, List.lookup_cons, List.lookup_cons]
    cases name == entry.1 with
    | true => rfl
    | false => exact ih

namespace TypeText

variable {f : TypeText → TypeText}

/-- What is done to the type that a variable has after some branches can be done in each branch. -/
theorem Distributes.mergedType (h : Distributes f) (before : TypeText) (branches : List FlowFrame) (name : String) :
    f (FlowTypes.mergedType before branches name) =
      FlowTypes.mergedType (f before) (branches.map (·.mapTypes f)) name := by
  have hall : ((branches.map (·.mapTypes f)).all fun b => (b.get? name).isSome) =
      branches.all fun b => (b.get? name).isSome := by
    rw [List.all_map]
    refine congrArg (List.all branches) (funext fun b => ?_)
    rw [Function.comp_apply, FlowFrame.get?_mapTypes, Option.isSome_map]
  unfold FlowTypes.mergedType
  dsimp only
  have hstart : ∀ p : Bool,
      (if p = true then TypeText.empty else f before) = f (if p = true then .empty else before) := by
    intro p
    cases p with
    | true => exact h.empty.symm
    | false => rfl
  rw [hall, List.foldl_map, hstart]
  refine (List.foldl_hom f fun type b => ?_).symm
  rw [FlowFrame.get?_mapTypes]
  cases b.get? name with
  | none => rfl
  | some t => exact (h.merge type t).symm

/-- Taking elements, resolving names and binding a class distribute over the union of any two types, the parts of the
result and their order included.  So going through a type that is merged from branches, or binding a class in it, gives
what comes of doing so in each branch. -/
theorem union_distributes (a b : TypeText) (r : Resolver) (cls : String) :
    (a.merge b).element = a.element.merge b.element ∧
      (a.merge b).resolve r = (a.resolve r).merge (b.resolve r) ∧
      (a.merge b).resolveDeferred r = (a.resolveDeferred r).merge (b.resolveDeferred r) ∧
      (a.merge b).withSelf cls = (a.withSelf cls).merge (b.withSelf cls) ∧
      ∀ (before : TypeText) (branches : List FlowFrame) (name : String),
        (FlowTypes.mergedType before branches name).element =
            FlowTypes.mergedType before.element (branches.map (·.mapTypes element)) name ∧
          (FlowTypes.mergedType before branches name).withSelf cls =
            FlowTypes.mergedType (before.withSelf cls) (branches.map (·.mapTypes (withSelf · cls))) name := by
  have hbind : Distributes (withSelf · cls) := distributes_mapLeaves _
  refine ⟨distributes_element.merge a b, (distributes_mapLeaves (resolveName r false)).merge a b,
    (distributes_mapLeaves (resolveName r true)).merge a b, hbind.merge a b, fun before branches name => ⟨?_, ?_⟩⟩
  · exact distributes_element.mergedType before branches name
  · exact hbind.mergedType before branches name

end TypeText

end CodeAtlas
