import CodeAtlas.Proofs.TypeNames
import CodeAtlas.Proofs.TypeUnion

/-!
# Type expressions

A type expression is a name, a union of expressions in parentheses, or an array of another expression (`TypeExpr`).  Its
text is read back part by part, whatever the nesting (`parts_ofText`).  But mapping the names of the type that is read
goes past brackets and one pair of parentheses only: it applies a function to the texts of the units of a part
(`mapLeaves_text`), and a unit may be an array or a group, with other names in it.
-/

namespace CodeAtlas

open Text

/-- A part of a type as it is meant, whatever the nesting. -/
inductive TypeExpr where
  | name (text : String)
  /-- A union in parentheses. -/
  | group (parts : List TypeExpr)
  | array (part : TypeExpr)

namespace TypeExpr

/-! ### Expressions -/

section

variable {α : Type} (onName : String → α) (onGroup : List α → α) (onArray : α → α)

mutual

/-- The value of an expression, from the values of what it is made of. -/
def fold : TypeExpr → α
  | .name s => onName s
  | .group parts => onGroup (foldAll parts)
  | .array part => onArray (fold part)

def foldAll : List TypeExpr → List α
  | [] => []
  | w :: ws => fold w :: foldAll ws

end

theorem foldAll_eq_map (ws : List TypeExpr) :
    foldAll onName onGroup onArray ws = ws.map (fold onName onGroup onArray) := by
  induction ws with
  | nil => rfl
  | cons w ws ih => rw [foldAll, ih, List.map_cons]

end

/-- What holds of names, and of groups and arrays whenever it holds of what they are made of, holds of every
expression. -/
@[elab_as_elim] theorem induction {P : TypeExpr → Prop} (name : ∀ s, P (.name s))
    (group : ∀ parts, (∀ w ∈ parts, P w) → P (.group parts)) (array : ∀ w, P w → P (.array w)) : ∀ w, P w
  | .name s => name s
  | .group parts => group parts fun w _ => induction name group array w
  | .array w => array w (induction name group array w)
termination_by w => sizeOf w
decreasing_by
  · have := List.sizeOf_lt_of_mem ‹_›
    simp only [TypeExpr.group.sizeOf_spec]
    omega
  · simp only [TypeExpr.array.sizeOf_spec]
    omega

/-- The expression as it is written. -/
def text : TypeExpr → String :=
  fold id (fun parts => "(" ++ "|".intercalate parts ++ ")") (· ++ "[]")

/-- The names in an expression. -/
def leaves : TypeExpr → List String :=
  fold (fun s => [s]) List.flatten id

/-- The expression with `f` applied to its names. -/
def replace (f : String → String) : TypeExpr → TypeExpr :=
  fold (fun s => .name (f s)) .group .array

section

variable (f : String → String) (s : String) (parts : List TypeExpr) (w : TypeExpr)

@[simp] theorem text_name : (name s).text = s := rfl

@[simp] theorem text_group : (group parts).text = "(" ++ "|".intercalate (parts.map text) ++ ")" := by
  show "(" ++ "|".intercalate (foldAll _ _ _ parts) ++ ")" = _
  rw [foldAll_eq_map]
  rfl

@[simp] theorem text_array : (array w).text = w.text ++ "[]" := rfl

@[simp] theorem leaves_name : (name s).leaves = [s] := rfl

@[simp] theorem leaves_group : (group parts).leaves = parts.flatMap leaves := by
  show (foldAll _ _ _ parts).flatten = _
  rw [foldAll_eq_map]
  rfl

@[simp] theorem leaves_array : (array w).leaves = w.leaves := rfl

@[simp] theorem replace_name : (name s).replace f = name (f s) := rfl

@[simp] theorem replace_group : (group parts).replace f = group (parts.map (replace f)) := by
  show group (foldAll _ _ _ parts) = _
  rw [foldAll_eq_map]
  rfl

@[simp] theorem replace_array : (array w).replace f = array (w.replace f) := rfl

end

theorem leaves_replace (f : String → String) (w : TypeExpr) : (w.replace f).leaves = w.leaves.map f := by
  induction w using TypeExpr.induction with
  | name s => rfl
  | group parts ih =>
    rw [replace_group, leaves_group, leaves_group, List.flatMap_map, List.map_flatMap]
    exact List.flatMap_congr ih
  | array w ih => rw [replace_array, leaves_array, leaves_array, ih]

theorem replace_of_fixed {f : String → String} {w : TypeExpr} (h : ∀ s ∈ w.leaves, f s = s) : w.replace f = w := by
  induction w using TypeExpr.induction with
  | name s => rw [replace_name, h s List.mem_cons_self]
  | group parts ih =>
    have hmap : parts.map (replace f) = parts.map id := by
      refine List.map_congr_left fun w hw => ih w hw fun s hs => h s ?_
      rw [leaves_group]
      exact List.mem_flatMap_of_mem hw hs
    rw [replace_group, hmap, List.map_id]
  | array w ih => rw [replace_array, ih h]

/-! ### Names, units and well-formed expressions -/

/-- The expressions that are taken for one name: names, and whatever stands directly in the first parentheses. -/
def units : TypeExpr → List TypeExpr
  | .name s => [.name s]
  | .group parts => parts
  | .array w => w.units

/-- The text with `f` applied to each unit. -/
def reached (f : String → String) : TypeExpr → String
  | .name s => f s
  | .group parts => "(" ++ "|".intercalate (parts.map fun w => f w.text) ++ ")"
  | .array w => w.reached f ++ "[]"

def isBare : TypeExpr → Bool
  | .name _ => true
  | _ => false

/-- A name with a backslash, perhaps with brackets after it. -/
def isQualified : TypeExpr → Bool
  | .name s => s.toList.contains '\\'
  | .group _ => false
  | .array w => w.isQualified

/-- A name as it can stand in a type. -/
structure IsLeaf (s : String) : Prop where
  isName : TypeText.IsName s
  unmarked : beginsWith s "?" = false

/-- All names of the expression can stand in a type. -/
def WellFormed (w : TypeExpr) : Prop :=
  ∀ s ∈ w.leaves, IsLeaf s

/-- A union of expressions as it is written. -/
def unionText (ws : List TypeExpr) : String :=
  "|".intercalate (ws.map text)

/-- The union of the distinct texts, in the order of their first occurrences. -/
def joinDistinct (parts : List String) : String :=
  "|".intercalate parts.eraseDups

/-- The union with `f` applied to its names. -/
def replacedText (f : String → String) (ws : List TypeExpr) : String :=
  joinDistinct (ws.map fun w => (w.replace f).text)

variable {f : String → String} {w : TypeExpr} {ws : List TypeExpr}

theorem WellFormed.of_group {parts : List TypeExpr} (h : (group parts).WellFormed) : ∀ w ∈ parts, w.WellFormed := by
  intro w hw s hs
  refine h s ?_
  rw [leaves_group]
  exact List.mem_flatMap_of_mem hw hs

theorem WellFormed.of_unit (h : w.WellFormed) {u : TypeExpr} (hu : u ∈ w.units) : u.WellFormed := by
  induction w using TypeExpr.induction with
  | name s =>
    rw [List.mem_singleton.1 hu]
    exact h
  | group parts _ => exact h.of_group u hu
  | array w ih => exact ih h hu

/-! ### What is read -/

theorem WellFormed.loose (h : w.WellFormed) : TypeText.IsLoosePart w.text := by
  induction w using TypeExpr.induction with
  | name s =>
    obtain ⟨hname, hmark⟩ := h s List.mem_cons_self
    exact .atom ⟨hname.isWord.nonempty, hname.isWord.plain, hmark⟩
  | group parts ih =>
    rw [text_group]
    exact .group (List.forall_mem_map.2 fun w hw => ih w hw (h.of_group w hw))
  | array w ih => exact .array (ih h)

private theorem settled (h : ∀ w ∈ ws, w.WellFormed) : TypeText.Settled ⟨ws.map text⟩ :=
  TypeText.settled_of_loose (List.forall_mem_map.2 fun w hw => (h w hw).loose)

/-- The parts of a union of expressions are read as they are. -/
theorem parts_ofText (h : ∀ w ∈ ws, w.WellFormed) :
    (TypeText.ofText (unionText ws)).parts = (ws.map text).eraseDups := by
  have hsplit : TypeText.splitUnion (unionText ws) = ws.map text := TypeText.splitUnion_text (settled h)
  unfold TypeText.ofText
  rw [hsplit, TypeText.parts_insertAll_empty, (settled h).flatMap_expand]

theorem mapPart_text (h : w.WellFormed) (f : String → String) : TypeText.mapPart f w.text = w.reached f := by
  induction w using TypeExpr.induction with
  | name s => exact TypeText.mapPart_word f (h s List.mem_cons_self).isName.isWord
  | group parts _ =>
    have hsplit : TypeText.splitUnion ("|".intercalate (parts.map text)) = parts.map text :=
      TypeText.splitUnion_text (settled h.of_group)
    rw [text_group, TypeText.mapPart_group f hsplit, List.map_map]
    rfl
  | array w ih => rw [text_array, TypeText.mapPart_array, ih h, reached]

/-- Mapping the names of a union applies the function to the units of its parts. -/
theorem mapLeaves_text (h : ∀ w ∈ ws, w.WellFormed) (f : String → String) :
    ((TypeText.ofText (unionText ws)).mapLeaves f).text = joinDistinct (ws.map (·.reached f)) := by
  have hmap : (ws.map text).map (TypeText.mapPart f) = ws.map (·.reached f) := by
    rw [List.map_map]
    refine List.map_congr_left fun w hw => ?_
    rw [Function.comp_apply, mapPart_text (h w hw) f]
  unfold TypeText.text TypeText.mapLeaves joinDistinct
  rw [TypeText.parts_insertAll_empty, parts_ofText h, Keyed.eraseDups_map_eraseDups, hmap]

/-! ### Units and names -/

theorem reached_eq (h : ∀ u ∈ w.units, f u.text = (u.replace f).text) : w.reached f = (w.replace f).text := by
  induction w using TypeExpr.induction with
  | name s => exact h (.name s) List.mem_cons_self
  | group parts _ =>
    have hmap : (parts.map fun w => f w.text) = (parts.map (replace f)).map text := by
      rw [List.map_map]
      exact List.map_congr_left h
    rw [replace_group, text_group, ← hmap, reached]
  | array w ih => rw [replace_array, text_array, ← ih h, reached]

theorem replace_of_bare (h : w.isBare = true) (f : String → String) : f w.text = (w.replace f).text := by
  cases w with
  | name s => rfl
  | _ => cases h

end TypeExpr

end CodeAtlas
