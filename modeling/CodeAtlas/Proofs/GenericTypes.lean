import CodeAtlas.DocBlock
import CodeAtlas.Proofs.DocTags
import CodeAtlas.Proofs.TypeGrammar
import Mathlib.Data.List.Chain

/-!
# Generic types

A generic type is a name, a union, a type in parentheses, an array, or a name applied to arguments (`GenericType`), as
documentation comments write it.  The bars of a union are exposed unless parentheses stand around it; angle brackets do
not hide them.  So a bar of the text is exposed just where a union reaches the outside (`whole_chars_iff`), and the text
has a comma just when some name is applied to several arguments (`comma_mem_chars_iff`).

Two types have the same shape if they differ in their names only.  Every well-formed type has the shape of one where the
first name is unlike all others (`exists_marked`).
-/

namespace CodeAtlas

open Text

/-! ### Separators -/

namespace Text

variable {α : Type} {sep p : List α} {parts : List (List α)}

/-- What holds of some texts and is kept when two are put together with a separator between them holds of all of them
put together. -/
theorem intercalate_induction {P : List α → Prop} (hne : parts ≠ []) (part : ∀ p ∈ parts, P p)
    (step : ∀ a b, P a → P b → P (a ++ sep ++ b)) : P (sep.intercalate parts) := by
  induction parts with
  | nil => exact absurd rfl hne
  | cons p ps ih =>
    obtain ⟨hp, hps⟩ := List.forall_mem_cons.1 part
    cases ps with
    | nil => simpa using hp
    | cons q qs =>
      rw [List.intercalate_cons_cons]
      exact step p _ hp (ih (List.cons_ne_nil q qs) hps)

theorem intercalate_concat (hne : parts ≠ []) (sep p : List α) :
    sep.intercalate (parts ++ [p]) = sep.intercalate parts ++ sep ++ p := by
  induction parts with
  | nil => exact absurd rfl hne
  | cons q qs ih =>
    cases qs with
    | nil => simp
    | cons r rs =>
      rw [List.cons_append, List.cons_append, List.intercalate_cons_cons, ← List.cons_append,
        ih (List.cons_ne_nil r rs), List.intercalate_cons_cons]
      simp only [List.append_assoc]

theorem getLast?_intercalate_concat {c : α} (h : p.getLast? = some c) (sep : List α) (parts : List (List α)) :
    (sep.intercalate (parts ++ [p])).getLast? = some c := by
  cases parts with
  | nil => simpa using h
  | cons q qs => rw [intercalate_concat (List.cons_ne_nil q qs), List.getLast?_append, h, Option.some_or]

/-- Texts that are put together are all there. -/
theorem subset_intercalate (hp : p ∈ parts) : p ⊆ sep.intercalate parts := by
  induction parts with
  | nil => cases hp
  | cons q qs ih =>
    cases qs with
    | nil => simp [List.mem_singleton.1 hp]
    | cons r rs =>
      rw [List.intercalate_cons_cons]
      rcases List.mem_cons.1 hp with rfl | hp
      · simp
      · exact List.subset_append_of_subset_right _ (ih hp)

theorem mem_intercalate {c : α} (h : c ∈ sep.intercalate parts) : c ∈ sep ∨ ∃ p ∈ parts, c ∈ p := by
  induction parts with
  | nil => simp at h
  | cons p ps ih =>
    cases ps with
    | nil => exact Or.inr ⟨p, List.mem_cons_self, by simpa using h⟩
    | cons q qs =>
      rw [List.intercalate_cons_cons, List.mem_append, List.mem_append] at h
      rcases h with (hp | hsep) | hrest
      · exact Or.inr ⟨p, List.mem_cons_self, hp⟩
      · exact Or.inl hsep
      · exact (ih hrest).imp_right fun ⟨r, hr, hc⟩ => ⟨r, List.mem_cons_of_mem p hr, hc⟩

theorem not_mem_intercalate {c : α} (hsep : c ∉ sep) (h : ∀ p ∈ parts, c ∉ p) : c ∉ sep.intercalate parts := by
  intro hc
  obtain ⟨p, hp, hc⟩ := (mem_intercalate hc).resolve_left hsep
  exact h p hp hc

end Text

/-- A type as it is meant, with generic applications. -/
inductive GenericType where
  | name (text : String)
  | union (members : List GenericType)
  /-- A type in parentheses. -/
  | group (inner : GenericType)
  | array (element : GenericType)
  | applied (name : String) (arguments : List GenericType)

namespace GenericType

/-! ### Types -/

section

variable {α : Type} (onName : String → α) (onUnion : List α → α) (onGroup onArray : α → α)
  (onApplied : String → List α → α)

mutual

/-- The value of a type, from the values of what it is made of. -/
def fold : GenericType → α
  | .name s => onName s
  | .union members => onUnion (foldAll members)
  | .group inner => onGroup (fold inner)
  | .array element => onArray (fold element)
  | .applied s arguments => onApplied s (foldAll arguments)

def foldAll : List GenericType → List α
  | [] => []
  | w :: ws => fold w :: foldAll ws

end

theorem foldAll_eq_map (ws : List GenericType) :
    foldAll onName onUnion onGroup onArray onApplied ws = ws.map (fold onName onUnion onGroup onArray onApplied) := by
  induction ws with
  | nil => rfl
  | cons w ws ih => rw [foldAll, ih, List.map_cons]

theorem fold_union (members : List GenericType) : fold onName onUnion onGroup onArray onApplied (.union members) =
    onUnion (members.map (fold onName onUnion onGroup onArray onApplied)) := by
  rw [fold, foldAll_eq_map]

theorem fold_applied (s : String) (arguments : List GenericType) :
    fold onName onUnion onGroup onArray onApplied (.applied s arguments) =
      onApplied s (arguments.map (fold onName onUnion onGroup onArray onApplied)) := by
  rw [fold, foldAll_eq_map]

end

/-- What holds of names, and of all other types whenever it holds of what they are made of, holds of every type. -/
@[elab_as_elim] theorem induction {P : GenericType → Prop} (name : ∀ s, P (.name s))
    (union : ∀ members, (∀ w ∈ members, P w) → P (.union members)) (group : ∀ w, P w → P (.group w))
    (array : ∀ w, P w → P (.array w)) (applied : ∀ s arguments, (∀ w ∈ arguments, P w) → P (.applied s arguments)) :
    ∀ w, P w
  | .name s => name s
  | .union members => union members fun w _ => induction name union group array applied w
  | .group w => group w (induction name union group array applied w)
  | .array w => array w (induction name union group array applied w)
  | .applied s arguments => applied s arguments fun w _ => induction name union group array applied w
termination_by w => sizeOf w
decreasing_by
  · have := List.sizeOf_lt_of_mem ‹_›
    simp only [GenericType.union.sizeOf_spec]
    omega
  · simp only [GenericType.group.sizeOf_spec]
    omega
  · simp only [GenericType.array.sizeOf_spec]
    omega
  · have := List.sizeOf_lt_of_mem ‹_›
    simp only [GenericType.applied.sizeOf_spec]
    omega

/-- Arguments with commas between them. -/
def listed (arguments : List (List Char)) : List Char :=
  [',', ' '].intercalate arguments

/-- The type as it is written. -/
def chars : GenericType → List Char :=
  fold String.toList TypeText.joined (fun cs => '(' :: (cs ++ [')'])) (· ++ ['[', ']'])
    fun s arguments => s.toList ++ '<' :: (listed arguments ++ ['>'])

/-- The names in a type, in the order in which they are written. -/
def names : GenericType → List String :=
  fold (fun s => [s]) List.flatten id id fun s arguments => s :: arguments.flatten

/-- The type with `f` applied to its names. -/
def replace (f : String → String) : GenericType → GenericType :=
  fold (fun s => .name (f s)) .union .group .array fun s arguments => .applied (f s) arguments

/-- The type without its names. -/
def shape : GenericType → GenericType :=
  replace fun _ => ""

/-- Every union in the type stands in parentheses. -/
def isClosed : GenericType → Bool :=
  fold (fun _ => true) (fun _ => false) (fun _ => true) id fun _ arguments => arguments.all id

/-- Every name is applied to one argument at most. -/
def isUnary : GenericType → Bool :=
  fold (fun _ => true) (·.all id) id id fun _ arguments => arguments.length == 1 && arguments.all id

/-- No name is applied to anything. -/
def isPlain : GenericType → Bool :=
  fold (fun _ => true) (·.all id) id id fun _ _ => false

section

variable (f : String → String) (s : String) (ws : List GenericType) (w : GenericType)

@[simp] theorem chars_name : (name s).chars = s.toList := rfl

@[simp] theorem chars_union : (union ws).chars = TypeText.joined (ws.map chars) := fold_union ..

@[simp] theorem chars_group : (group w).chars = '(' :: (w.chars ++ [')']) := rfl

@[simp] theorem chars_array : (array w).chars = w.chars ++ ['[', ']'] := rfl

@[simp] theorem chars_applied : (applied s ws).chars = s.toList ++ '<' :: (listed (ws.map chars) ++ ['>']) :=
  fold_applied ..

@[simp] theorem names_name : (name s).names = [s] := rfl

@[simp] theorem names_union : (union ws).names = ws.flatMap names := fold_union ..

@[simp] theorem names_group : (group w).names = w.names := rfl

@[simp] theorem names_array : (array w).names = w.names := rfl

@[simp] theorem names_applied : (applied s ws).names = s :: ws.flatMap names := fold_applied ..

@[simp] theorem replace_name : (name s).replace f = name (f s) := rfl

@[simp] theorem replace_union : (union ws).replace f = union (ws.map (replace f)) := fold_union ..

@[simp] theorem replace_group : (group w).replace f = group (w.replace f) := rfl

@[simp] theorem replace_array : (array w).replace f = array (w.replace f) := rfl

@[simp] theorem replace_applied : (applied s ws).replace f = applied (f s) (ws.map (replace f)) := fold_applied ..

@[simp] theorem isClosed_name : (name s).isClosed = true := rfl

@[simp] theorem isClosed_union : (union ws).isClosed = false := rfl

@[simp] theorem isClosed_group : (group w).isClosed = true := rfl

@[simp] theorem isClosed_array : (array w).isClosed = w.isClosed := rfl

@[simp] theorem isClosed_applied : (applied s ws).isClosed = ws.all isClosed := by
  unfold isClosed
  rw [fold_applied, List.all_map]
  rfl

@[simp] theorem isUnary_name : (name s).isUnary = true := rfl

@[simp] theorem isUnary_union : (union ws).isUnary = ws.all isUnary := by
  unfold isUnary
  rw [fold_union, List.all_map]
  rfl

@[simp] theorem isUnary_group : (group w).isUnary = w.isUnary := rfl

@[simp] theorem isUnary_array : (array w).isUnary = w.isUnary := rfl

@[simp] theorem isUnary_applied : (applied s ws).isUnary = (ws.length == 1 && ws.all isUnary) := by
  unfold isUnary
  rw [fold_applied, List.length_map, List.all_map]
  rfl

@[simp] theorem isPlain_name : (name s).isPlain = true := rfl

@[simp] theorem isPlain_union : (union ws).isPlain = ws.all isPlain := by
  unfold isPlain
  rw [fold_union, List.all_map]
  rfl

@[simp] theorem isPlain_group : (group w).isPlain = w.isPlain := rfl

@[simp] theorem isPlain_array : (array w).isPlain = w.isPlain := rfl

@[simp] theorem isPlain_applied : (applied s ws).isPlain = false := rfl

end

/-! ### Well-formed types -/

/-- The characters that give a type its structure. -/
def marks : List Char :=
  ['|', '(', ')', '[', ']', '<', '>', ',']

/-- A character of a name. -/
def IsNameChar (c : Char) : Prop :=
  isBlank c = false ∧ c ∉ marks

instance : DecidablePred IsNameChar := fun c => inferInstanceAs (Decidable (isBlank c = false ∧ c ∉ marks))

/-- A name in a type. -/
structure IsTypeName (s : String) : Prop where
  nonempty : s ≠ ""
  plain : ∀ c ∈ s.toList, IsNameChar c

theorem isTypeName_iff {s : String} :
    IsTypeName s ↔ s ≠ "" ∧ s.toList.all (fun c => decide (IsNameChar c)) = true := by
  rw [List.all_eq_true]
  simp only [decide_eq_true_eq]
  exact ⟨fun h => ⟨h.nonempty, h.plain⟩, fun h => ⟨h.1, h.2⟩⟩

instance : DecidablePred IsTypeName := fun _ => decidable_of_iff _ isTypeName_iff.symm

/-- A type with names in all places for names, several members in a union, and arguments wherever a name is applied. -/
inductive WellFormed : GenericType → Prop where
  | name {s : String} (named : IsTypeName s) : WellFormed (.name s)
  | union {members : List GenericType} (several : 2 ≤ members.length) (h : ∀ w ∈ members, WellFormed w) :
    WellFormed (.union members)
  | group {w : GenericType} (h : WellFormed w) : WellFormed (.group w)
  | array {w : GenericType} (h : WellFormed w) : WellFormed (.array w)
  | applied {s : String} {arguments : List GenericType} (named : IsTypeName s) (nonempty : arguments ≠ [])
    (h : ∀ w ∈ arguments, WellFormed w) : WellFormed (.applied s arguments)

/-! ### Phrases -/

/-- What the text of every type has in common: its parentheses are paired, and an angle bracket opens only behind a
name. -/
structure IsPhrase (cs : List Char) : Prop where
  nonempty : cs ≠ []
  trimmed : Trimmed cs
  depth : ∀ d, TypeText.depthOf d cs = d
  /-- Nothing is exposed inside parentheses. -/
  inside : ∀ d, 0 < d → TypeText.Whole d cs
  opens : cs.head? ≠ some '<'
  behind : cs.IsChain fun a b => b = '<' → IsNameChar a

variable {a b cs : List Char} {s : String} {w : GenericType} {ws : List GenericType}

/-- Bars are not exposed at a positive depth. -/
private theorem whole_plain (hplain : ∀ c ∈ cs, c ≠ '(' ∧ c ≠ ')') {d : Nat} (hd : 0 < d) : TypeText.Whole d cs := by
  induction cs with
  | nil => trivial
  | cons c cs ih =>
    obtain ⟨⟨hopen, hclose⟩, hcs⟩ := List.forall_mem_cons.1 hplain
    have hc : TypeText.depthAfter d c = d := by simp [TypeText.depthAfter, hopen, hclose]
    exact ⟨fun hbar => Nat.ne_of_gt hd hbar.2, by rw [hc]; exact ih hcs⟩

private theorem isChain_of_not_mem (h : '<' ∉ cs) : cs.IsChain fun a b => b = '<' → IsNameChar a := by
  refine (List.pairwise_of_forall_mem_list ?_).isChain
  rintro a - b hb rfl
  exact absurd hb h

theorem IsNameChar.ne {c m : Char} (h : IsNameChar c) (hm : m ∈ marks) : c ≠ m := by
  rintro rfl
  exact h.2 hm

namespace IsTypeName

theorem toList_ne_nil (h : IsTypeName s) : s.toList ≠ [] :=
  fun h0 => h.nonempty (String.toList_eq_nil_iff.1 h0)

theorem mark_not_mem (h : IsTypeName s) {m : Char} (hm : m ∈ marks) : m ∉ s.toList :=
  fun hc => (h.plain m hc).2 hm

theorem whole (h : IsTypeName s) (d : Nat) : TypeText.Whole d s.toList :=
  TypeText.whole_of_no_bar (fun c hc => (h.plain c hc).ne (by decide)) d

theorem depthOf_eq (h : IsTypeName s) (d : Nat) : TypeText.depthOf d s.toList = d :=
  TypeText.depthOf_plain (fun c hc => ⟨(h.plain c hc).ne (by decide), (h.plain c hc).ne (by decide)⟩) d

theorem isPhrase (h : IsTypeName s) : IsPhrase s.toList where
  nonempty := h.toList_ne_nil
  trimmed := ⟨fun c hc => (h.plain c (List.mem_of_head? hc)).1, fun c hc => (h.plain c (List.mem_of_getLast? hc)).1⟩
  depth := h.depthOf_eq
  inside := fun d _ => h.whole d
  opens := fun hopen => h.mark_not_mem (by decide) (List.mem_of_head? hopen)
  behind := isChain_of_not_mem (h.mark_not_mem (by decide))

end IsTypeName

/-- Separators put two phrases together. -/
theorem IsPhrase.join (ha : IsPhrase a) (hb : IsPhrase b) {sep : List Char}
    (hplain : ∀ c ∈ sep, c ≠ '(' ∧ c ≠ ')') (hopen : '<' ∉ sep) : IsPhrase (a ++ sep ++ b) where
  nonempty := by simp [ha.nonempty]
  trimmed := ha.trimmed.append ha.nonempty hb.trimmed hb.nonempty sep
  depth := fun d => by
    rw [TypeText.depthOf_append, TypeText.depthOf_append, ha.depth, TypeText.depthOf_plain hplain, hb.depth]
  inside := fun d hd => by
    rw [TypeText.whole_append, TypeText.whole_append, TypeText.depthOf_append, ha.depth, TypeText.depthOf_plain hplain]
    exact ⟨⟨ha.inside d hd, whole_plain hplain hd⟩, hb.inside d hd⟩
  opens := by
    rw [List.append_assoc, List.head?_append_of_ne_nil _ ha.nonempty]
    exact ha.opens
  behind := by
    rw [List.isChain_append, List.isChain_append]
    refine ⟨⟨ha.behind, isChain_of_not_mem hopen, ?_⟩, hb.behind, ?_⟩
    · rintro c - d hd rfl
      exact absurd (List.mem_of_head? hd) hopen
    · rintro c - d hd rfl
      exact absurd hd hb.opens

theorem isPhrase_joined {parts : List (List Char)} (hne : parts ≠ []) (h : ∀ p ∈ parts, IsPhrase p) :
    IsPhrase (TypeText.joined parts) :=
  intercalate_induction hne h fun _ _ ha hb => ha.join hb (by simp) (by decide)

theorem isPhrase_listed {parts : List (List Char)} (hne : parts ≠ []) (h : ∀ p ∈ parts, IsPhrase p) :
    IsPhrase (listed parts) :=
  intercalate_induction hne h fun _ _ ha hb => ha.join hb (by simp) (by decide)

theorem IsPhrase.group (h : IsPhrase cs) : IsPhrase ('(' :: (cs ++ [')'])) where
  nonempty := List.cons_ne_nil _ _
  trimmed := Trimmed.cons rfl (trimmed_singleton rfl) (List.cons_ne_nil _ _) cs
  depth := fun d => by
    have hopen : TypeText.depthAfter d '(' = d + 1 := rfl
    rw [TypeText.depthOf_cons, hopen, TypeText.depthOf_append, h.depth]
    rfl
  inside := fun d hd => by
    have hopen : TypeText.depthAfter d '(' = d + 1 := rfl
    refine ⟨by simp, ?_⟩
    rw [hopen, TypeText.whole_append]
    exact ⟨h.inside _ (Nat.succ_pos d), TypeText.whole_of_no_bar (by simp) _⟩
  opens := by simp
  behind := by
    rw [List.isChain_cons, List.head?_append_of_ne_nil _ h.nonempty, List.isChain_append]
    refine ⟨?_, h.behind, isChain_of_not_mem (by decide), by simp⟩
    rintro c hc rfl
    exact absurd hc h.opens

theorem IsPhrase.array (h : IsPhrase cs) : IsPhrase (cs ++ ['[', ']']) := by
  have hbrackets : IsPhrase ['[', ']'] := {
    nonempty := List.cons_ne_nil _ _
    trimmed := Trimmed.cons rfl (trimmed_singleton rfl) (List.cons_ne_nil _ _) []
    depth := fun _ => rfl
    inside := fun _ _ => TypeText.whole_of_no_bar (by simp) _
    opens := by decide
    behind := isChain_of_not_mem (by decide) }
  have hjoin : IsPhrase (cs ++ [] ++ ['[', ']']) := h.join hbrackets nofun List.not_mem_nil
  rwa [List.append_nil] at hjoin

theorem IsPhrase.applied (hs : IsTypeName s) (h : IsPhrase cs) : IsPhrase (s.toList ++ '<' :: (cs ++ ['>'])) where
  nonempty := by simp
  trimmed := by
    have htrim := hs.isPhrase.trimmed.append hs.toList_ne_nil (trimmed_singleton (c := '>') rfl) (by simp) ('<' :: cs)
    simpa using htrim
  depth := fun d => by
    have hopen : TypeText.depthAfter d '<' = d := rfl
    rw [TypeText.depthOf_append, hs.depthOf_eq, TypeText.depthOf_cons, hopen, TypeText.depthOf_append, h.depth]
    rfl
  inside := fun d hd => by
    have hopen : TypeText.depthAfter d '<' = d := rfl
    rw [TypeText.whole_append, hs.depthOf_eq]
    refine ⟨hs.whole d, by simp, ?_⟩
    rw [hopen, TypeText.whole_append]
    exact ⟨h.inside d hd, TypeText.whole_of_no_bar (by simp) _⟩
  opens := by
    rw [List.head?_append_of_ne_nil _ hs.toList_ne_nil]
    exact hs.isPhrase.opens
  behind := by
    rw [List.isChain_append, List.isChain_cons, List.head?_append_of_ne_nil _ h.nonempty, List.isChain_append]
    refine ⟨hs.isPhrase.behind, ⟨?_, h.behind, isChain_of_not_mem (by decide), by simp⟩, ?_⟩
    · rintro c hc rfl
      exact absurd hc h.opens
    · rintro c hc - - -
      exact hs.plain c (List.mem_of_getLast? hc)

theorem WellFormed.isPhrase (h : w.WellFormed) : IsPhrase w.chars := by
  induction h with
  | name hs => exact hs.isPhrase
  | union hlen _ ih =>
    rw [chars_union]
    refine isPhrase_joined (fun hnil => ?_) (List.forall_mem_map.2 ih)
    rw [List.map_eq_nil_iff.1 hnil] at hlen
    simp at hlen
  | group _ ih => exact ih.group
  | array _ ih => exact ih.array
  | applied hs hne _ ih =>
    rw [chars_applied]
    exact (isPhrase_listed (by simpa using hne) (List.forall_mem_map.2 ih)).applied hs

/-! ### Exposed bars -/

theorem whole_listed {parts : List (List Char)} (h : ∀ p ∈ parts, IsPhrase p) :
    TypeText.Whole 0 (listed parts) ↔ ∀ p ∈ parts, TypeText.Whole 0 p := by
  induction parts with
  | nil => simp [listed, TypeText.Whole]
  | cons p ps ih =>
    obtain ⟨hp, hps⟩ := List.forall_mem_cons.1 h
    cases ps with
    | nil => simp [listed]
    | cons q qs =>
      have hsep : TypeText.Whole 0 [',', ' '] ∧ TypeText.depthOf 0 [',', ' '] = 0 :=
        ⟨TypeText.whole_of_no_bar (by simp) 0, rfl⟩
      rw [List.forall_mem_cons, ← ih hps]
      unfold listed
      rw [List.intercalate_cons_cons, TypeText.whole_append, TypeText.whole_append, TypeText.depthOf_append, hp.depth,
        hsep.2]
      simp [hsep.1]

/-- The opening of an application exposes no bar and leaves no parenthesis open. -/
theorem IsTypeName.opening (hs : IsTypeName s) :
    TypeText.Whole 0 (s.toList ++ ['<']) ∧ TypeText.depthOf 0 (s.toList ++ ['<']) = 0 := by
  rw [TypeText.whole_append, TypeText.depthOf_append, hs.depthOf_eq]
  exact ⟨⟨hs.whole 0, TypeText.whole_of_no_bar (by simp) 0⟩, rfl⟩

theorem whole_applied (hs : IsTypeName s) {parts : List (List Char)} (hne : parts ≠ []) (h : ∀ p ∈ parts, IsPhrase p) :
    TypeText.Whole 0 (s.toList ++ '<' :: (listed parts ++ ['>'])) ↔ ∀ p ∈ parts, TypeText.Whole 0 p := by
  have hclose : TypeText.Whole 0 ['>'] := TypeText.whole_of_no_bar (by simp) 0
  have hargs : TypeText.Whole 0 (listed parts ++ ['>']) ↔ ∀ p ∈ parts, TypeText.Whole 0 p := by
    rw [TypeText.whole_append, (isPhrase_listed hne h).depth, whole_listed h]
    exact and_iff_left hclose
  rw [List.append_cons, TypeText.whole_append, hs.opening.2, hargs]
  exact and_iff_right hs.opening.1

/-- A union exposes the bar behind its first member. -/
theorem not_whole_joined {p q : List Char} {ps : List (List Char)} (hp : IsPhrase p) :
    ¬ TypeText.Whole 0 (TypeText.joined (p :: q :: ps)) := by
  rw [TypeText.joined_cons_cons, TypeText.whole_append, hp.depth]
  exact fun h => h.2.1 ⟨rfl, rfl⟩

/-- A bar is exposed just where a union stands outside all parentheses, whatever angle brackets are around it. -/
theorem whole_chars_iff (h : w.WellFormed) : TypeText.Whole 0 w.chars ↔ w.isClosed = true := by
  induction h with
  | name hs => simp [hs.whole 0]
  | @union members hlen hws _ =>
    match members, hlen with
    | v :: v' :: vs, _ =>
      have hv := (hws v List.mem_cons_self).isPhrase
      simpa using not_whole_joined hv
  | group h _ =>
    have hopen : TypeText.depthAfter 0 '(' = 1 := rfl
    rw [chars_group, TypeText.Whole, hopen, TypeText.whole_append, h.isPhrase.depth]
    simp [h.isPhrase.inside 1 Nat.one_pos, TypeText.Whole]
  | @array w h ih =>
    have hbrackets : TypeText.Whole 0 ['[', ']'] := TypeText.whole_of_no_bar (by simp) 0
    rw [chars_array, TypeText.whole_append, h.isPhrase.depth, ih, isClosed_array]
    simp [hbrackets]
  | @applied s arguments hs hne hws ih =>
    have hphrases : ∀ p ∈ arguments.map chars, IsPhrase p := List.forall_mem_map.2 fun v hv => (hws v hv).isPhrase
    rw [chars_applied, whole_applied hs (by simpa using hne) hphrases, List.forall_mem_map, isClosed_applied,
      List.all_eq_true]
    exact forall₂_congr ih

/-! ### Commas -/

theorem comma_mem_joined {parts : List (List Char)} :
    ',' ∈ TypeText.joined parts ↔ ∃ p ∈ parts, ',' ∈ p :=
  ⟨fun h => (mem_intercalate h).resolve_left (by decide), fun ⟨_, hp, hc⟩ => subset_intercalate hp hc⟩

theorem comma_mem_listed {parts : List (List Char)} (hne : parts ≠ []) :
    ',' ∈ listed parts ↔ parts.length ≠ 1 ∨ ∃ p ∈ parts, ',' ∈ p := by
  match parts, hne with
  | [p], _ => simp [listed]
  | p :: q :: ps, _ => simp [listed]

private theorem exists_comma_iff (h : ∀ v ∈ ws, ',' ∈ v.chars ↔ v.isUnary = false) :
    (∃ p ∈ ws.map chars, ',' ∈ p) ↔ ws.all isUnary = false := by
  rw [List.all_eq_false]
  constructor
  · rintro ⟨p, hp, hc⟩
    obtain ⟨v, hv, rfl⟩ := List.mem_map.1 hp
    exact ⟨v, hv, by simpa using (h v hv).1 hc⟩
  · rintro ⟨v, hv, hunary⟩
    exact ⟨v.chars, List.mem_map_of_mem hv, (h v hv).2 (by simpa using hunary)⟩

/-- A comma stands in a type just where a name is applied to several arguments. -/
theorem comma_mem_chars_iff (h : w.WellFormed) : ',' ∈ w.chars ↔ w.isUnary = false := by
  induction h with
  | name hs => simpa using hs.mark_not_mem (by decide)
  | union _ _ ih =>
    rw [chars_union, isUnary_union, comma_mem_joined, exists_comma_iff ih]
  | group _ ih => simpa using ih
  | array _ ih => simpa using ih
  | @applied s arguments hs hne _ ih =>
    have hname : ',' ∉ s.toList := hs.mark_not_mem (by decide)
    have hlist : ',' ∈ listed (arguments.map chars) ↔ arguments.length ≠ 1 ∨ arguments.all isUnary = false := by
      rw [comma_mem_listed (by simpa using hne), List.length_map, exists_comma_iff ih]
    rw [chars_applied, isUnary_applied, Bool.and_eq_false_iff, beq_eq_false_iff_ne, ← hlist]
    simp [hname]

/-! ### Names -/

/-- A character of a type belongs to a name, is a mark, or is the blank behind a comma. -/
theorem mem_chars {c : Char} (h : c ∈ w.chars) : c = ' ' ∨ c ∈ marks ∨ ∃ s ∈ w.names, c ∈ s.toList := by
  induction w using GenericType.induction with
  | name s => exact Or.inr (Or.inr ⟨s, List.mem_singleton_self s, h⟩)
  | union members ih =>
    rw [chars_union] at h
    rcases mem_intercalate h with hbar | ⟨p, hp, hc⟩
    · rw [List.mem_singleton.1 hbar]
      exact Or.inr (Or.inl (by decide))
    · obtain ⟨v, hv, rfl⟩ := List.mem_map.1 hp
      refine (ih v hv hc).imp_right (Or.imp_right ?_)
      rintro ⟨s, hs, hcs⟩
      exact ⟨s, by rw [names_union]; exact List.mem_flatMap_of_mem hv hs, hcs⟩
  | group v ih =>
    rw [chars_group, List.mem_cons, List.mem_append, List.mem_singleton] at h
    rcases h with rfl | h | rfl
    · exact Or.inr (Or.inl (by decide))
    · exact ih h
    · exact Or.inr (Or.inl (by decide))
  | array v ih =>
    rw [chars_array, List.mem_append] at h
    rcases h with h | h
    · exact ih h
    · have hmarks : ['[', ']'] ⊆ marks := by decide
      exact Or.inr (Or.inl (hmarks h))
  | applied s arguments ih =>
    rw [chars_applied, List.mem_append, List.mem_cons, List.mem_append, List.mem_singleton] at h
    rcases h with h | rfl | h | rfl
    · exact Or.inr (Or.inr ⟨s, by rw [names_applied]; exact List.mem_cons_self, h⟩)
    · exact Or.inr (Or.inl (by decide))
    · rcases mem_intercalate h with hsep | ⟨p, hp, hc⟩
      · rcases List.mem_cons.1 hsep with rfl | hblank
        · exact Or.inr (Or.inl (by decide))
        · exact Or.inl (List.mem_singleton.1 hblank)
      · obtain ⟨v, hv, rfl⟩ := List.mem_map.1 hp
        refine (ih v hv hc).imp_right (Or.imp_right ?_)
        rintro ⟨t, ht, hct⟩
        exact ⟨t, by rw [names_applied]; exact List.mem_cons_of_mem s (List.mem_flatMap_of_mem hv ht), hct⟩
    · exact Or.inr (Or.inl (by decide))

theorem exists_name_of_mem_listed {c : Char} (h : c ∈ listed (ws.map chars)) (hc : IsNameChar c) :
    ∃ w ∈ ws, ∃ s ∈ w.names, c ∈ s.toList := by
  have hsep : ∀ m ∈ [',', ' '], ¬ IsNameChar m := by simp [IsNameChar, isBlank, marks]
  obtain ⟨p, hp, hcp⟩ := (mem_intercalate h).resolve_left fun hs => hsep c hs hc
  obtain ⟨w, hw, rfl⟩ := List.mem_map.1 hp
  rcases mem_chars hcp with rfl | hmark | hname
  · exact absurd hc (by decide)
  · exact absurd hmark hc.2
  · exact ⟨w, hw, hname⟩

/-- Without applications there are no angle brackets. -/
theorem angle_not_mem_chars (h : w.WellFormed) (hw : w.isPlain = true) {m : Char} (hm : m = '<' ∨ m = '>') :
    m ∉ w.chars := by
  have hmark : m ∈ marks ∧ m ∉ ['|', '(', ')', '[', ']'] := by
    rcases hm with rfl | rfl <;> decide
  induction h with
  | name hs => exact hs.mark_not_mem hmark.1
  | union _ _ ih =>
    rw [isPlain_union, List.all_eq_true] at hw
    rw [chars_union]
    refine not_mem_intercalate (fun hbar => hmark.2 ?_) (List.forall_mem_map.2 fun v hv => ih v hv (hw v hv))
    rw [List.mem_singleton.1 hbar]
    decide
  | group _ ih =>
    have hmem := ih hw
    simp only [List.mem_cons, not_or] at hmark
    simp [hmem, hmark]
  | array _ ih =>
    have hmem := ih hw
    simp only [List.mem_cons, not_or] at hmark
    simp [hmem, hmark]
  | applied => cases hw

/-! ### Shapes -/

theorem fold_replace {α : Type} (onName : String → α) (onUnion : List α → α) (onGroup onArray : α → α)
    (onApplied : String → List α → α) (f : String → String) (w : GenericType) :
    fold onName onUnion onGroup onArray onApplied (w.replace f) =
      fold (fun s => onName (f s)) onUnion onGroup onArray (fun s => onApplied (f s)) w := by
  induction w using GenericType.induction with
  | name s => rfl
  | union members ih =>
    rw [replace_union, fold_union, fold_union, List.map_map]
    exact congrArg onUnion (List.map_congr_left ih)
  | group w ih => exact congrArg onGroup ih
  | array w ih => exact congrArg onArray ih
  | applied s arguments ih =>
    rw [replace_applied, fold_applied, fold_applied, List.map_map]
    exact congrArg (onApplied (f s)) (List.map_congr_left ih)

theorem shape_union (ws : List GenericType) : (union ws).shape = union (ws.map shape) :=
  replace_union _ ws

theorem shape_applied (s : String) (ws : List GenericType) : (applied s ws).shape = applied "" (ws.map shape) :=
  replace_applied _ s ws

theorem isClosed_shape (w : GenericType) : w.shape.isClosed = w.isClosed :=
  fold_replace ..

theorem isUnary_shape (w : GenericType) : w.shape.isUnary = w.isUnary :=
  fold_replace ..

theorem names_replace (f : String → String) (w : GenericType) : (w.replace f).names = w.names.map f := by
  induction w using GenericType.induction with
  | name s => rfl
  | union members ih =>
    rw [replace_union, names_union, names_union, List.flatMap_map, List.map_flatMap]
    exact List.flatMap_congr ih
  | group w ih => exact ih
  | array w ih => exact ih
  | applied s arguments ih =>
    rw [replace_applied, names_applied, names_applied, List.flatMap_map, List.map_cons, List.map_flatMap]
    exact congrArg (f s :: ·) (List.flatMap_congr ih)

theorem WellFormed.replace (h : w.WellFormed) {f : String → String} (hf : ∀ s, IsTypeName (f s)) :
    (w.replace f).WellFormed := by
  induction h with
  | name => exact .name (hf _)
  | union hlen _ ih =>
    rw [replace_union]
    exact .union (by simpa using hlen) (List.forall_mem_map.2 ih)
  | group _ ih => exact .group ih
  | array _ ih => exact .array ih
  | applied _ hne _ ih =>
    rw [replace_applied]
    exact .applied (hf _) (by simpa using hne) (List.forall_mem_map.2 ih)

/-- The type with the same name in all places. -/
def uniform : GenericType → GenericType :=
  replace fun _ => "_"

theorem map_shape_uniform (ws : List GenericType) : (ws.map uniform).map shape = ws.map shape := by
  rw [List.map_map]
  exact List.map_congr_left fun _ _ => fold_replace ..

theorem WellFormed.uniform (h : w.WellFormed) : w.uniform.WellFormed :=
  h.replace fun _ => by decide

theorem eq_of_mem_names_uniform (h : s ∈ w.uniform.names) : s = "_" := by
  rw [uniform, names_replace, List.map_const'] at h
  exact List.eq_of_mem_replicate h

theorem eq_of_mem_flatMap_names_uniform (h : s ∈ (ws.map uniform).flatMap names) : s = "_" := by
  obtain ⟨v, hv, hs⟩ := List.mem_flatMap.1 h
  obtain ⟨u, -, rfl⟩ := List.mem_map.1 hv
  exact eq_of_mem_names_uniform hs

theorem not_mem_chars_uniform (w : GenericType) : 'é' ∉ w.uniform.chars := by
  intro h
  rcases mem_chars h with hblank | hmark | ⟨s, hs, hc⟩
  · exact absurd hblank (by decide)
  · exact absurd hmark (by decide)
  · rw [eq_of_mem_names_uniform hs] at hc
    exact absurd hc (by decide)

theorem not_mem_chars_map_uniform : ∀ p ∈ (ws.map uniform).map chars, 'é' ∉ p :=
  List.forall_mem_map.2 (List.forall_mem_map.2 fun w _ => not_mem_chars_uniform w)

/-- The text has its only `é` before all commas. -/
def Marked (cs : List Char) : Prop :=
  ∃ before after, cs = before ++ 'é' :: after ∧ ',' ∉ before ∧ 'é' ∉ after

theorem Marked.cons (h : Marked cs) {c : Char} (hc : ',' ≠ c) : Marked (c :: cs) := by
  obtain ⟨before, after, rfl, hbefore, hafter⟩ := h
  exact ⟨c :: before, after, rfl, by simp [hc, hbefore], hafter⟩

theorem Marked.append (h : Marked a) (hb : 'é' ∉ b) : Marked (a ++ b) := by
  obtain ⟨before, after, rfl, hbefore, hafter⟩ := h
  exact ⟨before, after ++ b, by simp, hbefore, by simp [hafter, hb]⟩

theorem Marked.joined {p : List Char} {ps : List (List Char)} (hp : Marked p) (hps : ∀ q ∈ ps, 'é' ∉ q) :
    Marked (TypeText.joined (p :: ps)) := by
  cases ps with
  | nil => rwa [TypeText.joined_singleton]
  | cons q qs =>
    rw [TypeText.joined_cons_cons]
    refine hp.append ?_
    rw [List.mem_cons, not_or]
    exact ⟨by decide, not_mem_intercalate (by decide) hps⟩

/-- Every shape has a type whose first name is unlike all the others. -/
theorem exists_marked (h : w.WellFormed) : ∃ v : GenericType, v.WellFormed ∧ v.shape = w.shape ∧
    v.names.head? = some "é" ∧ (∀ s ∈ v.names, s = "é" ∨ s = "_") ∧ Marked v.chars := by
  have hnamed : IsTypeName "é" := by decide
  induction h with
  | name => exact ⟨.name "é", .name hnamed, rfl, rfl, by simp, [], [], rfl, by simp, by simp⟩
  | @union members hlen hws ih =>
    match members, hlen with
    | v :: vs, hlen =>
      obtain ⟨v', hv', hshape, hfirst, hnames, hmarked⟩ := ih v List.mem_cons_self
      refine ⟨.union (v' :: vs.map uniform), .union (by simpa using hlen) ?_, ?_, ?_, ?_, ?_⟩
      · rw [List.forall_mem_cons, List.forall_mem_map]
        exact ⟨hv', fun u hu => (hws u (List.mem_cons_of_mem v hu)).uniform⟩
      · rw [shape_union, shape_union, List.map_cons, List.map_cons, hshape, map_shape_uniform]
      · simp [hfirst]
      · rw [names_union, List.flatMap_cons, List.forall_mem_append]
        exact ⟨hnames, fun s hs => Or.inr (eq_of_mem_flatMap_names_uniform hs)⟩
      · rw [chars_union, List.map_cons]
        exact hmarked.joined not_mem_chars_map_uniform
  | group _ ih =>
    obtain ⟨v', hv', hshape, hfirst, hnames, hmarked⟩ := ih
    exact ⟨.group v', .group hv', congrArg GenericType.group hshape, hfirst, hnames,
      (hmarked.append (b := [')']) (by decide)).cons (by decide)⟩
  | array _ ih =>
    obtain ⟨v', hv', hshape, hfirst, hnames, hmarked⟩ := ih
    exact ⟨.array v', .array hv', congrArg GenericType.array hshape, hfirst, hnames, hmarked.append (by decide)⟩
  | @applied s arguments _ hne hws _ =>
    refine ⟨.applied "é" (arguments.map uniform), .applied hnamed (by simpa using hne) ?_, ?_, ?_, ?_, ?_⟩
    · exact List.forall_mem_map.2 fun u hu => (hws u hu).uniform
    · rw [shape_applied, shape_applied, map_shape_uniform]
    · simp
    · rw [names_applied, List.forall_mem_cons]
      exact ⟨Or.inl rfl, fun s hs => Or.inr (eq_of_mem_flatMap_names_uniform hs)⟩
    · refine ⟨[], _, chars_applied .., by simp, ?_⟩
      have hlisted : 'é' ∉ listed ((arguments.map uniform).map chars) :=
        not_mem_intercalate (by decide) not_mem_chars_map_uniform
      simpa using hlisted

end GenericType

end CodeAtlas
