import CodeAtlas.Proofs.TypeReading

/-!
# The grammar of types

A part of a type is a name, or a type in parentheses, with pairs of brackets after it (`IsPart`), and a type is a
union of distinct parts.  Whatever the nesting, a part closes every parenthesis that it opens, so the depth after it is
the one before it (`IsLoosePart.depthOf_eq`) and its bars stand inside (`IsLoosePart.whole`).  A well-formed type is therefore
read back from its text.  It is also the element type of its arrays, unless it is a single group: there the parentheses
are taken for those that arrays of unions have.
-/

namespace CodeAtlas.TypeText

open Text

/-- A name in the text of a type. -/
structure IsAtom (s : String) : Prop where
  nonempty : s ≠ ""
  plain : ∀ c ∈ s.toList, isBlank c = false ∧ c ∉ ['|', '(', ')', '[', ']']
  unmarked : beginsWith s "?" = false

/-- A part of a well-formed type. -/
inductive IsPart : String → Prop where
  | atom {s : String} (h : IsAtom s) : IsPart s
  | group {parts : List String} (nonempty : parts ≠ []) (distinct : parts.Nodup) (h : ∀ part ∈ parts, IsPart part) :
    IsPart ("(" ++ "|".intercalate parts ++ ")")
  | array {s : String} (h : IsPart s) : IsPart (s ++ "[]")

/-- A part whose groups may be empty and repeat their parts. -/
inductive IsLoosePart : String → Prop where
  | atom {s : String} (h : IsAtom s) : IsLoosePart s
  | group {parts : List String} (h : ∀ part ∈ parts, IsLoosePart part) :
    IsLoosePart ("(" ++ "|".intercalate parts ++ ")")
  | array {s : String} (h : IsLoosePart s) : IsLoosePart (s ++ "[]")

theorem IsPart.loose {part : String} (h : IsPart part) : IsLoosePart part := by
  induction h with
  | atom h => exact .atom h
  | group _ _ _ ih => exact .group ih
  | array _ ih => exact .array ih

structure WellFormed (t : TypeText) : Prop where
  nonempty : t.parts ≠ []
  distinct : t.parts.Nodup
  isPart : ∀ part ∈ t.parts, IsPart part

/-- The type is one type in parentheses and nothing else. -/
def IsGroup (t : TypeText) : Prop :=
  ∃ u : TypeText, u.WellFormed ∧ t.parts = ["(" ++ u.text ++ ")"]

/-! ### Depth -/

theorem depthOf_append (depth : Nat) (a b : List Char) : depthOf depth (a ++ b) = depthOf (depthOf depth a) b :=
  List.foldl_append

theorem depthOf_cons (depth : Nat) (c : Char) (cs : List Char) :
    depthOf depth (c :: cs) = depthOf (depthAfter depth c) cs :=
  rfl

/-- Characters that are no parentheses keep the depth. -/
theorem depthOf_plain {cs : List Char} (h : ∀ c ∈ cs, c ≠ '(' ∧ c ≠ ')') (depth : Nat) : depthOf depth cs = depth := by
  induction cs with
  | nil => rfl
  | cons c cs ih =>
    obtain ⟨⟨hopen, hclose⟩, hcs⟩ := List.forall_mem_cons.1 h
    have hc : depthAfter depth c = depth := by simp [depthAfter, hopen, hclose]
    rw [depthOf_cons, hc, ih hcs]

theorem depthOf_joined {parts : List (List Char)} {depth : Nat} (h : ∀ p ∈ parts, depthOf depth p = depth) :
    depthOf depth (joined parts) = depth := by
  induction parts with
  | nil => rfl
  | cons p ps ih =>
    obtain ⟨hp, hps⟩ := List.forall_mem_cons.1 h
    cases ps with
    | nil => rw [joined_singleton, hp]
    | cons q qs =>
      have hbar : depthAfter depth '|' = depth := rfl
      rw [joined_cons_cons, depthOf_append, hp, depthOf_cons, hbar, ih hps]

/-- Inside parentheses no bar is exposed, neither in the parts nor between them. -/
theorem whole_joined {parts : List (List Char)} {depth : Nat} (hpos : 0 < depth) (hw : ∀ p ∈ parts, Whole 0 p)
    (hd : ∀ p ∈ parts, depthOf depth p = depth) : Whole depth (joined parts) := by
  induction parts with
  | nil => trivial
  | cons p ps ih =>
    obtain ⟨hp, hps⟩ := List.forall_mem_cons.1 hw
    obtain ⟨hpd, hpsd⟩ := List.forall_mem_cons.1 hd
    have hwhole : Whole depth p := hp.deeper (Nat.zero_le depth)
    cases ps with
    | nil => rwa [joined_singleton]
    | cons q qs =>
      rw [joined_cons_cons, whole_append, hpd]
      exact ⟨hwhole, fun hbar => Nat.ne_of_gt hpos hbar.2, ih hps hpsd⟩

theorem whole_of_no_bar {cs : List Char} (h : ∀ c ∈ cs, c ≠ '|') (depth : Nat) : Whole depth cs := by
  induction cs generalizing depth with
  | nil => trivial
  | cons c cs ih =>
    obtain ⟨hc, hcs⟩ := List.forall_mem_cons.1 h
    exact ⟨fun hbar => hc hbar.1, ih hcs _⟩

/-! ### Parts -/

theorem toList_group (parts : List String) :
    ("(" ++ "|".intercalate parts ++ ")").toList = '(' :: (joined (parts.map String.toList) ++ [')']) := by
  have hjoin := toList_text ⟨parts⟩
  unfold text at hjoin
  rw [String.toList_append, String.toList_append, hjoin]
  rfl

theorem toList_array (s : String) : (s ++ "[]").toList = s.toList ++ ['[', ']'] := by
  rw [String.toList_append]
  rfl

theorem isSuffixOf?_brackets (cs : List Char) : "[]".toList.isSuffixOf? (cs ++ ['[', ']']) = some cs :=
  List.isSuffixOf?_eq_some_iff_append_eq.2 rfl

/-- Characters of a joined text are bars or come from the parts. -/
theorem mem_joined {parts : List (List Char)} {c : Char} (h : c ∈ joined parts) : c = '|' ∨ ∃ p ∈ parts, c ∈ p := by
  induction parts with
  | nil => exact nomatch h
  | cons p ps ih =>
    cases ps with
    | nil =>
      rw [joined_singleton] at h
      exact Or.inr ⟨p, List.mem_cons_self, h⟩
    | cons q qs =>
      rw [joined_cons_cons, List.mem_append, List.mem_cons] at h
      rcases h with h | h | h
      · exact Or.inr ⟨p, List.mem_cons_self, h⟩
      · exact Or.inl h
      · rcases ih h with h | ⟨p', hp', hc⟩
        · exact Or.inl h
        · exact Or.inr ⟨p', List.mem_cons_of_mem p hp', hc⟩

namespace IsLoosePart

variable {part : String}

theorem depthOf_eq (h : IsLoosePart part) (depth : Nat) : depthOf depth part.toList = depth := by
  induction h generalizing depth with
  | atom h =>
    refine depthOf_plain (fun c hc => ?_) depth
    have hplain := (h.plain c hc).2
    simp only [List.mem_cons, not_or] at hplain
    exact ⟨hplain.2.1, hplain.2.2.1⟩
  | @group parts _ ih =>
    -- the parts stand one level deeper, and the last parenthesis goes back
    have hinside : ∀ p ∈ parts.map String.toList, depthOf (depth + 1) p = depth + 1 :=
      List.forall_mem_map.2 fun p hp => ih p hp (depth + 1)
    have hopen : depthAfter depth '(' = depth + 1 := rfl
    rw [toList_group, depthOf_cons, hopen, depthOf_append, depthOf_joined hinside]
    rfl
  | array _ ih =>
    rw [toList_array, depthOf_append, ih]
    rfl

/-- No bar of a part stands outside all parentheses. -/
theorem whole (h : IsLoosePart part) : Whole 0 part.toList := by
  induction h with
  | @atom s h =>
    have hbar : ∀ c ∈ s.toList, c ≠ '|' := by
      rintro c hc rfl
      exact (h.plain '|' hc).2 List.mem_cons_self
    exact whole_of_no_bar hbar 0
  | @group parts h ih =>
    have hinside : Whole 1 (joined (parts.map String.toList)) :=
      whole_joined Nat.one_pos (List.forall_mem_map.2 ih) (List.forall_mem_map.2 fun p hp => (h p hp).depthOf_eq 1)
    rw [toList_group]
    refine ⟨by simp, ?_⟩
    rw [whole_append]
    exact ⟨hinside, by simp [Whole]⟩
  | array h ih =>
    rw [toList_array, whole_append, h.depthOf_eq]
    exact ⟨ih, whole_of_no_bar (by simp) 0⟩

/-- A part has no blanks. -/
theorem not_blank (h : IsLoosePart part) : ∀ c ∈ part.toList, isBlank c = false := by
  induction h with
  | atom h => exact fun c hc => (h.plain c hc).1
  | @group parts _ ih =>
    intro c hc
    rw [toList_group, List.mem_cons, List.mem_append, List.mem_singleton] at hc
    rcases hc with rfl | hc | rfl
    · rfl
    · rcases mem_joined hc with rfl | ⟨p, hp, hc⟩
      · rfl
      · obtain ⟨s, hs, rfl⟩ := List.mem_map.1 hp
        exact ih s hs c hc
    · rfl
  | array _ ih =>
    intro c hc
    rw [toList_array, List.mem_append] at hc
    rcases hc with hc | hc
    · exact ih c hc
    · revert c
      simp [isBlank]

/-- A part begins with a character that is not a question mark. -/
theorem toList_eq_cons (h : IsLoosePart part) : ∃ c r, part.toList = c :: r ∧ c ≠ '?' := by
  induction h with
  | @atom s h =>
    obtain ⟨c, r, hcons⟩ := List.exists_cons_of_ne_nil fun h0 => h.nonempty (String.toList_eq_nil_iff.1 h0)
    refine ⟨c, r, hcons, ?_⟩
    rintro rfl
    have hmark := h.unmarked
    unfold beginsWith at hmark
    rw [hcons] at hmark
    cases hmark
  | group => exact ⟨'(', _, toList_group _, by decide⟩
  | array _ ih =>
    obtain ⟨c, r, hcons, hc⟩ := ih
    exact ⟨c, r ++ ['[', ']'], by rw [toList_array, hcons]; rfl, hc⟩

theorem isPlainPart (h : IsLoosePart part) : IsPlainPart part := by
  obtain ⟨c, r, hcons, hc⟩ := h.toList_eq_cons
  refine ⟨?_, ?_, ?_, pieces_of_whole h.whole⟩
  · rintro rfl
    cases hcons
  · unfold trim
    rw [trimChars_of_not_blank h.not_blank, String.ofList_toList]
  · have hmark : "?".toList = ['?'] := rfl
    unfold beginsWith
    rw [hcons, hmark]
    simp [List.isPrefixOf, Ne.symm hc]

end IsLoosePart

theorem settled_of_loose {t : TypeText} (h : ∀ part ∈ t.parts, IsLoosePart part) : t.Settled :=
  ⟨fun part hpart => (h part hpart).isPlainPart,
    fun part hpart => (h part ((List.dropLast_sublist _).subset hpart)).depthOf_eq 0⟩

theorem WellFormed.settled {t : TypeText} (h : t.WellFormed) : t.Settled :=
  settled_of_loose fun part hpart => (h.isPart part hpart).loose

/-! ### Arrays and their elements -/

theorem inParens?_eq_some_iff {cs inner : List Char} : inParens? cs = some inner ↔ cs = '(' :: (inner ++ [')']) := by
  unfold inParens?
  split
  · rw [List.isSuffixOf?_eq_some_iff_append_eq, List.cons.injEq, eq_comm]
    simp
  · rename_i hopen
    constructor
    · exact nofun
    · exact fun h => absurd h (hopen _)

/-- The elements of an array whose part is not a group. -/
theorem elementsOf_plain {s : String} (h : inParens? s.toList = none) : elementsOf (s ++ "[]") = [s] := by
  unfold elementsOf
  rw [toList_array, isSuffixOf?_brackets]
  simp only [h, String.ofList_toList]

/-- The elements of an array whose part is in parentheses. -/
theorem elementsOf_group {s : String} {inner : List Char} (h : inParens? s.toList = some inner) :
    elementsOf (s ++ "[]") = (splitUnion (String.ofList inner)).flatMap expand := by
  unfold elementsOf
  rw [toList_array, isSuffixOf?_brackets]
  simp only [h]

/-- Only a group is taken apart. -/
theorem IsPart.inParens?_eq_none {part : String} (h : IsPart part)
    (hg : ∀ u : TypeText, u.WellFormed → part ≠ "(" ++ u.text ++ ")") : inParens? part.toList = none := by
  rw [Option.eq_none_iff_forall_ne_some]
  intro inner hinner
  rw [inParens?_eq_some_iff] at hinner
  cases h with
  | atom h =>
    have hparen := (h.plain '(' (by rw [hinner]; exact List.mem_cons_self)).2
    exact hparen (by decide)
  | @group parts hne hd h => exact hg ⟨parts⟩ ⟨hne, hd, h⟩ rfl
  | @array s h =>
    -- the last character is a bracket
    have hlast : (s.toList ++ ['[', ']']).getLast? = (('(' :: inner) ++ [')']).getLast? := by
      rw [← toList_array, hinner]
      rfl
    rw [List.getLast?_concat] at hlast
    simp at hlast

/-- The elements of an array of a group are the type in the group. -/
theorem element_group {u : TypeText} (h : u.WellFormed) : element ⟨["(" ++ u.text ++ ")" ++ "[]"]⟩ = u := by
  have hinner : inParens? ("(" ++ u.text ++ ")").toList = some u.text.toList := by
    rw [inParens?_eq_some_iff, toList_text]
    exact toList_group u.parts
  unfold element
  rw [List.flatMap_singleton, elementsOf_group hinner, String.ofList_toList, splitUnion_text h.settled,
    h.settled.flatMap_expand]
  exact insertAll_of_nodup h.distinct

theorem text_ne_group (t : TypeText) : t.text ≠ "(" ++ t.text ++ ")" := by
  intro h
  have hlen := congrArg (fun s => s.toList.length) h
  simp only [String.toList_append, List.length_append] at hlen
  have hparen : "(".toList.length = 1 := rfl
  omega

/-- The elements of the arrays of a type. -/
theorem element_array_iff {t : TypeText} (h : t.WellFormed) : t.array.element = t ↔ ¬ t.IsGroup := by
  obtain ⟨parts⟩ := t
  match parts, h with
  | [], h => exact absurd rfl h.nonempty
  | [part], h =>
    show element ⟨[part ++ "[]"]⟩ = ⟨[part]⟩ ↔ _
    by_cases hg : IsGroup ⟨[part]⟩
    · obtain ⟨u, hu, hpart⟩ := hg
      obtain rfl : part = "(" ++ u.text ++ ")" := List.head_eq_of_cons_eq hpart
      rw [element_group hu]
      constructor
      · intro heq
        have htext := congrArg text heq
        exact absurd htext (text_ne_group u)
      · exact fun hno => absurd ⟨u, hu, rfl⟩ hno
    · have hnone := (h.isPart part List.mem_cons_self).inParens?_eq_none fun u hu heq => hg ⟨u, hu, by rw [heq]⟩
      have helement : element ⟨[part ++ "[]"]⟩ = ⟨[part]⟩ := by
        unfold element
        rw [List.flatMap_singleton, elementsOf_plain hnone]
        rfl
      exact ⟨fun _ => hg, fun _ => helement⟩
  | p :: q :: ps, h =>
    have harray : array ⟨p :: q :: ps⟩ = ⟨["(" ++ text ⟨p :: q :: ps⟩ ++ ")" ++ "[]"]⟩ := by
      rw [String.append_assoc]
      rfl
    rw [harray, element_group h]
    refine ⟨fun _ => ?_, fun _ => rfl⟩
    rintro ⟨u, -, hparts⟩
    cases hparts

/-- A well-formed type is split into its parts and read back from its text, whatever the nesting; and it is the element
type of its arrays just when it is not a single group. -/
theorem ofText_text_of_wellFormed {t : TypeText} (h : t.WellFormed) :
    splitUnion t.text = t.parts ∧ ofText t.text = t ∧ (t.array.element = t ↔ ¬ t.IsGroup) :=
  ⟨splitUnion_text h.settled, ofText_text h.distinct h.settled, element_array_iff h⟩

/-- A name beside an array of groups in groups. -/
theorem ofText_text_of_wellFormed_nested :
    WellFormed ⟨["int", "(A|(B|C[])[])[]"]⟩ ∧ ¬ IsGroup ⟨["int", "(A|(B|C[])[])[]"]⟩ ∧
      splitUnion "int|(A|(B|C[])[])[]" = ["int", "(A|(B|C[])[])[]"] ∧
      ofText "int|(A|(B|C[])[])[]" = ⟨["int", "(A|(B|C[])[])[]"]⟩ ∧
      element ⟨["(int|(A|(B|C[])[])[])[]"]⟩ = ⟨["int", "(A|(B|C[])[])[]"]⟩ := by
  have hA : IsPart "A" := .atom ⟨by decide, by simp [isBlank], by decide⟩
  have hB : IsPart "B" := .atom ⟨by decide, by simp [isBlank], by decide⟩
  have hC : IsPart "C[]" := .array (s := "C") (.atom ⟨by decide, by simp [isBlank], by decide⟩)
  have hint : IsPart "int" := .atom ⟨by decide, by simp [isBlank], by decide⟩
  have hinner : IsPart "(B|C[])[]" :=
    .array (s := "(B|C[])") (@IsPart.group ["B", "C[]"] (by decide) (by decide) (by simp [hB, hC]))
  have houter : IsPart "(A|(B|C[])[])[]" :=
    .array (s := "(A|(B|C[])[])") (@IsPart.group ["A", "(B|C[])[]"] (by decide) (by decide) (by simp [hA, hinner]))
  have h : WellFormed ⟨["int", "(A|(B|C[])[])[]"]⟩ := ⟨by decide, by decide, by simp [hint, houter]⟩
  have hg : ¬ IsGroup ⟨["int", "(A|(B|C[])[])[]"]⟩ := by
    rintro ⟨u, -, hu⟩
    simp at hu
  obtain ⟨hsplit, hread, helement⟩ := ofText_text_of_wellFormed h
  exact ⟨h, hg, hsplit, hread, helement.2 hg⟩

end CodeAtlas.TypeText
