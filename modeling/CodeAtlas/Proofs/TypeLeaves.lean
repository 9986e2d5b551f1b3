import CodeAtlas.Proofs.TypeExpr

/-!
# The names of a type expression

When the names in a type are resolved, or a class is bound in them, every name should be replaced by what stands for it.
This is so exactly where nothing stands directly in the first parentheses that is more than a name and should not be
taken for one (`names_mapped`).

For the one direction, a function that is applied to a unit must do with its text what it does with the names in it.
For the other one there is a resolver that gives units away by a blank, or a class after which a word for the class is
left in a unit; both are seen in the whole text, because they are seen between the marks that structure it
(`SeenThrough.ne`).
-/

namespace CodeAtlas

open Text

namespace TypeExpr

variable {f : String → String} {w : TypeExpr} {ws : List TypeExpr}

/-! ### What is seen in a text -/

/-- A property of texts that is seen in a piece between marks. -/
structure SeenThrough (Q : String → Prop) : Prop where
  empty : ¬ Q ""
  join : ∀ {a b : String} {c : Char}, c ∈ ['|', '(', ')', '[', ']'] → (Q (a ++ c.toString ++ b) ↔ Q a ∨ Q b)

namespace SeenThrough

variable {Q : String → Prop}

theorem array (hQ : SeenThrough Q) (s : String) : Q (s ++ "[]") ↔ Q s := by
  have hopen : Q (s ++ "[" ++ "]") ↔ Q s ∨ Q "]" := hQ.join (c := '[') (by decide)
  have hclose : Q ("" ++ "]" ++ "") ↔ Q "" ∨ Q "" := hQ.join (c := ']') (by decide)
  have hbracket : ¬ Q "]" := fun h => hQ.empty ((hclose.1 h).elim id id)
  rw [String.append_assoc] at hopen
  exact hopen.trans (or_iff_left hbracket)

theorem union (hQ : SeenThrough Q) (l : List String) : Q ("|".intercalate l) ↔ ∃ s ∈ l, Q s := by
  induction l with
  | nil => simp [hQ.empty]
  | cons s l ih =>
    cases l with
    | nil => simp
    | cons t l =>
      have hbar := hQ.join (a := s) (b := "|".intercalate (t :: l)) (c := '|') (by decide)
      rw [String.intercalate_cons_cons, List.exists_mem_cons_iff, ← ih]
      exact hbar

theorem group (hQ : SeenThrough Q) (l : List String) : Q ("(" ++ "|".intercalate l ++ ")") ↔ ∃ s ∈ l, Q s := by
  have hopen : Q ("" ++ "(" ++ "|".intercalate l) ↔ Q "" ∨ _ := hQ.join (c := '(') (by decide)
  have hclose : Q ("(" ++ "|".intercalate l ++ ")" ++ "") ↔ _ ∨ Q "" := hQ.join (c := ')') (by decide)
  rw [String.empty_append] at hopen
  rw [String.append_empty] at hclose
  rw [hclose, hopen, hQ.union]
  simp [hQ.empty]

theorem text (hQ : SeenThrough Q) (w : TypeExpr) : Q w.text ↔ ∃ s ∈ w.leaves, Q s := by
  induction w using TypeExpr.induction with
  | name s => simp
  | group parts ih =>
    rw [text_group, hQ.group, leaves_group]
    constructor
    · rintro ⟨_, ht, hq⟩
      obtain ⟨w, hw, rfl⟩ := List.mem_map.1 ht
      obtain ⟨s, hs, hq⟩ := (ih w hw).1 hq
      exact ⟨s, List.mem_flatMap_of_mem hw hs, hq⟩
    · rintro ⟨s, hs, hq⟩
      obtain ⟨w, hw, hs⟩ := List.mem_flatMap.1 hs
      exact ⟨w.text, List.mem_map_of_mem hw, (ih w hw).2 ⟨s, hs, hq⟩⟩
  | array w ih => rw [text_array, hQ.array, ih, leaves_array]

theorem reached (hQ : SeenThrough Q) (f : String → String) (w : TypeExpr) :
    Q (w.reached f) ↔ ∃ u ∈ w.units, Q (f u.text) := by
  induction w using TypeExpr.induction with
  | name s => simp [TypeExpr.reached, units]
  | group parts ih =>
    rw [TypeExpr.reached, hQ.group, units]
    simp
  | array w ih => rw [TypeExpr.reached, hQ.array, ih, units]

/-- The texts differ if something is seen in what stands for a unit, but in nothing that stands for a name. -/
theorem ne (hQ : SeenThrough Q) {f : String → String} {ws : List TypeExpr} {w u : TypeExpr} (hw : w ∈ ws)
    (hu : u ∈ w.units) (hseen : Q (f u.text)) (hnot : ∀ w ∈ ws, ∀ s ∈ w.leaves, ¬ Q (f s)) :
    joinDistinct (ws.map (·.reached f)) ≠ replacedText f ws := by
  intro heq
  have hcode : Q (joinDistinct (ws.map (·.reached f))) :=
    (hQ.union _).2 ⟨w.reached f, List.mem_eraseDups.2 (List.mem_map_of_mem hw), (hQ.reached f w).2 ⟨u, hu, hseen⟩⟩
  rw [heq] at hcode
  obtain ⟨_, ht, hq⟩ := (hQ.union _).1 hcode
  obtain ⟨w', hw', rfl⟩ := List.mem_map.1 (List.mem_eraseDups.1 ht)
  obtain ⟨s, hs, hq⟩ := (hQ.text _).1 hq
  rw [leaves_replace] at hs
  obtain ⟨s, hleaf, rfl⟩ := List.mem_map.1 hs
  exact hnot w' hw' s hleaf hq

end SeenThrough

/-! ### Binding the class -/

/-- What is more than a name has a bracket or a parenthesis in its text. -/
theorem mark_mem_text (h : w.isBare = false) : ∃ c ∈ ['[', '('], c ∈ w.text.toList := by
  cases w with
  | name s => cases h
  | group parts => exact ⟨'(', by decide, by simp⟩
  | array w => exact ⟨'[', by decide, by simp⟩

theorem isReserved_text (h : w.isBare = false) : TypeText.isReserved w.text = false := by
  obtain ⟨c, hc, hmem⟩ := mark_mem_text h
  exact TypeText.isReserved_eq_false hmem (List.mem_cons_of_mem _ hc)

/-- A word for the current class stands in the text. -/
def SeesSelf (s : String) : Prop :=
  ∃ piece ∈ s.toList.splitOnP (· ∈ ['|', '(', ')', '[', ']']), TypeText.isSelfWord (String.ofList piece) = true

theorem seesSelf_seenThrough : SeenThrough SeesSelf where
  empty := by
    have hno : TypeText.isSelfWord "" = false := by decide
    rintro ⟨piece, hpiece, hself⟩
    obtain rfl : piece = [] := by simpa using hpiece
    exact absurd (hno.symm.trans hself) Bool.false_ne_true
  join := by
    intro a b c hc
    have hlist : (a ++ c.toString ++ b).toList = a.toList ++ c :: b.toList := by simp
    unfold SeesSelf
    rw [hlist, List.splitOnP_append_cons _ _ (by simpa using hc)]
    simp only [List.mem_append, or_and_right, exists_or]

theorem seesSelf_word {s : String} (h : TypeText.IsWord s) : SeesSelf s ↔ TypeText.isSelfWord s = true := by
  unfold SeesSelf
  rw [List.splitOnP_eq_singleton fun c hc => by simpa using (h.plain c hc).2]
  simp

/-- The class is bound in all names exactly when no unit but a name has a word for it. -/
theorem bind_iff (h : ∀ w ∈ ws, w.WellFormed) :
    (∀ cls, joinDistinct (ws.map (·.reached (TypeText.bindName cls))) = replacedText (TypeText.bindName cls) ws) ↔
    ∀ w ∈ ws, ∀ u ∈ w.units, u.isBare = true ∨ ∀ s ∈ u.leaves, TypeText.isSelfWord s = false := by
  have hkept : ∀ {cls : String} {u : TypeExpr}, u.isBare = false → TypeText.bindName cls u.text = u.text := by
    intro cls u hu
    unfold TypeText.bindName
    rw [TypeText.isSelfWord_eq_false (isReserved_text hu)]
    rfl
  have hword : ∀ w ∈ ws, ∀ s ∈ w.leaves, TypeText.IsWord s := fun w hw s hs => (h w hw s hs).isName.isWord
  constructor
  · intro heq w hw u hu
    by_contra hbad
    rw [not_or, Bool.not_eq_true] at hbad
    obtain ⟨hbare, hself⟩ := hbad
    push Not at hself
    obtain ⟨s, hs, hself⟩ := hself
    -- the word stays in the unit, while no word for the class is left where all of them are bound
    have hx : TypeText.IsWord "x" := by decide
    refine seesSelf_seenThrough.ne hw hu (f := TypeText.bindName "x") ?_ ?_ (heq "x")
    · have hs' := ((h w hw).of_unit hu s hs).isName.isWord
      rw [hkept hbare]
      exact (seesSelf_seenThrough.text u).2 ⟨s, hs, (seesSelf_word hs').2 (by simpa using hself)⟩
    · intro w hw s hs
      unfold TypeText.bindName
      split
      · rw [seesSelf_word hx]
        decide
      · rwa [seesSelf_word (hword w hw s hs)]
  · intro hall cls
    refine congrArg joinDistinct (List.map_congr_left fun w hw => reached_eq fun u hu => ?_)
    by_cases hbare : u.isBare = true
    · exact replace_of_bare hbare _
    · have hfree := (hall w hw u hu).resolve_left hbare
      have hfixed : ∀ s ∈ u.leaves, TypeText.bindName cls s = s := by
        intro s hs
        unfold TypeText.bindName
        rw [hfree s hs]
        rfl
      rw [hkept (Bool.not_eq_true _ ▸ hbare), replace_of_fixed hfixed]

end TypeExpr

/-! ### Resolving -/

/-- A resolver that imports the first segment of each of the names, and puts all others below a blank. -/
def Resolver.importing (names : List String) : Resolver :=
  ⟨" ", [], names.map fun s => ⟨.cls, String.ofList (s.toList.takeWhile (· ≠ '\\')), "x"⟩⟩

namespace Resolver

variable {names : List String} {s first : String}

theorem joinNames_append {inner : String} (h : inner ≠ "") (outer t : String) :
    joinNames outer (inner ++ t) = joinNames outer inner ++ t := by
  unfold joinNames
  split
  · rfl
  · have hne : inner.isEmpty = false := by simpa using h
    have hne' : (inner ++ t).isEmpty = false := by simp [h]
    rw [hne, hne']
    simp [String.append_assoc]

theorem rule?_importing (hs : s ∈ names) (hfirst : s.toList.takeWhile (· ≠ '\\') = first.toList) :
    ∃ rule, (importing names).rule? first .cls = some rule ∧ rule.target = "x" := by
  have hrule : ⟨.cls, first, "x"⟩ ∈ (importing names).rules :=
    List.mem_map.2 ⟨s, hs, by rw [hfirst, String.ofList_toList]⟩
  cases h : (importing names).rule? first .cls with
  | none =>
    have hno := List.find?_eq_none.1 h _ (List.mem_reverse.2 hrule)
    simp [sameFolded] at hno
  | some rule =>
    obtain ⟨s', -, rfl⟩ := List.mem_map.1 (mem_of_rule? h)
    exact ⟨_, rfl, rfl⟩

/-- A text with a character that is in none of the names is not imported. -/
theorem rule?_importing_eq_none {c : Char} (hc : c.isAlpha = false) (hs : c ∈ s.toList)
    (hnames : ∀ name ∈ names, c ∉ name.toList) : (importing names).rule? s .cls = none := by
  refine List.find?_eq_none.2 fun rule hrule hmatch => ?_
  obtain ⟨name, hname, rfl⟩ := List.mem_map.1 (List.mem_reverse.1 hrule)
  rw [Bool.and_eq_true, sameFolded_iff] at hmatch
  have hlocal := (mem_asciiLower_iff hc).2 hs
  rw [← hmatch.2, mem_asciiLower_iff hc, String.toList_ofList] at hlocal
  exact hnames name hname (List.takeWhile_subset _ hlocal)

theorem blank_mem_relative (names : List String) (s : String) : ' ' ∈ ((importing names).relative s).toList := by
  unfold relative joinNames importing
  split
  · rename_i h
    cases h
  · split <;> simp

end Resolver

namespace TypeExpr

variable {w u : TypeExpr} {ws : List TypeExpr} {r : Resolver} {deferred : Bool} {s : String}

/-- A name that is absolute, or has something behind its first segment. -/
def HasRest (s : String) : Prop :=
  (∃ rest, s = "\\" ++ rest) ∨ ∃ first rest, first ≠ "" ∧ '\\' ∉ first.toList ∧ rest ≠ "" ∧ s = first ++ "\\" ++ rest

theorem HasRest.append (h : HasRest s) (t : String) : HasRest (s ++ t) := by
  rcases h with ⟨rest, rfl⟩ | ⟨first, rest, hne, hb, hrest, rfl⟩
  · exact Or.inl ⟨rest ++ t, String.append_assoc⟩
  · exact Or.inr ⟨first, rest ++ t, hne, hb, by simp [hrest], String.append_assoc⟩

/-- The rest of a name is not looked at. -/
theorem HasRest.resolveName_append (h : HasRest s) (r : Resolver) (deferred : Bool) (t : String) :
    TypeText.resolveName r deferred (s ++ t) = TypeText.resolveName r deferred s ++ t := by
  rcases h with ⟨rest, rfl⟩ | ⟨first, rest, hne, hb, hrest, rfl⟩
  · rw [String.append_assoc, TypeText.resolveName_absolute, TypeText.resolveName_absolute]
  · rw [String.append_assoc, TypeText.resolveName_qualified hne hb, TypeText.resolveName_qualified hne hb]
    cases r.rule? first .cls with
    | none =>
      have hne : first ++ "\\" ++ rest ≠ "" := by simp
      have hjoin := Resolver.joinNames_append hne r.space t
      rwa [String.append_assoc] at hjoin
    | some rule => exact Resolver.joinNames_append hrest _ t

theorem hasRest_of_isQualified (h : u.WellFormed) (hq : u.isQualified = true) : HasRest u.text := by
  induction u using TypeExpr.induction with
  | name s =>
    have hname := (h s List.mem_cons_self).isName
    rcases backslash_cases s with hb | habs | ⟨first, rest, hne, hb, hs⟩
    · exact absurd (by simpa [isQualified] using hq) hb
    · exact Or.inl habs
    · exact Or.inr ⟨first, rest, hne, hb, hname.rest_ne_empty hb hs, hs⟩
  | group parts _ => cases hq
  | array w ih => exact (ih h hq).append "[]"

/-- Brackets after a qualified name stay behind what it is resolved to. -/
theorem resolveName_of_isQualified (h : u.WellFormed) (hq : u.isQualified = true) :
    TypeText.resolveName r deferred u.text = (u.replace (TypeText.resolveName r deferred)).text := by
  induction u using TypeExpr.induction with
  | name s => rfl
  | group parts _ => cases hq
  | array w ih =>
    have hrest : HasRest w.text := hasRest_of_isQualified h hq
    rw [replace_array, text_array, text_array, hrest.resolveName_append, ih h hq]

/-- An expression is qualified, or it has no backslash, or it begins with a parenthesis. -/
theorem shape_cases (u : TypeExpr) : u.isQualified = true ∨ '\\' ∉ u.text.toList ∨ ∃ t, u.text = "(" ++ t := by
  induction u using TypeExpr.induction with
  | name s =>
    by_cases hb : '\\' ∈ s.toList
    · exact Or.inl (by simpa [isQualified] using hb)
    · exact Or.inr (Or.inl hb)
  | group parts _ => exact Or.inr (Or.inr ⟨_, by rw [text_group, String.append_assoc]⟩)
  | array w ih =>
    rcases ih with hq | hb | ⟨t, ht⟩
    · exact Or.inl hq
    · exact Or.inr (Or.inl (by simpa using hb))
    · exact Or.inr (Or.inr ⟨t ++ "[]", by rw [text_array, ht, String.append_assoc]⟩)

theorem blank_seenThrough : SeenThrough fun s => ' ' ∈ s.toList where
  empty := by simp
  join := by
    intro a b c hc
    have hne : ' ' ≠ c := by
      rintro rfl
      exact absurd hc (by decide)
    simp [hne]

section

variable {names : List String}

/-- No blank comes from a name whose first segment is imported. -/
theorem blank_notMem_resolveName (hs : s ∈ names) (hname : TypeText.IsName s) :
    ' ' ∉ (TypeText.resolveName (.importing names) deferred s).toList := by
  have hplain : ∀ c ∈ s.toList, c ≠ ' ' := by
    rintro c hc rfl
    exact absurd (hname.isWord.plain ' ' hc).1 (by decide)
  by_cases hres : TypeText.isReserved s = true
  · have hlower : ' ' ∉ (asciiLower s).toList := fun h => hplain ' ' ((mem_asciiLower_iff (by decide)).1 h) rfl
    unfold TypeText.resolveName
    split
    · split
      · exact hlower
      · exact List.not_mem_nil
    · split
      · exact List.not_mem_nil
      · exact hlower
  · rw [Bool.not_eq_true] at hres
    rcases backslash_cases s with hb | ⟨rest, rfl⟩ | ⟨first, rest, hne, hb, rfl⟩
    · have hfirst : s.toList.takeWhile (· ≠ '\\') = s.toList :=
        List.takeWhile_eq_self_iff.2 fun c hc => by simpa using ne_of_mem_of_not_mem hc hb
      obtain ⟨rule, hrule, htarget⟩ := Resolver.rule?_importing hs hfirst
      rw [TypeText.resolveName_plain hres hname.isWord.nonempty hb, hrule]
      simp [htarget]
    · rw [TypeText.resolveName_absolute]
      exact fun h => hplain ' ' (by simp [h]) rfl
    · have hfirst : (first ++ "\\" ++ rest).toList.takeWhile (· ≠ '\\') = first.toList := by
        have hlist : (first ++ "\\" ++ rest).toList = first.toList ++ '\\' :: rest.toList := by simp
        rw [hlist, List.takeWhile_append_of_pos fun c hc => by simpa using ne_of_mem_of_not_mem hc hb]
        simp
      obtain ⟨rule, hrule, htarget⟩ := Resolver.rule?_importing hs hfirst
      rw [TypeText.resolveName_qualified hne hb, hrule]
      simp only [htarget, Resolver.joinNames]
      split
      · rename_i hx
        cases hx
      · split
        · decide
        · have hrest : ' ' ∉ rest.toList := fun h => hplain ' ' (by simp [h]) rfl
          simp [hrest]

/-- An expression that is taken for a name of its own is not imported. -/
theorem blank_mem_resolveName (hbare : u.isBare = false) (hq : u.isQualified = false)
    (hnames : ∀ name ∈ names, TypeText.IsWord name) :
    ' ' ∈ (TypeText.resolveName (.importing names) deferred u.text).toList := by
  have hnone : ∀ c ∈ ['[', '('], ∀ t : String, c ∈ t.toList → (Resolver.importing names).rule? t .cls = none := by
    intro c hc t ht
    have hmark : c.isAlpha = false ∧ c ∈ ['|', '(', ')', '[', ']'] := by
      simp only [List.mem_cons, List.not_mem_nil, or_false] at hc
      rcases hc with rfl | rfl <;> decide
    refine Resolver.rule?_importing_eq_none hmark.1 ht fun name hname hmem => ?_
    exact ((hnames name hname).plain c hmem).2 hmark.2
  -- a backslash is then behind the parenthesis at the start
  have hparen : '\\' ∈ u.text.toList → ∃ t, u.text = "(" ++ t := by
    intro hb
    rcases shape_cases u with hq' | hb' | ht
    · exact absurd (hq.symm.trans hq') Bool.false_ne_true
    · exact absurd hb hb'
    · exact ht
  rcases backslash_cases u.text with hb | ⟨rest, hs⟩ | ⟨first, rest, hne, hb, hs⟩
  · obtain ⟨c, hc, hmem⟩ := mark_mem_text hbare
    have hnonempty : u.text ≠ "" := fun h0 => by simp [h0] at hmem
    rw [TypeText.resolveName_plain (isReserved_text hbare) hnonempty hb, hnone c hc _ hmem]
    exact Resolver.blank_mem_relative _ _
  · obtain ⟨t, ht⟩ := hparen (by simp [hs])
    have hheads := congrArg (·.toList.head?) (hs.symm.trans ht)
    simp at hheads
  · obtain ⟨t, ht⟩ := hparen (by simp [hs])
    have hopen : '(' ∈ first.toList := by
      have hlists := congrArg String.toList (hs.symm.trans ht)
      obtain ⟨c, cs, hcons⟩ := List.exists_cons_of_ne_nil fun h0 => hne (String.toList_eq_nil_iff.1 h0)
      simp only [String.toList_append, hcons] at hlists
      obtain ⟨rfl, -⟩ := List.cons.inj hlists
      rw [hcons]
      exact List.mem_cons_self
    rw [hs, TypeText.resolveName_qualified hne hb, hnone '(' (by decide) first hopen]
    exact Resolver.blank_mem_relative _ _

end

/-- Every name is resolved, whatever the resolver, exactly when each unit is a name, or a qualified name with
brackets. -/
theorem resolve_iff (h : ∀ w ∈ ws, w.WellFormed) (deferred : Bool) :
    (∀ r, joinDistinct (ws.map (·.reached (TypeText.resolveName r deferred))) =
      replacedText (TypeText.resolveName r deferred) ws) ↔
    ∀ w ∈ ws, ∀ u ∈ w.units, u.isBare = true ∨ u.isQualified = true := by
  constructor
  · intro heq w hw u hu
    by_contra hbad
    rw [not_or, Bool.not_eq_true, Bool.not_eq_true] at hbad
    obtain ⟨hbare, hq⟩ := hbad
    refine blank_seenThrough.ne hw hu ?_ ?_ (heq (.importing (ws.flatMap leaves)))
    · refine blank_mem_resolveName hbare hq fun name hname => ?_
      obtain ⟨w, hw, hname⟩ := List.mem_flatMap.1 hname
      exact (h w hw name hname).isName.isWord
    · intro w hw s hs
      exact blank_notMem_resolveName (List.mem_flatMap_of_mem hw hs) (h w hw s hs).isName
  · intro hall r
    refine congrArg joinDistinct (List.map_congr_left fun w hw => reached_eq fun u hu => ?_)
    rcases hall w hw u hu with hbare | hq
    · exact replace_of_bare hbare _
    · exact resolveName_of_isQualified ((h w hw).of_unit hu) hq

/-- For every well-formed union, whatever its nesting, the names of the type that is read are mapped unit by unit.  So a
type is resolved, at once or deferred, name by name whatever the resolver exactly when each unit is a name, or a
qualified name with brackets; and the class is bound in every name exactly when no other unit has a word for it. -/
theorem names_mapped (ws : List TypeExpr) (h : ∀ w ∈ ws, w.WellFormed) :
    (∀ f, ((TypeText.ofText (unionText ws)).mapLeaves f).text = joinDistinct (ws.map (·.reached f))) ∧
    ((∀ r, ((TypeText.ofText (unionText ws)).resolve r).text = replacedText (TypeText.resolveName r false) ws) ↔
      ∀ w ∈ ws, ∀ u ∈ w.units, u.isBare = true ∨ u.isQualified = true) ∧
    ((∀ r, ((TypeText.ofText (unionText ws)).resolveDeferred r).text =
        replacedText (TypeText.resolveName r true) ws) ↔
      ∀ w ∈ ws, ∀ u ∈ w.units, u.isBare = true ∨ u.isQualified = true) ∧
    ((∀ cls, ((TypeText.ofText (unionText ws)).withSelf cls).text = replacedText (TypeText.bindName cls) ws) ↔
      ∀ w ∈ ws, ∀ u ∈ w.units, u.isBare = true ∨ ∀ s ∈ u.leaves, TypeText.isSelfWord s = false) := by
  have hmap := mapLeaves_text h
  refine ⟨hmap, ?_, ?_, ?_⟩
  · rw [← resolve_iff h false]
    exact forall_congr' fun r => by rw [← hmap]; rfl
  · rw [← resolve_iff h true]
    exact forall_congr' fun r => by rw [← hmap]; rfl
  · rw [← bind_iff h]
    exact forall_congr' fun cls => by rw [← hmap]; rfl

private theorem isLeaf_of_segment {s : String} (h : s ∈ ["static", "int", "A"]) : IsLeaf s := by
  have hall : ∀ s ∈ ["static", "int", "A"], TypeText.IsSegment s ∧ beginsWith s "?" = false := by decide
  exact ⟨(hall s h).1.isName, (hall s h).2⟩

/-- A word for the class beside an array of a qualified name. -/
theorem names_mapped_qualified :
    let ws : List TypeExpr := [.array (.group [.name "static", .array (.name "\\A")]), .name "int"]
    (∀ w ∈ ws, w.WellFormed) ∧
      (∀ r, ((TypeText.ofText "(static|\\A[])[]|int").resolve r).text =
        replacedText (TypeText.resolveName r false) ws) ∧
      (∀ cls, ((TypeText.ofText "(static|\\A[])[]|int").withSelf cls).text =
        replacedText (TypeText.bindName cls) ws) ∧
      replacedText (TypeText.resolveName ⟨"App", [⟨"App\\C", ""⟩], []⟩ false) ws = "(App\\C|A[])[]|int" := by
  intro ws
  have h : ∀ w ∈ ws, w.WellFormed := by
    have habs : IsLeaf "\\A" :=
      ⟨@TypeText.IsName.absolute ["A"] (by decide) (by decide), by decide⟩
    have hleaves : ∀ w ∈ ws, ∀ s ∈ w.leaves, s ∈ ["static", "int", "A"] ∨ s = "\\A" := by decide
    exact fun w hw s hs => (hleaves w hw s hs).elim isLeaf_of_segment fun hs => hs ▸ habs
  obtain ⟨-, hresolve, -, hbind⟩ := names_mapped ws h
  exact ⟨h, hresolve.2 (by decide), hbind.2 (by decide), by decide⟩

/-- An array in a group is taken for one name: `int[]` is resolved as the name of a class. -/
theorem nested_array_missed :
    let ws : List TypeExpr := [.array (.group [.array (.name "int"), .name "A"])]
    (∀ w ∈ ws, w.WellFormed) ∧ unionText ws = "(int[]|A)[]" ∧
      ((TypeText.ofText "(int[]|A)[]").resolve ⟨"App", [], []⟩).text = "(App\\int[]|App\\A)[]" ∧
      replacedText (TypeText.resolveName ⟨"App", [], []⟩ false) ws = "(int[]|App\\A)[]" := by
  intro ws
  refine ⟨fun w hw s hs => isLeaf_of_segment ?_, by decide, by decide, by decide⟩
  have hleaves : ∀ w ∈ ws, ∀ s ∈ w.leaves, s ∈ ["static", "int", "A"] := by decide
  exact hleaves w hw s hs

end TypeExpr

end CodeAtlas
