import CodeAtlas.Proofs.LowerCase
import CodeAtlas.Proofs.TypeGrammar

/-!
# Names in types

A word is a text without blanks, bars, parentheses and brackets, so that it is a single name in the text of a type.
Mapping the names of a part goes past its brackets (`mapPart_array`), takes a word as one name (`mapPart_word`), and a
group by the pieces between its bars (`mapPart_group`).

What a word stands for depends on its case only where it is reserved.  Otherwise it is absolute, plain or qualified by a
first segment, and the imports decide (`resolveName_absolute`, `resolveName_plain`, `resolveName_qualified`).
-/

namespace CodeAtlas

open Text

/-! ### Reserved words -/

namespace TypeText

theorem isReserved_iff {name : String} : isReserved name = true ↔ asciiLower name ∈ keywords := by
  unfold isReserved
  rw [List.contains_iff_mem]

theorem asciiLower_of_reserved : ∀ word ∈ keywords, asciiLower word = word := by
  decide

/-- The words for the current class in their own spelling. -/
def selfWords : List String :=
  ["self", "static", "$this"]

theorem isSelfWord_iff {name : String} : isSelfWord name = true ↔ asciiLower name ∈ selfWords := by
  have hlower : ∀ word ∈ selfWords, asciiLower word = word := by decide
  show selfWords.any (sameFolded · name) = true ↔ _
  rw [List.any_eq_true]
  constructor
  · rintro ⟨word, hword, hsame⟩
    rw [sameFolded_iff, hlower word hword] at hsame
    rwa [← hsame]
  · exact fun h => ⟨_, h, by rw [sameFolded_iff, hlower _ h]⟩

/-- What `withSelf` puts in the place of a name. -/
def bindName (cls name : String) : String :=
  if isSelfWord name then cls else name

theorem isReserved_of_isSelfWord {name : String} (h : isSelfWord name = true) : isReserved name = true := by
  have hsub : ∀ word ∈ selfWords, word ∈ keywords := by decide
  exact isReserved_iff.2 (hsub _ (isSelfWord_iff.1 h))

theorem isSelfWord_eq_false {name : String} (h : isReserved name = false) : isSelfWord name = false :=
  Bool.eq_false_iff.2 fun hs => Bool.eq_false_iff.1 h (isReserved_of_isSelfWord hs)

theorem sameFolded_eq_false {name word : String} (h : isReserved name = false) (hword : word ∈ keywords) :
    sameFolded name word = false := by
  refine Bool.eq_false_iff.2 fun hs => Bool.eq_false_iff.1 h (isReserved_iff.2 ?_)
  rwa [sameFolded_iff.1 hs, asciiLower_of_reserved word hword]

/-- A text with a backslash, a bracket or a parenthesis is not reserved. -/
theorem isReserved_eq_false {name : String} {c : Char} (hc : c ∈ name.toList) (hm : c ∈ ['\\', '[', '(']) :
    isReserved name = false := by
  have hmark : c.isAlpha = false ∧ ∀ word ∈ keywords, c ∉ word.toList := by
    simp only [List.mem_cons, List.not_mem_nil, or_false] at hm
    rcases hm with rfl | rfl | rfl <;> decide
  have hmem : c ∈ (asciiLower name).toList := (mem_asciiLower_iff hmark.1).2 hc
  exact Bool.eq_false_iff.2 fun h => hmark.2 _ (isReserved_iff.1 h) hmem

end TypeText

/-! ### Resolving -/

namespace Text

theorem splitOnce?_eq_none {p : Char → Bool} {cs : List Char} (h : ∀ c ∈ cs, p c = false) : splitOnce? p cs = none := by
  induction cs with
  | nil => rfl
  | cons c cs ih =>
    obtain ⟨hc, hcs⟩ := List.forall_mem_cons.1 h
    rw [splitOnce?, hc, ih hcs]
    rfl

theorem splitOnce?_append {p : Char → Bool} {before : List Char} {c : Char} (h : ∀ c ∈ before, p c = false)
    (hc : p c = true) (after : List Char) : splitOnce? p (before ++ c :: after) = some (before, after) := by
  induction before with
  | nil => rw [List.nil_append, splitOnce?, if_pos hc]
  | cons b before ih =>
    obtain ⟨hb, hbefore⟩ := List.forall_mem_cons.1 h
    rw [List.cons_append, splitOnce?, hb, ih hbefore]
    rfl

/-- A text has no backslash, begins with one, or has a first segment before one. -/
theorem backslash_cases (s : String) : '\\' ∉ s.toList ∨ (∃ rest, s = "\\" ++ rest) ∨
    ∃ first rest, first ≠ "" ∧ '\\' ∉ first.toList ∧ s = first ++ "\\" ++ rest := by
  by_cases h : '\\' ∈ s.toList
  · obtain ⟨before, after, hs, hbefore⟩ := List.eq_append_cons_of_mem h
    have hjoin : s = String.ofList before ++ "\\" ++ String.ofList after := by
      rw [← String.toList_inj, hs]
      simp
    right
    cases before with
    | nil =>
      left
      exact ⟨String.ofList after, by rw [hjoin]; rfl⟩
    | cons c before =>
      right
      exact ⟨_, _, by simp, by simpa using hbefore, hjoin⟩
  · exact Or.inl h

end Text

namespace Resolver

theorem mem_of_rule? {r : Resolver} {name : String} {kind : SymbolKind} {rule : ImportedName}
    (h : r.rule? name kind = some rule) : rule ∈ r.rules :=
  List.mem_reverse.1 (List.mem_of_find?_eq_some h)

theorem keyword?_eq_none {name : String} (h : TypeText.isReserved name = false) (r : Resolver) :
    r.keyword? name = none := by
  unfold keyword?
  rw [TypeText.sameFolded_eq_false h (by decide), TypeText.sameFolded_eq_false h (by decide),
    TypeText.sameFolded_eq_false h (by decide), TypeText.sameFolded_eq_false h (by decide)]
  rfl

end Resolver

namespace TypeText

variable {r : Resolver} {deferred : Bool} {name : String}

private theorem resolveName_eq (h : isReserved name = false) : resolveName r deferred name =
    match afterStart? "\\" name with
    | some absolute => absolute
    | none => r.resolvePlain name .cls := by
  unfold resolveName
  rw [isSelfWord_eq_false h, sameFolded_eq_false h (by decide), h]
  rfl

theorem resolveName_absolute (r : Resolver) (deferred : Bool) (rest : String) :
    resolveName r deferred ("\\" ++ rest) = rest := by
  have hres : isReserved ("\\" ++ rest) = false := isReserved_eq_false (c := '\\') (by simp) (by decide)
  rw [resolveName_eq hres]
  unfold afterStart?
  simp [List.isPrefixOf?]

/-- A name that is not absolute goes through the imports. -/
private theorem resolveName_eq_resolvePlain (h : isReserved name = false) (hb : name.toList.head? ≠ some '\\') :
    resolveName r deferred name = r.resolvePlain name .cls := by
  have hnone : afterStart? "\\" name = none := by
    unfold afterStart?
    cases hs : name.toList with
    | nil => rfl
    | cons c cs =>
      rw [hs] at hb
      have hc : ('\\' == c) = false := beq_eq_false_iff_ne.2 fun hc => hb (hc ▸ rfl)
      simp [List.isPrefixOf?, hc]
  rw [resolveName_eq h, hnone]

theorem resolveName_plain (h : isReserved name = false) (hne : name ≠ "") (hb : '\\' ∉ name.toList) :
    resolveName r deferred name =
      match r.rule? name .cls with
      | some rule => rule.target
      | none => r.relative name := by
  have hhead : name.toList.head? ≠ some '\\' := fun hs => hb (List.mem_of_head? hs)
  have hsplit : splitOnce? (· == '\\') name.toList = none :=
    splitOnce?_eq_none fun c hc => beq_eq_false_iff_ne.2 (ne_of_mem_of_not_mem hc hb)
  have hempty : name.isEmpty = false := by simpa using hne
  rw [resolveName_eq_resolvePlain h hhead, Resolver.resolvePlain, hempty, Resolver.keyword?_eq_none h, hsplit]
  rfl

theorem resolveName_qualified {first rest : String} (hne : first ≠ "") (hb : '\\' ∉ first.toList) :
    resolveName r deferred (first ++ "\\" ++ rest) =
      match r.rule? first .cls with
      | some rule => Resolver.joinNames rule.target rest
      | none => r.relative (first ++ "\\" ++ rest) := by
  have hlist : (first ++ "\\" ++ rest).toList = first.toList ++ '\\' :: rest.toList := by simp
  have hres : isReserved (first ++ "\\" ++ rest) = false := isReserved_eq_false (c := '\\') (by simp) (by decide)
  have hhead : (first ++ "\\" ++ rest).toList.head? ≠ some '\\' := by
    rw [hlist]
    obtain ⟨c, cs, hcons⟩ := List.exists_cons_of_ne_nil fun h0 => hne (String.toList_eq_nil_iff.1 h0)
    rw [hcons] at hb ⊢
    simp only [List.cons_append, List.head?_cons, ne_eq, Option.some.injEq]
    rintro rfl
    exact hb List.mem_cons_self
  have hsplit : splitOnce? (· == '\\') (first ++ "\\" ++ rest).toList = some (first.toList, rest.toList) := by
    rw [hlist]
    exact splitOnce?_append (fun c hc => beq_eq_false_iff_ne.2 (ne_of_mem_of_not_mem hc hb)) rfl _
  have hempty : (first ++ "\\" ++ rest).isEmpty = false := by simp
  rw [resolveName_eq_resolvePlain hres hhead, Resolver.resolvePlain, hempty, Resolver.keyword?_eq_none hres, hsplit]
  simp only [String.ofList_toList]
  rfl

/-! ### Names in parts -/

/-- A text without blanks and without the marks that structure a type. -/
def IsPlainText (s : String) : Prop :=
  ∀ c ∈ s.toList, isBlank c = false ∧ c ∉ ['|', '(', ')', '[', ']']

/-- A text that is one name wherever it stands in a type. -/
structure IsWord (s : String) : Prop where
  nonempty : s ≠ ""
  plain : IsPlainText s

/-- A part of a name between backslashes. -/
structure IsSegment (s : String) : Prop where
  nonempty : s ≠ ""
  plain : ∀ c ∈ s.toList, isBlank c = false ∧ c ∉ ['|', '(', ')', '[', ']', '\\']

instance (s : String) : Decidable (IsPlainText s) :=
  decidable_of_iff (s.toList.all fun c => isBlank c = false ∧ c ∉ ['|', '(', ')', '[', ']']) (by simp [IsPlainText])

instance (s : String) : Decidable (IsWord s) :=
  decidable_of_iff (s ≠ "" ∧ IsPlainText s) ⟨fun h => ⟨h.1, h.2⟩, fun h => ⟨h.nonempty, h.plain⟩⟩

instance (s : String) : Decidable (IsSegment s) :=
  decidable_of_iff (s ≠ "" ∧ s.toList.all fun c => isBlank c = false ∧ c ∉ ['|', '(', ')', '[', ']', '\\'])
    ⟨fun h => ⟨h.1, by simpa using h.2⟩, fun h => ⟨h.nonempty, by simpa using h.plain⟩⟩

/-- A name: segments with backslashes between them, and perhaps one in front. -/
inductive IsName : String → Prop
  | relative {segments : List String} (hne : segments ≠ []) (h : ∀ s ∈ segments, IsSegment s) :
    IsName ("\\".intercalate segments)
  | absolute {segments : List String} (hne : segments ≠ []) (h : ∀ s ∈ segments, IsSegment s) :
    IsName ("\\" ++ "\\".intercalate segments)

/-- Two words with a backslash between them are a word. -/
theorem IsWord.qualified {a b : String} (ha : IsWord a) (hb : IsWord b) : IsWord (a ++ "\\" ++ b) := by
  refine ⟨by simp, fun c hc => ?_⟩
  rw [String.toList_append, String.toList_append, List.mem_append, List.mem_append] at hc
  rcases hc with (hc | hc) | hc
  · exact ha.plain c hc
  · revert c
    simp [isBlank]
  · exact hb.plain c hc

theorem IsSegment.isWord {s : String} (h : IsSegment s) : IsWord s := by
  refine ⟨h.nonempty, fun c hc => ⟨(h.plain c hc).1, fun hm => (h.plain c hc).2 ?_⟩⟩
  exact List.mem_append_left ['\\'] hm

theorem IsSegment.isName {s : String} (h : IsSegment s) : IsName s := by
  have hname : IsName ("\\".intercalate [s]) := .relative (List.cons_ne_nil _ _) (by simpa using h)
  rwa [String.intercalate_singleton] at hname

private theorem isWord_segments {segments : List String} (hne : segments ≠ []) (h : ∀ s ∈ segments, IsSegment s) :
    IsWord ("\\".intercalate segments) := by
  induction segments with
  | nil => exact absurd rfl hne
  | cons s segments ih =>
    obtain ⟨hs, hsegments⟩ := List.forall_mem_cons.1 h
    cases segments with
    | nil =>
      rw [String.intercalate_singleton]
      exact hs.isWord
    | cons t segments =>
      rw [String.intercalate_cons_cons]
      exact hs.isWord.qualified (ih (List.cons_ne_nil _ _) hsegments)

namespace IsName

variable {s : String}

theorem isWord (h : IsName s) : IsWord s := by
  cases h with
  | relative hne h => exact isWord_segments hne h
  | absolute hne h =>
    have hword := isWord_segments hne h
    refine ⟨by simp, fun c hc => ?_⟩
    rw [String.toList_append, List.mem_append] at hc
    rcases hc with hc | hc
    · revert c
      simp [isBlank]
    · exact hword.plain c hc

/-- Something stands behind the first backslash of a name. -/
theorem rest_ne_empty (h : IsName s) {first rest : String} (hb : '\\' ∉ first.toList)
    (hs : s = first ++ "\\" ++ rest) : rest ≠ "" := by
  have hmem : '\\' ∈ s.toList := by simp [hs]
  -- the first backslash of a text is at one place only
  have hsplit : ∀ {first' rest' : String}, '\\' ∉ first'.toList → s = first' ++ "\\" ++ rest' → rest' = rest := by
    intro first' rest' hb' hs'
    have hlists := congrArg String.toList (hs'.symm.trans hs)
    simp only [String.toList_append, List.append_assoc] at hlists
    have honce := congrArg (splitOnce? (· == '\\')) hlists
    have hnot : ∀ t : String, '\\' ∉ t.toList → ∀ c ∈ t.toList, (c == '\\') = false :=
      fun t ht c hc => beq_eq_false_iff_ne.2 (ne_of_mem_of_not_mem hc ht)
    have hsome : some (first'.toList, rest'.toList) = some (first.toList, rest.toList) :=
      (splitOnce?_append (hnot _ hb') rfl _).symm.trans (honce.trans (splitOnce?_append (hnot _ hb) rfl _))
    exact String.toList_inj.1 (Prod.mk.inj (Option.some.inj hsome)).2
  cases h with
  | @relative segments hne h =>
    match segments, h with
    | [], _ => exact absurd rfl hne
    | [t], h =>
      rw [String.intercalate_singleton] at hmem
      exact absurd (by decide) ((h t List.mem_cons_self).plain '\\' hmem).2
    | t :: u :: segments, h =>
      obtain ⟨ht, hrest⟩ := List.forall_mem_cons.1 h
      rw [← hsplit (fun hc => (ht.plain '\\' hc).2 (by decide)) String.intercalate_cons_cons]
      exact (isWord_segments (List.cons_ne_nil _ _) hrest).nonempty
  | absolute hne h =>
    rw [← @hsplit "" _ (by simp) rfl]
    exact (isWord_segments hne h).nonempty

end IsName

/-- The words are read back from their list. -/
theorem splitUnion_words {words : List String} (h : ∀ word ∈ words, IsWord word) :
    splitUnion ("|".intercalate words) = words := by
  refine splitUnion_of_whole (t := ⟨words⟩) ?_ ?_ ?_ ?_
  · exact fun word hword => (h word hword).nonempty
  · exact fun word hword => trimChars_of_not_blank fun c hc => ((h word hword).plain c hc).1
  · intro word hword
    refine whole_of_no_bar (fun c hc => ?_) 0
    rintro rfl
    exact ((h word hword).plain _ hc).2 (by decide)
  · intro word hword
    refine depthOf_plain (fun c hc => ?_) 0
    have hplain := ((h word ((List.dropLast_sublist _).subset hword)).plain c hc).2
    constructor <;> rintro rfl <;> exact hplain (by decide)

/-! ### Mapping the names of a part -/

private theorem splitArray_array (s : String) : splitArray (s ++ "[]") = ((splitArray s).1, (splitArray s).2 + 1) := by
  unfold splitArray
  rw [toList_array, List.reverse_append]
  rfl

/-- What does not end with a bracket is no array. -/
private theorem splitArray_of_last {part : String} (h : part.toList.getLast? ≠ some ']') :
    splitArray part = (part.toList, 0) := by
  have hstrip : stripBrackets part.toList.reverse = (part.toList.reverse, 0) := by
    rw [← List.head?_reverse] at h
    generalize part.toList.reverse = cs at h
    unfold stripBrackets
    split
    · exact absurd rfl h
    · rfl
  unfold splitArray
  rw [hstrip]
  exact congrArg (·, 0) (List.reverse_reverse _)

private theorem brackets_succ (n : Nat) : brackets (n + 1) = brackets n ++ "[]" := by
  unfold brackets
  rw [← String.toList_inj, List.replicate_succ']
  simp

section

variable (f : String → String)

theorem mapPart_array (s : String) : mapPart f (s ++ "[]") = mapPart f s ++ "[]" := by
  unfold mapPart
  rw [splitArray_array]
  generalize splitArray s = base
  obtain ⟨base, n⟩ := base
  simp only [brackets_succ]
  split <;> simp only [String.append_assoc]

theorem mapPart_word {s : String} (h : IsWord s) : mapPart f s = f s := by
  have hlast : s.toList.getLast? ≠ some ']' := fun hl => (h.plain ']' (List.mem_of_getLast? hl)).2 (by decide)
  have hinner : inParens? s.toList = none := by
    rw [Option.eq_none_iff_forall_ne_some]
    intro inner hinner
    rw [inParens?_eq_some_iff] at hinner
    exact (h.plain '(' (by rw [hinner]; exact List.mem_cons_self)).2 (by decide)
  unfold mapPart
  rw [splitArray_of_last hlast]
  simp only [hinner, String.ofList_toList]
  exact String.append_empty

theorem mapPart_group {parts : List String} (h : splitUnion ("|".intercalate parts) = parts) :
    mapPart f ("(" ++ "|".intercalate parts ++ ")") = "(" ++ "|".intercalate (parts.map f) ++ ")" := by
  have hinner : inParens? ("(" ++ "|".intercalate parts ++ ")").toList = some ("|".intercalate parts).toList := by
    rw [inParens?_eq_some_iff]
    simp
  have hlast : ("(" ++ "|".intercalate parts ++ ")").toList.getLast? ≠ some ']' := by
    rw [inParens?_eq_some_iff.1 hinner, ← List.cons_append, List.getLast?_concat]
    decide
  unfold mapPart
  rw [splitArray_of_last hlast]
  simp only [hinner, String.ofList_toList, h]
  exact String.append_empty

end

end TypeText

end CodeAtlas
