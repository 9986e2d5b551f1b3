import CodeAtlas.Proofs.GenericTypes

/-!
# The array form of a text

The array form of any text, well-formed or not, is what its parts become, with bars between them (`arrayForm_eq`): each
level of generic types is shorter than the one around it, so the bound on the nesting is never reached.  Whatever stands
in the array form was in the text before, or belongs to the brackets and bars of arrays or to the word `null`
(`mem_arrayForm`).
-/

namespace CodeAtlas

open Text

/-! ### Pieces and parts -/

theorem Text.trimChars_sublist (cs : List Char) : (trimChars cs).Sublist cs := by
  rw [trimChars_eq]
  exact (List.rdropWhile_prefix _ _).sublist.trans (List.dropWhile_suffix _).sublist

namespace TypeText

variable {a b cs : List Char} {c : Char} {depth : Nat} {part s : String} {t : TypeText}

theorem sublist_of_mem_pieces {g : List Char} (h : g ∈ pieces depth cs) : g.Sublist cs := by
  induction cs generalizing depth g with
  | nil =>
    rw [List.mem_singleton.1 h]
  | cons c cs ih =>
    rw [pieces] at h
    split at h
    · rcases List.mem_cons.1 h with rfl | h
      · exact List.nil_sublist _
      · exact (ih h).cons c
    · cases hp : pieces (depthAfter depth c) cs with
      | nil => exact absurd hp (pieces_ne_nil _ cs)
      | cons f fs =>
        rw [hp] at h
        rcases List.mem_cons.1 h with rfl | h
        · exact (ih (hp ▸ List.mem_cons_self)).cons_cons c
        · exact (ih (hp ▸ List.mem_cons_of_mem f h)).cons c

theorem mem_splitUnionChars {p : List Char} :
    p ∈ splitUnionChars cs ↔ p ≠ [] ∧ ∃ g ∈ pieces 0 cs, trimChars g = p := by
  unfold splitUnionChars
  simp [and_comm]

theorem sublist_of_mem_splitUnionChars {p : List Char} (h : p ∈ splitUnionChars cs) : p.Sublist cs := by
  obtain ⟨-, g, hg, rfl⟩ := mem_splitUnionChars.1 h
  exact (trimChars_sublist g).trans (sublist_of_mem_pieces hg)

/-- A trimmed text without an exposed bar is a single part. -/
theorem splitUnionChars_of_whole (h : Whole 0 cs) (ht : trimChars cs = cs) (hne : cs ≠ []) :
    splitUnionChars cs = [cs] := by
  unfold splitUnionChars
  rw [pieces_of_whole h, List.map_singleton, ht]
  simp [hne]

/-- A bar outside all parentheses keeps the pieces apart. -/
theorem pieces_append_bar (h : depthOf depth a = 0) (b : List Char) :
    pieces depth (a ++ '|' :: b) = pieces depth a ++ pieces 0 b := by
  induction a generalizing depth with
  | nil => exact pieces_bar h b
  | cons c a ih =>
    rw [List.cons_append, pieces, pieces]
    split
    · rename_i hbar
      obtain ⟨rfl, rfl⟩ := hbar
      have hrest : depthOf 0 a = 0 := h
      rw [ih hrest]
      rfl
    · rw [ih h]
      cases hp : pieces (depthAfter depth c) a with
      | nil => exact absurd hp (pieces_ne_nil _ a)
      | cons f fs => rfl

/-- The parts of texts that close their parentheses, put together with bars, are the parts of each. -/
theorem splitUnionChars_joined {parts : List (List Char)} (h : ∀ p ∈ parts, depthOf 0 p = 0) :
    splitUnionChars (joined parts) = parts.flatMap splitUnionChars := by
  induction parts with
  | nil => rfl
  | cons p ps ih =>
    obtain ⟨hp, hps⟩ := List.forall_mem_cons.1 h
    cases ps with
    | nil => rw [joined_singleton, List.flatMap_singleton]
    | cons q qs =>
      rw [List.flatMap_cons, ← ih hps, joined_cons_cons]
      unfold splitUnionChars
      rw [pieces_append_bar hp, List.map_append, List.filter_append]

/-- A text with an exposed bar has a last piece behind the last such bar, and other pieces before it. -/
theorem exists_last_piece (h : ¬ Whole depth cs) :
    ∃ front a b, front ≠ [] ∧ cs = a ++ '|' :: b ∧ pieces depth cs = front ++ [b] := by
  induction cs generalizing depth with
  | nil => exact absurd trivial h
  | cons c cs ih =>
    rw [pieces]
    split
    · rename_i hbar
      obtain ⟨rfl, rfl⟩ := hbar
      by_cases hwhole : Whole 0 cs
      · exact ⟨[[]], [], cs, List.cons_ne_nil _ _, rfl, by rw [pieces_of_whole hwhole]; rfl⟩
      · obtain ⟨front, a, b, -, rfl, hp⟩ := ih hwhole
        exact ⟨[] :: front, '|' :: a, b, List.cons_ne_nil _ _, rfl, by rw [hp]; rfl⟩
    · rename_i hbar
      obtain ⟨front, a, b, hne, rfl, hp⟩ := ih fun hwhole => h ⟨hbar, hwhole⟩
      obtain ⟨f, fs, rfl⟩ := List.exists_cons_of_ne_nil hne
      exact ⟨(c :: f) :: fs, c :: a, b, List.cons_ne_nil _ _, rfl, by rw [hp]; rfl⟩

/-- The same when a character other than a bar stands at the end, apart from the text. -/
theorem exists_last_piece_concat (h : ¬ Whole depth (cs ++ [c])) (hc : c ≠ '|') :
    ∃ front a b, front ≠ [] ∧ cs = a ++ '|' :: b ∧ pieces depth (cs ++ [c]) = front ++ [b ++ [c]] := by
  obtain ⟨front, a, b, hne, hab, hpieces⟩ := exists_last_piece h
  rcases List.eq_nil_or_concat b with rfl | ⟨b, d, rfl⟩
  · exact absurd (by simpa using List.append_inj_right' hab rfl) hc
  · rw [List.concat_eq_append, ← List.cons_append, ← List.append_assoc] at hab
    obtain ⟨rfl, hd⟩ := List.append_inj' hab rfl
    obtain rfl : c = d := List.head_eq_of_cons_eq hd
    exact ⟨front, a, b, hne, rfl, by rw [hpieces, List.concat_eq_append]⟩

/-! ### Arrays -/

/-- The text of an array: nothing, the one part with brackets behind it, or all parts in parentheses with brackets. -/
theorem toList_array_text (t : TypeText) : t.parts = [] ∧ t.array.text.toList = [] ∨
    t.array.text.toList = joined (t.parts.map String.toList) ++ ['[', ']'] ∨
      t.array.text.toList = '(' :: (joined (t.parts.map String.toList) ++ [')', '[', ']']) := by
  obtain ⟨parts⟩ := t
  match parts with
  | [] => exact Or.inl ⟨rfl, rfl⟩
  | [p] =>
    refine Or.inr (Or.inl ?_)
    rw [toList_text]
    simp [array, joined]
  | p :: q :: ps =>
    refine Or.inr (Or.inr ?_)
    have hjoin := toList_text ⟨p :: q :: ps⟩
    rw [toList_text, ← hjoin]
    simp [array, joined, text]

/-- The text of an array is empty or ends with a bracket. -/
theorem array_text_ends (t : TypeText) : t.array.text.toList = [] ∨ t.array.text.toList.getLast? = some ']' := by
  rcases toList_array_text t with ⟨-, h⟩ | h | h
  · exact Or.inl h
  · right
    simp [h]
  · right
    rw [h, List.getLast?_cons, List.getLast?_append]
    rfl

/-- The characters that reading a type and making it an array may add. -/
def added : List Char :=
  ['|', '(', ')', '[', ']', 'n', 'u', 'l']

theorem mem_of_mem_array_text (h : c ∈ t.array.text.toList) : c ∈ added ∨ ∃ part ∈ t.parts, c ∈ part.toList := by
  have hjoin : c ∈ joined (t.parts.map String.toList) → c ∈ added ∨ ∃ part ∈ t.parts, c ∈ part.toList := by
    intro hc
    rcases mem_joined hc with rfl | ⟨p, hp, hc⟩
    · exact Or.inl (by decide)
    · obtain ⟨part, hpart, rfl⟩ := List.mem_map.1 hp
      exact Or.inr ⟨part, hpart, hc⟩
  have hsingle : ['[', ']'] ⊆ added := by decide
  have hgroup : [')', '[', ']'] ⊆ added := by decide
  rcases toList_array_text t with ⟨-, ht⟩ | ht | ht
  · rw [ht] at h
    cases h
  · rw [ht, List.mem_append] at h
    exact h.elim hjoin fun hc => Or.inl (hsingle hc)
  · rw [ht, List.mem_cons, List.mem_append] at h
    rcases h with rfl | h | h
    · exact Or.inl (by decide)
    · exact hjoin h
    · exact Or.inl (hgroup h)

theorem mem_array_text (hpart : part ∈ t.parts) (hc : c ∈ part.toList) : c ∈ t.array.text.toList := by
  have hjoin : c ∈ joined (t.parts.map String.toList) :=
    subset_intercalate (List.mem_map_of_mem hpart) hc
  rcases toList_array_text t with ⟨ht, -⟩ | ht | ht
  · rw [ht] at hpart
    cases hpart
  · rw [ht]
    exact List.mem_append_left _ hjoin
  · rw [ht]
    exact List.mem_cons_of_mem _ (List.mem_append_left _ hjoin)

theorem mem_of_mem_ofText (hpart : part ∈ (ofText s).parts) (hc : c ∈ part.toList) : c ∈ added ∨ c ∈ s.toList := by
  obtain ⟨g, hg, hne, hpart⟩ := mem_ofText.1 hpart
  have hsub : trimChars g ⊆ s.toList := ((trimChars_sublist g).trans (sublist_of_mem_pieces hg)).subset
  rcases expand_ofList (trimChars_trimChars g) hne with ⟨inner, hinner, he⟩ | ⟨-, he⟩
  · rw [he, List.mem_cons, List.mem_singleton] at hpart
    rcases hpart with rfl | rfl
    · rw [String.toList_ofList] at hc
      exact Or.inr (hsub (by rw [hinner]; exact List.mem_cons_of_mem _ hc))
    · have hnull : "null".toList ⊆ added := by decide
      exact Or.inl (hnull hc)
  · rw [he, List.mem_singleton] at hpart
    subst hpart
    rw [String.toList_ofList] at hc
    exact Or.inr (hsub hc)

theorem mem_of_mem_ofText_array_text (h : c ∈ (ofText s).array.text.toList) : c ∈ added ∨ c ∈ s.toList := by
  rcases mem_of_mem_array_text h with hadded | ⟨part, hpart, hc⟩
  · exact Or.inl hadded
  · exact mem_of_mem_ofText hpart hc

/-- A text without an exposed bar is all there when it is made an array. -/
theorem mem_ofText_array_text (hwhole : Whole 0 s.toList) (hblank : isBlank c = false) (hmark : c ≠ '?')
    (hc : c ∈ s.toList) : c ∈ (ofText s).array.text.toList := by
  have htrim : c ∈ trimChars s.toList := by
    rw [← List.count_pos_iff, count_trimChars hblank, List.count_pos_iff]
    exact hc
  have hpiece : s.toList ∈ pieces 0 s.toList := by
    rw [pieces_of_whole hwhole]
    exact List.mem_singleton_self _
  have hne := List.ne_nil_of_mem htrim
  rcases expand_ofList (trimChars_trimChars s.toList) hne with ⟨inner, hinner, he⟩ | ⟨-, he⟩
  · rw [hinner, List.mem_cons] at htrim
    refine mem_array_text (mem_ofText.2 ⟨_, hpiece, hne, by rw [he]; exact List.mem_cons_self⟩) ?_
    rw [String.toList_ofList]
    exact htrim.resolve_left hmark
  · refine mem_array_text (mem_ofText.2 ⟨_, hpiece, hne, by rw [he]; exact List.mem_cons_self⟩) ?_
    rwa [String.toList_ofList]

end TypeText

namespace DocBlock

variable {cs part : List Char} {c : Char}

/-! ### Generic parts -/

/-- A part is generic if it ends with an angle bracket and has another one before; the first of them opens. -/
theorem generic?_cases (part : List Char) : generic? part = none ∨
    ∃ base args, part = base ++ '<' :: (args ++ ['>']) ∧ '<' ∉ base ∧ generic? part = some (base, args) := by
  unfold generic?
  cases hsuffix : ['>'].isSuffixOf? part with
  | none => exact Or.inl rfl
  | some body =>
    rw [List.isSuffixOf?_eq_some_iff_append_eq] at hsuffix
    subst hsuffix
    by_cases hopen : '<' ∈ body
    · obtain ⟨base, args, rfl, hbase⟩ := List.eq_append_cons_of_mem hopen
      refine Or.inr ⟨base, args, by simp, hbase, ?_⟩
      exact splitOnce?_append (fun c hc => beq_eq_false_iff_ne.2 (ne_of_mem_of_not_mem hc hbase)) rfl args
    · exact Or.inl (splitOnce?_eq_none fun c hc => beq_eq_false_iff_ne.2 (ne_of_mem_of_not_mem hc hopen))

theorem generic?_applied {base : List Char} (h : '<' ∉ base) (args : List Char) :
    generic? (base ++ '<' :: (args ++ ['>'])) = some (base, args) := by
  have hsuffix : ['>'].isSuffixOf? (base ++ '<' :: (args ++ ['>'])) = some (base ++ '<' :: args) :=
    List.isSuffixOf?_eq_some_iff_append_eq.2 (by simp)
  unfold generic?
  rw [hsuffix]
  exact splitOnce?_append (fun c hc => beq_eq_false_iff_ne.2 (ne_of_mem_of_not_mem hc h)) rfl args

theorem generic?_eq_none (h : part.getLast? ≠ some '>') : generic? part = none := by
  rcases generic?_cases part with hnone | ⟨base, args, rfl, -, -⟩
  · exact hnone
  · refine absurd ?_ h
    rw [List.getLast?_append, List.getLast?_cons, List.getLast?_append]
    rfl

/-! ### The last argument -/

theorem lastArgument_eq (args : List Char) : lastArgument args = trimChars (args.rtakeWhile (· != ',')) :=
  rfl

theorem lastArgument_sublist (args : List Char) : (lastArgument args).Sublist args :=
  (trimChars_sublist _).trans (List.rtakeWhile_suffix _ _).sublist

theorem lastArgument_of_no_comma {b : List Char} (h : ',' ∉ b) : lastArgument b = trimChars b := by
  rw [lastArgument_eq, List.rtakeWhile_eq_self_iff.2]
  exact fun c hc => bne_iff_ne.2 (ne_of_mem_of_not_mem hc h)

theorem lastArgument_append {b : List Char} (h : ',' ∉ b) (a : List Char) :
    lastArgument (a ++ ',' :: b) = trimChars b := by
  have hb : ∀ c ∈ b.reverse, (c != ',') = true := fun c hc =>
    bne_iff_ne.2 (ne_of_mem_of_not_mem (List.mem_reverse.1 hc) h)
  unfold lastArgument
  rw [List.reverse_append, List.reverse_cons, List.append_assoc, List.takeWhile_append_of_pos hb]
  simp

/-! ### Levels -/

/-- The last argument of a generic part is shorter than the text that the part stands in. -/
theorem length_lastArgument_lt {base args : List Char}
    (h : base ++ '<' :: (args ++ ['>']) ∈ TypeText.splitUnionChars cs) : (lastArgument args).length < cs.length := by
  have hpart := (TypeText.sublist_of_mem_splitUnionChars h).length_le
  have hargs := (lastArgument_sublist args).length_le
  simp only [List.length_append, List.length_cons, List.length_nil] at hpart
  omega

/-- The number of levels makes no difference as long as it is not exceeded. -/
theorem arrayFormWithin_congr {fuel fuel' : Nat} (h : cs.length ≤ fuel) (h' : cs.length ≤ fuel') :
    arrayFormWithin fuel cs = arrayFormWithin fuel' cs := by
  induction fuel generalizing fuel' cs with
  | zero =>
    obtain rfl := List.length_eq_zero_iff.1 (Nat.le_zero.1 h)
    cases fuel' <;> rfl
  | succ fuel ih =>
    cases fuel' with
    | zero =>
      obtain rfl := List.length_eq_zero_iff.1 (Nat.le_zero.1 h')
      rfl
    | succ fuel' =>
      rw [arrayFormWithin, arrayFormWithin]
      refine congrArg _ (List.map_congr_left fun part hpart => ?_)
      rcases generic?_cases part with hnone | ⟨base, args, rfl, -, hsome⟩
      · rw [hnone]
      · have hlen := length_lastArgument_lt hpart
        have hform : arrayFormWithin fuel (lastArgument args) = arrayFormWithin fuel' (lastArgument args) :=
          ih (Nat.lt_succ_iff.1 (hlen.trans_le h)) (Nat.lt_succ_iff.1 (hlen.trans_le h'))
        rw [hsome]
        simp only [hform]

/-- The name of a generic collection. -/
def IsCollection (name : String) : Prop :=
  collections.any (sameFolded name) = true

/-- What a part of a type becomes. -/
def partForm (part : List Char) : String :=
  match generic? part with
  | none => String.ofList part
  | some (base, args) =>
    if collections.any (sameFolded (String.ofList base)) then
      (TypeText.ofText (arrayForm (lastArgument args))).array.text
    else String.ofList base

theorem partForm_of_none (h : generic? part = none) : partForm part = String.ofList part := by
  rw [partForm, h]

theorem partForm_of_isCollection {base args : List Char} (h : generic? part = some (base, args))
    (hbase : IsCollection (String.ofList base)) :
    partForm part = (TypeText.ofText (arrayForm (lastArgument args))).array.text := by
  rw [partForm, h]
  exact if_pos hbase

theorem partForm_of_not_isCollection {base args : List Char} (h : generic? part = some (base, args))
    (hbase : ¬ IsCollection (String.ofList base)) : partForm part = String.ofList base := by
  rw [partForm, h]
  exact if_neg hbase

theorem arrayForm_eq (cs : List Char) :
    arrayForm cs = "|".intercalate ((TypeText.splitUnionChars cs).map partForm) := by
  cases cs with
  | nil => rfl
  | cons c cs =>
    rw [arrayForm, List.length_cons, arrayFormWithin]
    refine congrArg _ (List.map_congr_left fun part hpart => ?_)
    rcases generic?_cases part with hnone | ⟨base, args, rfl, -, hsome⟩
    · rw [partForm_of_none hnone, hnone]
    · have hlen := Nat.lt_succ_iff.1 (length_lastArgument_lt hpart)
      have hform : arrayFormWithin cs.length (lastArgument args) = arrayForm (lastArgument args) :=
        arrayFormWithin_congr hlen (Nat.le_refl _)
      rw [partForm, hsome]
      simp only [hform]

/-- Characters of the array form come from the text, or are added with brackets. -/
theorem mem_arrayForm (h : c ∈ (arrayForm cs).toList) : c ∈ TypeText.added ∨ c ∈ cs := by
  induction hn : cs.length using Nat.strongRecOn generalizing cs with
  | _ n ih =>
    rw [arrayForm_eq, String.toList_intercalate] at h
    rcases mem_intercalate h with hbar | ⟨p, hp, hc⟩
    · have hadded : "|".toList ⊆ TypeText.added := by decide
      exact Or.inl (hadded hbar)
    · simp only [List.mem_map] at hp
      obtain ⟨_, ⟨part, hpart, rfl⟩, rfl⟩ := hp
      have hsub := (TypeText.sublist_of_mem_splitUnionChars hpart).subset
      rcases generic?_cases part with hnone | ⟨base, args, rfl, -, hsome⟩
      · rw [partForm_of_none hnone, String.toList_ofList] at hc
        exact Or.inr (hsub hc)
      · by_cases hbase : IsCollection (String.ofList base)
        · have hlen := length_lastArgument_lt hpart
          rw [partForm_of_isCollection hsome hbase] at hc
          rcases TypeText.mem_of_mem_ofText_array_text hc with hadded | hform
          · exact Or.inl hadded
          · refine (ih _ (hn ▸ hlen) hform rfl).imp_right fun hargs => hsub ?_
            have hmem := (lastArgument_sublist args).subset hargs
            simp [hmem]
        · rw [partForm_of_not_isCollection hsome hbase, String.toList_ofList] at hc
          exact Or.inr (hsub (List.mem_append_left _ hc))

end DocBlock

end CodeAtlas
