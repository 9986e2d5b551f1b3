import CodeAtlas.Proofs.ArrayForm

/-!
# Generic collections as arrays

A generic collection becomes an array of what its value becomes: bars in parentheses do not split the type, and a value
without commas is all of the last argument (`arrayForm_collection`).  But angle brackets hide neither bars nor commas.
A union directly among the arguments splits the type, so that its last part ends with a bracket that nothing has opened
(`getLast_arrayForm_open`), and of a value with several arguments only what follows the last comma is left
(`not_mem_arrayForm_collection`).  Both go wrong in every shape where they occur: some choice of the names shows it
(`alwaysBecomesArray_iff`).  Applications in parentheses or before brackets are not recognised at all, and a type with
none of these faults keeps no angle bracket (`angle_not_mem_arrayForm`).
-/

namespace CodeAtlas.DocBlock

open Text GenericType

variable {s name : String} {c : Char} {cs : List Char} {w value : GenericType} {keys ws : List GenericType}

/-! ### Names of collections -/

/-- A collection has letters and hyphens in its name and nothing else. -/
theorem not_isCollection (hc : c.isAlpha = false) (hhyphen : c ≠ '-') (h : c ∈ s.toList) : ¬ IsCollection s := by
  intro hs
  have hletters : ∀ word ∈ collections, word.toList.all (fun d => d.isAlpha || d == '-') = true := by decide
  obtain ⟨word, hword, hsame⟩ := List.any_eq_true.1 hs
  have hmem : c ∈ (asciiLower word).toList := by
    rw [← sameFolded_iff.1 hsame]
    exact (mem_asciiLower_iff hc).2 h
  have hletter := List.all_eq_true.1 (hletters word hword) c ((mem_asciiLower_iff hc).1 hmem)
  rw [hc, Bool.false_or, beq_iff_eq] at hletter
  exact hhyphen hletter

theorem isNameChar_of_asciiLowerChar : IsNameChar (asciiLowerChar c) → IsNameChar c :=
  asciiLowerChar_induction (P := fun c d => IsNameChar d → IsNameChar c) (fun _ h => h) (by decide) c

theorem IsCollection.isTypeName (h : IsCollection s) : IsTypeName s where
  nonempty := by
    rintro rfl
    exact absurd h (by unfold IsCollection; decide)
  plain := by
    intro c hc
    have hletters : ∀ word ∈ collections, IsTypeName (asciiLower word) := by decide
    obtain ⟨word, hword, hsame⟩ := List.any_eq_true.1 h
    refine isNameChar_of_asciiLowerChar ((hletters word hword).plain _ ?_)
    rw [← sameFolded_iff.1 hsame, asciiLower, String.toList_ofList]
    exact List.mem_map_of_mem hc

/-! ### Types as single parts -/

/-- A type without an exposed bar is a single part. -/
theorem arrayForm_of_closed (h : w.WellFormed) (hc : w.isClosed = true) : arrayForm w.chars = partForm w.chars := by
  have hphrase := h.isPhrase
  rw [arrayForm_eq, TypeText.splitUnionChars_of_whole ((whole_chars_iff h).2 hc) hphrase.trimmed.trimChars_eq
    hphrase.nonempty, List.map_singleton]
  simp

theorem partForm_collection (h : IsCollection name) (args : List Char) :
    partForm (name.toList ++ '<' :: (args ++ ['>'])) =
      (TypeText.ofText (arrayForm (lastArgument args))).array.text :=
  partForm_of_isCollection (generic?_applied (h.isTypeName.mark_not_mem (by decide)) args)
    (by rwa [String.ofList_toList])

theorem partForm_other (h : IsTypeName name) (hn : ¬ IsCollection name) (args : List Char) :
    partForm (name.toList ++ '<' :: (args ++ ['>'])) = name := by
  rw [partForm_of_not_isCollection (generic?_applied (h.mark_not_mem (by decide)) args) (by rwa [String.ofList_toList]),
    String.ofList_toList]

theorem partForm_of_getLast (h : cs.getLast? ≠ some '>') : partForm cs = String.ofList cs :=
  partForm_of_none (generic?_eq_none h)

/-! ### Collections of values -/

/-- What stands in the place of the value is read as the last argument, if it has no comma of its own. -/
theorem lastArgument_listed {v : List Char} (hv : ',' ∉ v) (ht : Trimmed v) (ks : List (List Char)) :
    lastArgument (listed (ks ++ [v])) = v := by
  cases ks with
  | nil =>
    rw [List.nil_append, listed, List.intercalate_singleton, lastArgument_of_no_comma hv, ht.trimChars_eq]
  | cons k ks =>
    have hblank : ',' ∉ ' ' :: v := by simpa using hv
    rw [listed, intercalate_concat (List.cons_ne_nil k ks), List.append_assoc]
    show lastArgument (_ ++ ',' :: ' ' :: v) = v
    rw [lastArgument_append hblank, trimChars_blank rfl, ht.trimChars_eq]

theorem wellFormed_collection (hn : IsCollection name) (hk : ∀ k ∈ keys, k.WellFormed) (hv : value.WellFormed) :
    (applied name (keys ++ [value])).WellFormed := by
  refine .applied hn.isTypeName (by simp) ?_
  rw [List.forall_mem_append]
  exact ⟨hk, by simpa using hv⟩

theorem isClosed_collection : (applied name (keys ++ [value])).isClosed = (keys.all isClosed && value.isClosed) := by
  simp

/-- A collection whose arguments show no bar, and whose value shows no comma, becomes the array of what the value
becomes. -/
theorem arrayForm_collection (hn : IsCollection name) (hk : ∀ k ∈ keys, k.WellFormed) (hv : value.WellFormed)
    (hc : (applied name (keys ++ [value])).isClosed = true) (hu : value.isUnary = true) :
    arrayForm (applied name (keys ++ [value])).chars = (TypeText.ofText (arrayForm value.chars)).array.text := by
  have hcomma : ',' ∉ value.chars := by
    rw [comma_mem_chars_iff hv, hu]
    decide
  rw [arrayForm_of_closed (wellFormed_collection hn hk hv) hc, chars_applied, partForm_collection hn, List.map_append,
    List.map_singleton, lastArgument_listed hcomma hv.isPhrase.trimmed]

/-! ### Values that are missed -/

/-- A character that does not stand behind the last comma of the value is lost. -/
theorem not_mem_arrayForm_collection (hn : IsCollection name) (hwf : (applied name (keys ++ [value])).WellFormed)
    (hc : (applied name (keys ++ [value])).isClosed = true) {a b : List Char} (hv : value.chars = a ++ ',' :: b)
    (hb : ',' ∉ b) (hadded : c ∉ TypeText.added) (hcb : c ∉ b) :
    c ∉ (arrayForm (applied name (keys ++ [value])).chars).toList := by
  have hlast : lastArgument (listed ((keys ++ [value]).map chars)) = trimChars b := by
    obtain ⟨front, hfront⟩ : ∃ front, listed ((keys ++ [value]).map chars) = front ++ value.chars := by
      rw [List.map_append, List.map_singleton]
      cases keys with
      | nil => exact ⟨[], by simp [listed]⟩
      | cons k ks => exact ⟨_, intercalate_concat (by simp) _ _⟩
    rw [hfront, hv, ← List.append_assoc, lastArgument_append hb]
  rw [arrayForm_of_closed hwf hc, chars_applied, partForm_collection hn, hlast]
  intro h
  rcases TypeText.mem_of_mem_ofText_array_text h with h | h
  · exact hadded h
  · rcases mem_arrayForm h with h | h
    · exact hadded h
    · exact hcb ((trimChars_sublist b).subset h)

/-- A marked value is still marked when it is made an array. -/
theorem mem_array_of_marked (hv : value.WellFormed) (hc : value.isClosed = true) (hfirst : value.names.head? = some "é")
    (hm : Marked value.chars) : 'é' ∈ (TypeText.ofText (arrayForm value.chars)).array.text.toList := by
  have hmem : 'é' ∈ value.chars := by
    obtain ⟨a, b, hchars, -, -⟩ := hm
    rw [hchars]
    simp
  have hwhole := (whole_chars_iff hv).2 hc
  -- unless the value is a name with arguments, it is kept as it is
  have hkept : value.chars.getLast? ≠ some '>' →
      'é' ∈ (TypeText.ofText (arrayForm value.chars)).array.text.toList := by
    intro hlast
    rw [arrayForm_of_closed hv hc, partForm_of_getLast hlast]
    refine TypeText.mem_ofText_array_text ?_ (by decide) (by decide) ?_
    · rwa [String.toList_ofList]
    · rwa [String.toList_ofList]
  cases hv with
  | name hs => exact hkept fun hlast => hs.mark_not_mem (by decide) (List.mem_of_getLast? hlast)
  | union => cases hc
  | group => exact hkept (by rw [chars_group, List.getLast?_cons, List.getLast?_append]; simp)
  | array => exact hkept (by simp)
  | @applied s arguments hs hne hws =>
    obtain rfl : s = "é" := by simpa using hfirst
    rw [arrayForm_of_closed (.applied hs hne hws) hc, chars_applied, partForm_other hs]
    · exact TypeText.mem_ofText_array_text (TypeText.whole_of_no_bar (by simp) 0) (by decide) (by decide) (by decide)
    · exact not_isCollection (c := 'é') (by decide) (by decide) (by decide)

/-- Where a bar is exposed among the arguments, the last part is what stands behind the last such bar. -/
theorem exists_last_part (hwf : (applied name ws).WellFormed) (hc : (applied name ws).isClosed = false) :
    ∃ front a b p, TypeText.splitUnionChars (applied name ws).chars = front ++ [p ++ ['>']] ∧
      listed (ws.map chars) = a ++ '|' :: b ++ p ∧ ∀ c ∈ b, isBlank c = true := by
  cases hwf with
  | applied hs hne hws =>
    have hchars : (applied name ws).chars = (name.toList ++ ['<']) ++ (listed (ws.map chars) ++ ['>']) := by simp
    have hnot : ¬ TypeText.Whole 0 (listed (ws.map chars) ++ ['>']) := by
      intro hwhole
      have hall : TypeText.Whole 0 (applied name ws).chars := by
        rw [hchars, TypeText.whole_append, hs.opening.2]
        exact ⟨hs.opening.1, hwhole⟩
      rw [whole_chars_iff (.applied hs hne hws), hc] at hall
      cases hall
    obtain ⟨front, a, b, hfront, hab, hpieces⟩ := TypeText.exists_last_piece_concat hnot (by decide)
    obtain ⟨f, fs, rfl⟩ := List.exists_cons_of_ne_nil hfront
    -- the name and its bracket stand in the first piece, which is not the last
    have hall : TypeText.pieces 0 (applied name ws).chars = ((name.toList ++ ['<'] ++ f) :: fs) ++ [b ++ ['>']] := by
      rw [hchars]
      exact TypeText.pieces_append hs.opening.1 (hs.opening.2.symm ▸ hpieces)
    obtain ⟨front, hsplit⟩ : ∃ front, TypeText.splitUnionChars (applied name ws).chars =
        front ++ [b.dropWhile isBlank ++ ['>']] := by
      unfold TypeText.splitUnionChars
      rw [hall, List.map_append, List.filter_append, List.map_singleton, trimChars_concat (by decide)]
      exact ⟨_, congrArg _ (by simp)⟩
    refine ⟨front, a, b.takeWhile isBlank, b.dropWhile isBlank, hsplit, ?_, fun c hc => List.mem_takeWhile_imp hc⟩
    rw [hab, List.append_assoc, List.cons_append, List.takeWhile_append_dropWhile]

/-- Behind an exposed bar, an angle bracket follows a name. -/
theorem isNameChar_before_angle (hws : ∀ w ∈ ws, w.WellFormed) {a b base args : List Char}
    (hlisted : listed (ws.map chars) = a ++ '|' :: b ++ (base ++ '<' :: args)) (hb : ∀ c ∈ b, isBlank c = true) :
    ∃ front d, base = front ++ [d] ∧ IsNameChar d := by
  have hne : ws ≠ [] := by
    rintro rfl
    simp [listed] at hlisted
  have hbehind := (isPhrase_listed (by simpa using hne) (List.forall_mem_map.2 fun w hw => (hws w hw).isPhrase)).behind
  rw [hlisted, ← List.append_assoc] at hbehind
  have hname : ∀ d ∈ (a ++ '|' :: b ++ base).getLast?, IsNameChar d := fun d hd =>
    (List.isChain_append.1 hbehind).2.2 d hd '<' rfl rfl
  rcases List.eq_nil_or_concat base with rfl | ⟨front, d, rfl⟩
  · -- the bar or the blank behind it cannot belong to a name
    have hd : IsNameChar (('|' :: b).getLast (List.cons_ne_nil '|' b)) := by
      refine hname _ ?_
      rw [List.append_nil, List.getLast?_append_cons]
      exact List.getLast?_eq_some_getLast _
    rcases List.mem_cons.1 (List.getLast_mem (List.cons_ne_nil '|' b)) with heq | hblank
    · rw [heq] at hd
      exact absurd hd (by decide)
    · exact absurd (hb _ hblank) (by rw [hd.1]; decide)
  · refine ⟨front, d, List.concat_eq_append, hname d ?_⟩
    rw [List.concat_eq_append, ← List.append_assoc, List.getLast?_concat]
    rfl

/-- A part without collections that ends with an angle bracket is kept, or becomes what stands before its first angle
bracket. -/
theorem getLast_partForm_open (hws : ∀ w ∈ ws, w.WellFormed) (hnames : ∀ w ∈ ws, ∀ s ∈ w.names, s = "é" ∨ s = "_")
    {a b p : List Char} (hlisted : listed (ws.map chars) = a ++ '|' :: b ++ p) (hb : ∀ c ∈ b, isBlank c = true) :
    ∃ c, c ≠ ']' ∧ (partForm (p ++ ['>'])).toList.getLast? = some c := by
  rcases generic?_cases (p ++ ['>']) with hnone | ⟨base, args, hp, -, hsome⟩
  · refine ⟨'>', by decide, ?_⟩
    rw [partForm_of_none hnone, String.toList_ofList, List.getLast?_concat]
  · rw [← List.cons_append, ← List.append_assoc] at hp
    obtain rfl : p = base ++ '<' :: args := List.append_inj_left' hp rfl
    obtain ⟨front, d, rfl, hd⟩ := isNameChar_before_angle hws hlisted hb
    have hmem : d ∈ listed (ws.map chars) := by
      rw [hlisted]
      simp
    have hletter : d = 'é' ∨ d = '_' := by
      obtain ⟨w, hw, s, hs, hds⟩ := exists_name_of_mem_listed hmem hd
      rcases hnames w hw s hs with rfl | rfl
      · exact Or.inl (List.mem_singleton.1 hds)
      · exact Or.inr (List.mem_singleton.1 hds)
    have hother : ¬ IsCollection (String.ofList (front ++ [d])) := by
      refine not_isCollection (c := d) ?_ ?_ (by simp)
      · rcases hletter with rfl | rfl <;> decide
      · rcases hletter with rfl | rfl <;> decide
    refine ⟨d, hd.ne (by decide), ?_⟩
    rw [partForm_of_not_isCollection hsome hother, String.toList_ofList, List.getLast?_concat]

/-- Where a bar is exposed among arguments with the names `é` and `_`, the type does not become an array. -/
theorem getLast_arrayForm_open (hwf : (applied name ws).WellFormed) (hc : (applied name ws).isClosed = false)
    (hnames : ∀ w ∈ ws, ∀ s ∈ w.names, s = "é" ∨ s = "_") :
    ∃ c, c ≠ ']' ∧ (arrayForm (applied name ws).chars).toList.getLast? = some c := by
  obtain ⟨front, a, b, p, hsplit, hlisted, hb⟩ := exists_last_part hwf hc
  have hws : ∀ w ∈ ws, w.WellFormed := by
    cases hwf with
    | applied _ _ hws => exact hws
  obtain ⟨c, hne, hlast⟩ := getLast_partForm_open hws hnames hlisted hb
  refine ⟨c, hne, ?_⟩
  rw [arrayForm_eq, hsplit, List.map_append, List.map_singleton, String.toList_intercalate, List.map_append,
    List.map_singleton]
  exact getLast?_intercalate_concat hlast _ _

/-! ### Types that become arrays -/

/-- Whatever the name of the collection and its case, the collection becomes the array of what its value becomes. -/
def BecomesArray (keys : List GenericType) (value : GenericType) : Prop :=
  ∀ name, IsCollection name →
    arrayForm (applied name (keys ++ [value])).chars = (TypeText.ofText (arrayForm value.chars)).array.text

/-- The same whatever the names in the arguments. -/
def AlwaysBecomesArray (keys : List GenericType) (value : GenericType) : Prop :=
  ∀ keys' value', keys'.map shape = keys.map shape → value'.shape = value.shape → (∀ k ∈ keys', k.WellFormed) →
    value'.WellFormed → BecomesArray keys' value'

theorem all_isClosed_congr {ws ws' : List GenericType} (h : ws'.map shape = ws.map shape) :
    ws'.all isClosed = ws.all isClosed := by
  have hshape : ∀ vs : List GenericType, vs.all isClosed = (vs.map shape).all isClosed := by
    intro vs
    rw [List.all_map]
    exact List.all_congr rfl fun v => (isClosed_shape v).symm
  rw [hshape, h, ← hshape]

/-- A marked value with a comma is lost among other names. -/
theorem isUnary_of_becomesArray (hk : ∀ k ∈ keys, k.WellFormed) (hv : value.WellFormed)
    (hc : (keys.all isClosed && value.isClosed) = true) (hfirst : value.names.head? = some "é")
    (hm : Marked value.chars) (h : BecomesArray keys value) : value.isUnary = true := by
  have hn : IsCollection "array" := by
    unfold IsCollection
    decide
  by_contra hunary
  have hcomma : ',' ∈ value.chars := (comma_mem_chars_iff hv).2 (by simpa using hunary)
  have hkept := mem_array_of_marked hv (Bool.and_eq_true_iff.1 hc).2 hfirst hm
  obtain ⟨before, after, hchars, hbefore, hafter⟩ := hm
  have hrest : ',' ∈ after.reverse := by
    rw [hchars] at hcomma
    simpa [hbefore] using hcomma
  -- the last comma stands behind the mark
  obtain ⟨b, a, hsplit, hb⟩ := List.eq_append_cons_of_mem hrest
  rw [← List.reverse_inj, List.reverse_reverse, List.reverse_append, List.reverse_cons, List.append_assoc] at hsplit
  have hlost : 'é' ∉ (arrayForm (applied "array" (keys ++ [value])).chars).toList := by
    refine not_mem_arrayForm_collection hn (wellFormed_collection hn hk hv) (isClosed_collection.trans hc)
      (a := before ++ 'é' :: a.reverse) (b := b.reverse) ?_ (by simpa using hb) (by decide) ?_
    · rw [hchars, hsplit]
      simp
    · rw [hsplit] at hafter
      simp only [List.mem_append, not_or] at hafter
      exact hafter.2.2
  rw [h "array" hn] at hlost
  exact hlost hkept

/-- A collection becomes the array of its value, whatever the names in it, just when every union among the arguments
stands in parentheses and no name in the value is applied to several arguments. -/
theorem alwaysBecomesArray_iff (hk : ∀ k ∈ keys, k.WellFormed) (hv : value.WellFormed) :
    AlwaysBecomesArray keys value ↔ (keys.all isClosed && value.isClosed) = true ∧ value.isUnary = true := by
  constructor
  · intro h
    obtain ⟨value', hv', hshape, hfirst, hnames, hmarked⟩ := exists_marked hv
    have hk' : ∀ k ∈ keys.map uniform, k.WellFormed := List.forall_mem_map.2 fun k hkeys => (hk k hkeys).uniform
    have hbecomes := h _ value' (map_shape_uniform keys) hshape hk' hv'
    have hn : IsCollection "array" := by
      unfold IsCollection
      decide
    have hclosed : ((keys.map uniform).all isClosed && value'.isClosed) = true := by
      by_contra hopen
      have hall : ∀ w ∈ keys.map uniform ++ [value'], ∀ s ∈ w.names, s = "é" ∨ s = "_" := by
        rw [List.forall_mem_append, List.forall_mem_singleton]
        exact ⟨List.forall_mem_map.2 fun k _ s hs => Or.inr (eq_of_mem_names_uniform hs), hnames⟩
      obtain ⟨c, hc, hlast⟩ := getLast_arrayForm_open (wellFormed_collection hn hk' hv')
        (isClosed_collection.trans (Bool.eq_false_iff.2 hopen)) hall
      rw [hbecomes "array" hn] at hlast
      rcases TypeText.array_text_ends (TypeText.ofText (arrayForm value'.chars)) with hnil | hbracket
      · rw [hnil] at hlast
        cases hlast
      · rw [hbracket] at hlast
        exact hc (Option.some.inj hlast).symm
    have hunary := isUnary_of_becomesArray hk' hv' hclosed hfirst hmarked hbecomes
    rw [all_isClosed_congr (map_shape_uniform keys), ← isClosed_shape value', hshape, isClosed_shape] at hclosed
    rw [← isUnary_shape, hshape, isUnary_shape] at hunary
    exact ⟨hclosed, hunary⟩
  · rintro ⟨hc, hu⟩ keys' value' hkeys hvalue hk' hv' name hn
    have hclosed : (applied name (keys' ++ [value'])).isClosed = true := by
      rw [isClosed_collection, all_isClosed_congr hkeys, ← isClosed_shape value', hvalue, isClosed_shape, hc]
    have hunary : value'.isUnary = true := by
      rw [← isUnary_shape, hvalue, isUnary_shape, hu]
    exact arrayForm_collection hn hk' hv' hclosed hunary

/-! ### Types without angle brackets -/

/-- A type whose applications are all recognised: none stands in parentheses or before brackets, and the arguments of
each can be told apart as far as they are read. -/
inductive Readable : GenericType → Prop where
  | plain {w : GenericType} (h : w.isPlain = true) : Readable w
  | union {members : List GenericType} (h : ∀ w ∈ members, Readable w) : Readable (.union members)
  | other {name : String} {arguments : List GenericType} (hn : ¬ IsCollection name)
    (closed : ∀ w ∈ arguments, w.isClosed = true) : Readable (.applied name arguments)
  | collection {name : String} {keys : List GenericType} {value : GenericType} (hn : IsCollection name)
    (closed : ∀ k ∈ keys ++ [value], k.isClosed = true) (unary : value.isUnary = true) (h : Readable value) :
    Readable (.applied name (keys ++ [value]))

/-- What is in the array form of a union is a bar, or in the array form of a member. -/
theorem mem_arrayForm_joined {parts : List (List Char)} (h : ∀ p ∈ parts, IsPhrase p)
    (hc : c ∈ (arrayForm (TypeText.joined parts)).toList) : c = '|' ∨ ∃ p ∈ parts, c ∈ (arrayForm p).toList := by
  rw [arrayForm_eq, TypeText.splitUnionChars_joined fun p hp => (h p hp).depth 0, String.toList_intercalate] at hc
  rcases mem_intercalate hc with hbar | ⟨_, hmem, hc⟩
  · exact Or.inl (List.mem_singleton.1 hbar)
  · obtain ⟨form, hform, rfl⟩ := List.mem_map.1 hmem
    obtain ⟨part, hpart, rfl⟩ := List.mem_map.1 hform
    obtain ⟨p, hp, hpart⟩ := List.mem_flatMap.1 hpart
    refine Or.inr ⟨p, hp, ?_⟩
    rw [arrayForm_eq, String.toList_intercalate]
    exact subset_intercalate (List.mem_map_of_mem (List.mem_map_of_mem hpart)) hc

/-- No angle bracket is left of a readable type. -/
theorem angle_not_mem_arrayForm (hw : w.WellFormed) (hr : Readable w) {m : Char} (hm : m = '<' ∨ m = '>') :
    m ∉ (arrayForm w.chars).toList := by
  have hadded : m ∉ TypeText.added := by
    rcases hm with rfl | rfl <;> decide
  induction hr with
  | plain h => exact fun hc => (mem_arrayForm hc).elim hadded (angle_not_mem_chars hw h hm)
  | @union members _ ih =>
    cases hw with
    | union hlen hws =>
      intro hc
      rw [chars_union] at hc
      have hphrases : ∀ p ∈ members.map chars, IsPhrase p := List.forall_mem_map.2 fun v hv => (hws v hv).isPhrase
      rcases mem_arrayForm_joined hphrases hc with rfl | ⟨p, hp, hc⟩
      · exact absurd hm (by decide)
      · obtain ⟨v, hv, rfl⟩ := List.mem_map.1 hp
        exact ih v hv (hws v hv) hc
  | @other name arguments hn closed =>
    have hc : (applied name arguments).isClosed = true := by
      rw [isClosed_applied, List.all_eq_true]
      exact closed
    rw [arrayForm_of_closed hw hc]
    cases hw with
    | applied hs =>
      rw [chars_applied, partForm_other hs hn]
      exact hs.mark_not_mem (by rcases hm with rfl | rfl <;> decide)
  | @collection name keys value hn closed unary _ ih =>
    cases hw with
    | applied hs _ hws =>
      obtain ⟨hk, hv⟩ := List.forall_mem_append.1 hws
      have hv := hv value (List.mem_singleton_self value)
      have hc : (applied name (keys ++ [value])).isClosed = true := by
        rw [isClosed_applied, List.all_eq_true]
        exact closed
      rw [arrayForm_collection hn hk hv hc unary]
      exact fun hmem => (TypeText.mem_of_mem_ofText_array_text hmem).elim hadded (ih hv)

/-- The brackets of a type that is not readable may all the same go, with something else in its place. -/
example : arrayForm "A<B<C>|D<E>>".toList = "A|D" := by
  decide +kernel

/-- Generic collections become arrays of what their values become, whatever their names, just when bars stand in
parentheses and the value has one argument for each name; and no angle bracket is left of a readable type. -/
theorem collections_become_arrays (hk : ∀ k ∈ keys, k.WellFormed) (hv : value.WellFormed) :
    (AlwaysBecomesArray keys value ↔
      (∀ k ∈ keys, k.isClosed = true) ∧ value.isClosed = true ∧ value.isUnary = true) ∧
    ∀ w : GenericType, w.WellFormed → Readable w →
      '<' ∉ (arrayForm w.chars).toList ∧ '>' ∉ (arrayForm w.chars).toList := by
  constructor
  · rw [alwaysBecomesArray_iff hk hv, Bool.and_eq_true, List.all_eq_true, and_assoc]
  · exact fun w hw hr => ⟨angle_not_mem_arrayForm hw hr (Or.inl rfl), angle_not_mem_arrayForm hw hr (Or.inr rfl)⟩

/-- A list of arrays of a union, in an array with integers for keys. -/
theorem collections_become_arrays_nested :
    let keys := [GenericType.name "int"]
    let value := applied "list" [.array (.group (.union [.name "A", .name "B"]))]
    (∀ k ∈ keys, k.WellFormed) ∧ value.WellFormed ∧ AlwaysBecomesArray keys value ∧
      arrayForm "Array<int, list<(A|B)[]>>".toList = "(A|B)[][][]" ∧ Readable (applied "Array" (keys ++ [value])) ∧
      '<' ∉ (arrayForm "Array<int, list<(A|B)[]>>".toList).toList := by
  intro keys value
  have hlist : IsCollection "list" ∧ IsCollection "Array" := by
    unfold IsCollection
    decide
  have hunion : (GenericType.union [.name "A", .name "B"]).WellFormed :=
    .union (by decide) (by simpa using ⟨.name (by decide), .name (by decide)⟩)
  have hkeys : ∀ k ∈ keys, k.WellFormed := List.forall_mem_singleton.2 (.name (by decide))
  have hvalue : value.WellFormed := .applied hlist.1.isTypeName (by simp) (by simpa using hunion.group.array)
  have hreadable : Readable (applied "Array" (keys ++ [value])) := by
    refine .collection hlist.2 (by decide) (by decide) ?_
    exact @Readable.collection "list" [] _ hlist.1 (by decide) (by decide) (.plain (by decide))
  obtain ⟨harray, hangle⟩ := collections_become_arrays hkeys hvalue
  have halways := harray.2 (by decide)
  have hform : (TypeText.ofText (arrayForm value.chars)).array.text = "(A|B)[][][]" := by decide +kernel
  exact ⟨hkeys, hvalue, halways, (halways _ _ rfl rfl hkeys hvalue "Array" hlist.2).trans hform, hreadable,
    (hangle _ (wellFormed_collection hlist.2 hkeys hvalue) hreadable).1⟩

/-- A collection whose value is a union, a collection whose value has several arguments, and an array of a generic type
are missed. -/
theorem generic_types_missed :
    IsCollection "array" ∧ (GenericType.union [.name "int", .name "string"]).WellFormed ∧
      (applied "array" [.union [.name "int", .name "string"]]).chars = "array<int|string>".toList ∧
      arrayForm "array<int|string>".toList = "array<int|string>" ∧
      (TypeText.ofText (arrayForm "int|string".toList)).array.text = "(int|string)[]" ∧
      arrayForm "list<Map<K, V>>".toList = "V>[]" ∧ arrayForm "Box<T>[]".toList = "Box<T>[]" := by
  refine ⟨by unfold IsCollection; decide, .union (by decide) ?_, by decide, ?_, ?_, ?_, ?_⟩
  · have hnamed : IsTypeName "int" ∧ IsTypeName "string" := by decide
    simpa using ⟨.name hnamed.1, .name hnamed.2⟩
  all_goals decide +kernel

end CodeAtlas.DocBlock
