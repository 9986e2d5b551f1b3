import CodeAtlas.Proofs.TypeNames
import CodeAtlas.Proofs.TypeUnion

/-!
# Deferred names

Declared types keep the words for the current class until it is known which class that is; other types are resolved at
once.  Both ways agree (`withSelf_resolveDeferred`), although the deferred type is a text in between.  What stands for a
name is a word again, so it is found again in its part; and it is no word for the current class unless the name was one
(`resolveName_free`).
-/

namespace CodeAtlas

open Text

namespace TypeText

/-- A word that does not stand for the current class. -/
structure IsFreeWord (s : String) : Prop where
  isWord : IsWord s
  free : isSelfWord s = false

/-- A name that is not one of the words for the current class behind a backslash. -/
structure IsFreeName (s : String) : Prop where
  isName : IsName s
  free : ∀ word, isSelfWord word = true → s ≠ "\\" ++ word

/-- A name, or names in parentheses, with pairs of brackets after it. -/
inductive IsNamePart : String → Prop
  | name {s : String} (h : IsFreeName s) : IsNamePart s
  | group {names : List String} (h : ∀ s ∈ names, IsFreeName s) : IsNamePart ("(" ++ "|".intercalate names ++ ")")
  | array {part : String} (h : IsNamePart part) : IsNamePart (part ++ "[]")

end TypeText

/-- The resolver puts words in the place of names, and none that stands for the current class but that class. -/
structure Resolver.YieldsWords (r : Resolver) : Prop where
  space : TypeText.IsPlainText r.space
  base : TypeText.IsFreeWord r.baseName
  targets : ∀ rule ∈ r.rules, TypeText.IsFreeWord rule.target

namespace TypeText

variable {r : Resolver} {s : String}

theorem IsSegment.isFreeName (h : IsSegment s) : IsFreeName s := by
  refine ⟨h.isName, ?_⟩
  rintro word - rfl
  exact (h.plain '\\' (by simp)).2 (by decide)

/-! ### What stands for a name -/

private theorem isFreeWord_joinNames {outer inner : String} (ho : IsPlainText outer) (hi : IsWord inner)
    (hfree : outer = "" → isSelfWord inner = false) : IsFreeWord (Resolver.joinNames outer inner) := by
  unfold Resolver.joinNames
  split
  · rename_i h
    exact ⟨hi, hfree (by simpa using h)⟩
  · rename_i h
    rw [if_neg (by simpa using hi.nonempty)]
    have hword : IsWord outer := ⟨by simpa using h, ho⟩
    refine ⟨hword.qualified hi, isSelfWord_eq_false (isReserved_eq_false (c := '\\') ?_ (by decide))⟩
    simp

private theorem isFreeWord_unreserved (hr : r.YieldsWords) (hs : IsFreeName s) (h : isReserved s = false)
    (deferred : Bool) : IsFreeWord (resolveName r deferred s) := by
  have hword := hs.isName.isWord
  have hrelative : IsFreeWord (r.relative s) :=
    isFreeWord_joinNames hr.space hword fun _ => isSelfWord_eq_false h
  rcases backslash_cases s with hb | ⟨rest, rfl⟩ | ⟨first, rest, hne, hb, rfl⟩
  · rw [resolveName_plain h hword.nonempty hb]
    cases hrule : r.rule? s .cls with
    | none => exact hrelative
    | some rule => exact hr.targets rule (Resolver.mem_of_rule? hrule)
  · rw [resolveName_absolute]
    have hrest : rest ≠ "" := @IsName.rest_ne_empty _ hs.isName "" rest (by simp) rfl
    refine ⟨⟨hrest, fun c hc => hword.plain c (by simp [hc])⟩, ?_⟩
    exact Bool.eq_false_iff.2 fun hself => hs.free rest hself rfl
  · rw [resolveName_qualified hne hb]
    cases hrule : r.rule? first .cls with
    | none => exact hrelative
    | some rule =>
      have ht := (hr.targets rule (Resolver.mem_of_rule? hrule)).isWord
      have hrest : IsWord rest := ⟨hs.isName.rest_ne_empty hb rfl, fun c hc => hword.plain c (by simp [hc])⟩
      exact isFreeWord_joinNames ht.plain hrest fun h0 => absurd h0 ht.nonempty

private theorem isWord_of_reserved : ∀ word ∈ keywords, IsWord word := by
  decide

/-- What stands for a name other than the words for the current class is the same either way, and is no such word. -/
theorem resolveName_free (hr : r.YieldsWords) (hs : IsFreeName s) (h : isSelfWord s = false) :
    resolveName r true s = resolveName r false s ∧ IsFreeWord (resolveName r false s) := by
  refine ⟨by unfold resolveName; rw [h]; rfl, ?_⟩
  by_cases hres : isReserved s = true
  · have hmem := isReserved_iff.1 hres
    have hlower : IsFreeWord (asciiLower s) := by
      refine ⟨isWord_of_reserved _ hmem, Bool.eq_false_iff.2 fun hself => Bool.eq_false_iff.1 h ?_⟩
      rw [isSelfWord_iff, asciiLower_of_reserved _ hmem] at hself
      exact isSelfWord_iff.2 hself
    unfold resolveName
    rw [if_neg (Bool.eq_false_iff.1 h)]
    split
    · exact hr.base
    · exact hlower
  · exact isFreeWord_unreserved hr hs (Bool.not_eq_true _ ▸ hres) false

private theorem resolveName_self (h : isSelfWord s = true) :
    resolveName r true s = asciiLower s ∧ resolveName r false s = r.className := by
  unfold resolveName
  rw [h]
  exact ⟨rfl, rfl⟩

theorem isWord_resolveName (hr : r.YieldsWords) (hs : IsFreeName s) : IsWord (resolveName r true s) := by
  by_cases h : isSelfWord s = true
  · rw [(resolveName_self h).1]
    exact isWord_of_reserved _ (isReserved_iff.1 (isReserved_of_isSelfWord h))
  · obtain ⟨heq, hword⟩ := resolveName_free hr hs (Bool.not_eq_true _ ▸ h)
    exact heq ▸ hword.isWord

/-- Binding the class in what was deferred gives what stands for the name. -/
theorem bindName_resolveName (hr : r.YieldsWords) (hs : IsFreeName s) :
    bindName r.className (resolveName r true s) = resolveName r false s := by
  unfold bindName
  by_cases h : isSelfWord s = true
  · have hself : ∀ word ∈ selfWords, isSelfWord word = true := by decide
    rw [(resolveName_self h).1, (resolveName_self h).2, hself _ (isSelfWord_iff.1 h)]
    rfl
  · obtain ⟨heq, hword⟩ := resolveName_free hr hs (Bool.not_eq_true _ ▸ h)
    rw [heq, hword.free]
    rfl

/-! ### Parts and types -/

/-- A part with its names deferred and then bound. -/
theorem mapPart_bindName (hr : r.YieldsWords) {part : String} (h : IsNamePart part) :
    mapPart (bindName r.className) (mapPart (resolveName r true) part) = mapPart (resolveName r false) part := by
  induction h with
  | name h =>
    rw [mapPart_word _ h.isName.isWord, mapPart_word _ (isWord_resolveName hr h), mapPart_word _ h.isName.isWord,
      bindName_resolveName hr h]
  | @group names h =>
    have hnames : splitUnion ("|".intercalate names) = names := splitUnion_words fun s hs => (h s hs).isName.isWord
    have hdeferred : splitUnion ("|".intercalate (names.map (resolveName r true))) = names.map (resolveName r true) :=
      splitUnion_words (List.forall_mem_map.2 fun s hs => isWord_resolveName hr (h s hs))
    have hbound : (names.map (resolveName r true)).map (bindName r.className) = names.map (resolveName r false) := by
      rw [List.map_map]
      refine List.map_congr_left fun s hs => ?_
      rw [Function.comp_apply, bindName_resolveName hr (h s hs)]
    rw [mapPart_group _ hnames, mapPart_group _ hdeferred, hbound, mapPart_group _ hnames]
  | array _ ih => rw [mapPart_array, mapPart_array, mapPart_array, ih]

/-- Mapping the names twice, when the second function is applied to what the first one gives. -/
theorem mapLeaves_mapLeaves {f g h : String → String} {t : TypeText}
    (hparts : ∀ part ∈ t.parts, mapPart g (mapPart f part) = mapPart h part) :
    (t.mapLeaves f).mapLeaves g = t.mapLeaves h := by
  have hmap : ((t.parts.map (mapPart f)).map (mapPart g)) = t.parts.map (mapPart h) := by
    rw [List.map_map]
    refine List.map_congr_left fun part hpart => ?_
    rw [Function.comp_apply, hparts part hpart]
  suffices hlist : ((t.mapLeaves f).mapLeaves g).parts = (t.mapLeaves h).parts from congrArg TypeText.mk hlist
  unfold mapLeaves
  rw [parts_insertAll_empty, parts_insertAll_empty, parts_insertAll_empty, Keyed.eraseDups_map_eraseDups, hmap]

/-- Deferring the words for the current class and binding them to it later is resolving at once: for types of names,
groups of names and arrays of these, and for every resolver that yields words. -/
theorem withSelf_resolveDeferred {t : TypeText} (h : ∀ part ∈ t.parts, IsNamePart part) (hr : r.YieldsWords) :
    (t.resolveDeferred r).withSelf r.className = t.resolve r :=
  mapLeaves_mapLeaves fun part hpart => mapPart_bindName hr (h part hpart)

/-- An imported name, a group with a word for the current class, and such a word by itself. -/
theorem withSelf_resolveDeferred_grouped :
    let r : Resolver := ⟨"App", [⟨"App\\Foo", "App\\Base"⟩], [⟨.cls, "Bar", "Lib\\Bar"⟩]⟩
    let t : TypeText := ⟨["Bar[]", "(static|\\Other|Parent)[]", "$This"]⟩
    let resolved : TypeText := ⟨["Lib\\Bar[]", "(App\\Foo|Other|App\\Base)[]", "App\\Foo"]⟩
    (∀ part ∈ t.parts, IsNamePart part) ∧ r.YieldsWords ∧
      t.resolveDeferred r = ⟨["Lib\\Bar[]", "(static|Other|App\\Base)[]", "$this"]⟩ ∧
      (t.resolveDeferred r).withSelf r.className = resolved ∧ t.resolve r = resolved := by
  intro r t resolved
  have hseg : ∀ s ∈ ["Bar", "static", "Other", "Parent", "$This"], IsSegment s := by decide
  have hother : IsFreeName "\\Other" := by
    refine ⟨@IsName.absolute ["Other"] (by decide) (by simp [hseg]), fun word hword heq => ?_⟩
    have hno : isSelfWord "Other" = false := by decide
    obtain rfl : "Other" = word := (String.append_right_inj "\\").1 heq
    exact absurd hword (Bool.eq_false_iff.1 hno)
  have hgroup : ∀ s ∈ ["static", "\\Other", "Parent"], IsFreeName s := by
    simp [hother, (hseg "static" (by decide)).isFreeName, (hseg "Parent" (by decide)).isFreeName]
  have h : ∀ part ∈ t.parts, IsNamePart part := by
    have hbar : IsNamePart "Bar[]" := @IsNamePart.array "Bar" (.name (hseg "Bar" (by decide)).isFreeName)
    have hself : IsNamePart "$This" := .name (hseg "$This" (by decide)).isFreeName
    have hnames : IsNamePart "(static|\\Other|Parent)[]" :=
      @IsNamePart.array "(static|\\Other|Parent)" (.group hgroup)
    simp [t, hbar, hnames, hself]
  have hr : r.YieldsWords := by
    have hwords : ∀ s ∈ ["App", "App\\Base", "Lib\\Bar"], IsWord s ∧ isSelfWord s = false := by decide
    have hword : ∀ s ∈ ["App", "App\\Base", "Lib\\Bar"], IsFreeWord s := fun s hs =>
      ⟨(hwords s hs).1, (hwords s hs).2⟩
    exact ⟨(hword "App" (by decide)).isWord.plain, hword _ (by decide), by simp [r, hword]⟩
  have hresolve : t.resolve r = resolved := by decide
  have hdeferred : t.resolveDeferred r = ⟨["Lib\\Bar[]", "(static|Other|App\\Base)[]", "$this"]⟩ := by decide
  exact ⟨h, hr, hdeferred, (withSelf_resolveDeferred h hr).trans hresolve, hresolve⟩

end TypeText

end CodeAtlas
