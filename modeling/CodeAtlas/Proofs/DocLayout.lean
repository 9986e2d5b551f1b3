import CodeAtlas.Proofs.DocTags
import CodeAtlas.Proofs.LowerParts

/-!
# Documentation comments in the standard layout

A comment in the standard layout opens with two stars, has a star in front of each line, and closes on a line of its own
(`layout`).  Reading it gives each line without the star and without blanks at its ends (`contentLines_layout`); so the
description and the tags that were written are read back in order (`parse_layout`).
-/

namespace CodeAtlas

namespace Text

/-! ### Splitting at line ends -/

variable {sep : Char} {a : List Char}

theorem splitChars_append (h : sep ∉ a) (b : List Char) : splitChars sep (a ++ sep :: b) = a :: splitChars sep b := by
  induction a with
  | nil => rw [List.nil_append, splitChars, if_pos rfl]
  | cons c a ih =>
    rw [List.mem_cons, not_or] at h
    rw [List.cons_append, splitChars, if_neg (Ne.symm h.1), ih h.2]
    rfl

end Text

namespace DocBlock

open Text

/-! ### The layout -/

/-- The mark for inherited documentation. -/
def inheritMark : List Char :=
  "\x7b@inheritdoc\x7d".toList

/-- One line of a comment: it does not end early, and has no mark for inherited documentation in it. -/
structure IsLine (cs : List Char) : Prop where
  unbroken : '\n' ∉ cs
  unmarked : ¬ inheritMark <:+: cs.map asciiLowerChar

instance (cs : List Char) : Decidable (IsLine cs) :=
  decidable_of_iff ('\n' ∉ cs ∧ ¬ inheritMark <:+: cs.map asciiLowerChar)
    ⟨fun ⟨hunbroken, hunmarked⟩ => ⟨hunbroken, hunmarked⟩, fun h => ⟨h.unbroken, h.unmarked⟩⟩

/-- A line of a description. -/
structure DescriptionLine where
  chars : List Char
  nonempty : chars ≠ []
  trimmed : Trimmed chars
  isLine : IsLine chars
  /-- It is neither a tag nor begins with a star. -/
  start : ∀ c ∈ chars.head?, c ≠ '@' ∧ c ≠ '*'

/-- A line with a tag. -/
structure TagEntry where
  line : TagLine
  isLine : IsLine line.text

/-- The comment with these lines in it. -/
def layout (lines : List (List Char)) : String :=
  String.ofList ("/**\n".toList ++ lines.flatMap (fun l => " * ".toList ++ l ++ ['\n']) ++ " */".toList)

/-! ### Content -/

/-- What a line of a comment holds, without stars in front. -/
def lineContent (line : List Char) : List Char :=
  trimChars ((trimChars line).dropWhile (· == '*'))

/-- A line that can follow a star: it begins neither with a blank nor with another star. -/
structure Starred (cs : List Char) : Prop where
  unbroken : '\n' ∉ cs
  start : ∃ c tail, cs = c :: tail ∧ isBlank c = false ∧ c ≠ '*'

/-- The lines of a comment between its marks. -/
def starLines (lines : List (List Char)) : List Char :=
  lines.flatMap fun l => " * ".toList ++ l ++ ['\n']

theorem lineContent_star {cs : List Char} (h : Starred cs) : lineContent (" * ".toList ++ cs) = trimChars cs := by
  obtain ⟨c, tail, hcs, hc, -⟩ := h.start
  obtain ⟨front, back, hsplit, hfront, hback⟩ := trimChars_split cs
  obtain ⟨more, htrim⟩ : ∃ more, trimChars cs = c :: more := by
    rw [hcs]
    exact trimChars_cons hc tail
  -- nothing is cut off in front, since the line does not begin with a blank
  obtain rfl : front = [] := by
    cases front with
    | nil => rfl
    | cons d front =>
      rw [hcs] at hsplit
      obtain rfl : c = d := (List.cons.inj hsplit).1
      rw [hfront c List.mem_cons_self] at hc
      cases hc
  have hcontent : Trimmed ('*' :: ([' '] ++ trimChars cs)) :=
    Trimmed.cons rfl (trimmed_trimChars cs) (by rw [htrim]; exact List.cons_ne_nil c more) [' ']
  have hline : trimChars (" * ".toList ++ cs) = '*' :: ' ' :: trimChars cs := by
    calc trimChars (" * ".toList ++ cs)
      _ = trimChars ('*' :: ([' '] ++ cs)) := trimChars_blank rfl _
      _ = trimChars ('*' :: ([' '] ++ trimChars cs) ++ back) :=
        congrArg trimChars (congrArg (fun l => '*' :: ' ' :: l) hsplit)
      _ = '*' :: ' ' :: trimChars cs := by rw [trimChars_append_blanks hback, hcontent.trimChars_eq]; rfl
  unfold lineContent
  rw [hline]
  show trimChars (' ' :: trimChars cs) = trimChars cs
  rw [trimChars_blank rfl, trimChars_trimChars]

theorem splitChars_starLines {lines : List (List Char)} (h : ∀ l ∈ lines, Starred l) :
    (splitChars '\n' (starLines lines ++ [' '])).map lineContent = lines.map trimChars ++ [[]] := by
  induction lines with
  | nil => rfl
  | cons l lines ih =>
    obtain ⟨hl, hlines⟩ := List.forall_mem_cons.1 h
    have hunbroken : '\n' ∉ " * ".toList ++ l := by
      rw [List.mem_append, not_or]
      exact ⟨by decide, hl.unbroken⟩
    have hcons : starLines (l :: lines) ++ [' '] = (" * ".toList ++ l) ++ '\n' :: (starLines lines ++ [' ']) := by
      unfold starLines
      rw [List.flatMap_cons, List.append_assoc, List.append_assoc]
      rfl
    rw [hcons, splitChars_append hunbroken, List.map_cons, lineContent_star hl, ih hlines]
    rfl

/-- The lines of a comment in the standard layout are read without stars and blanks at their ends. -/
theorem contentLines_layout {lines : List (List Char)} (h : ∀ l ∈ lines, Starred l) :
    contentLines (layout lines) = [] :: (lines.map trimChars ++ [[]]) := by
  have hlayout : (layout lines).toList = '/' :: (('*' :: '*' :: '\n' :: (starLines lines ++ [' ', '*'])) ++ ['/']) := by
    unfold layout
    rw [String.toList_ofList, List.append_assoc]
    simp [starLines]
  have htrim : trimChars (layout lines).toList = (layout lines).toList := by
    rw [hlayout]
    exact (Trimmed.cons rfl (trimmed_singleton rfl) (List.cons_ne_nil _ _) _).trimChars_eq
  have hopening : dropOpening (layout lines).toList = '\n' :: (starLines lines ++ [' ', '*', '/']) := by
    rw [hlayout]
    simp [dropOpening]
  have hclosing : dropClosing ('\n' :: (starLines lines ++ [' ', '*', '/'])).reverse =
      ' ' :: ('\n' :: starLines lines).reverse := by
    rw [← List.cons_append, List.reverse_append]
    rfl
  have hbody : (' ' :: ('\n' :: starLines lines).reverse).reverse = '\n' :: (starLines lines ++ [' ']) := by simp
  have hfirst : splitChars '\n' ('\n' :: (starLines lines ++ [' '])) =
      [] :: splitChars '\n' (starLines lines ++ [' ']) :=
    splitChars_append List.not_mem_nil _
  unfold contentLines
  dsimp only
  rw [htrim, hopening, hclosing, hbody, hfirst, List.map_cons]
  exact congrArg _ (splitChars_starLines h)

/-! ### Reading back -/

theorem IsLine.of_prefix {a b : List Char} (h : IsLine (a ++ b)) : IsLine a where
  unbroken := fun hmem => h.unbroken (List.mem_append_left b hmem)
  unmarked := fun hmark => h.unmarked (by
    rw [List.map_append]
    exact hmark.trans (List.prefix_append _ _).isInfix)

/-- A line has no tag but the one that it begins with. -/
theorem IsLine.tagsOf_eq {cs : List Char} (h : IsLine cs) :
    tagsOf cs = if isTagLine cs then (readTag? cs).toList else [] := by
  have hmark : occursIn inheritMark (cs.map asciiLowerChar) = false :=
    Bool.eq_false_iff.2 fun hoccurs => h.unmarked (occursIn_iff.1 hoccurs)
  unfold inheritMark at hmark
  unfold tagsOf
  rw [hmark]
  rfl

namespace DescriptionLine

variable (l : DescriptionLine)

theorem starred : Starred l.chars where
  unbroken := l.isLine.unbroken
  start := by
    obtain ⟨c, tail, hcs⟩ := List.exists_cons_of_ne_nil l.nonempty
    have hhead : c ∈ l.chars.head? := by rw [hcs]; rfl
    exact ⟨c, tail, hcs, l.trimmed.first c hhead, (l.start c hhead).2⟩

theorem isTagLine_eq_false : isTagLine l.chars = false := by
  obtain ⟨c, tail, hcs⟩ := List.exists_cons_of_ne_nil l.nonempty
  have hne := (l.start c (by rw [hcs]; rfl)).1
  unfold isTagLine
  rw [hcs]
  simp [hne]

theorem tagsOf_eq_nil : tagsOf l.chars = [] := by
  rw [l.isLine.tagsOf_eq, l.isTagLine_eq_false]
  rfl

end DescriptionLine

namespace TagEntry

variable (e : TagEntry)

theorem isLine_shortText : IsLine e.line.shortText := by
  obtain ⟨back, hback⟩ := e.line.shortText_prefix_text
  have htext := e.isLine
  rw [← hback] at htext
  exact htext.of_prefix

theorem isTagLine_shortText : isTagLine e.line.shortText = true := by
  unfold isTagLine
  rw [e.line.head_shortText]
  rfl

theorem tagsOf_shortText : tagsOf e.line.shortText = [e.line.tag] := by
  rw [e.isLine_shortText.tagsOf_eq, e.isTagLine_shortText, e.line.readTag?_shortText]
  rfl

theorem starred_shortText : Starred e.line.shortText where
  unbroken := e.isLine_shortText.unbroken
  start := by
    obtain ⟨tail, htail⟩ := List.head?_eq_some_iff.1 e.line.head_shortText
    exact ⟨'@', tail, htail, rfl, by decide⟩

theorem starred_text : Starred e.line.text where
  unbroken := e.isLine.unbroken
  start := by
    obtain ⟨c, tail, hcons, hc⟩ := e.starred_shortText.start
    obtain ⟨back, hback⟩ := e.line.shortText_prefix_text
    exact ⟨c, tail ++ back, by rw [← hback, hcons, List.cons_append], hc⟩

end TagEntry

/-- The description as one text. -/
def writtenDescription (description : List DescriptionLine) : String :=
  "\n".intercalate (description.map (String.ofList ·.chars))

variable {description : List DescriptionLine} {entries : List TagEntry}

/-- What is read from lines of a description and then lines with tags, with an empty line before and after them. -/
theorem parse_of_contentLines {text : String}
    (h : contentLines text = [] :: (description.map (·.chars) ++ entries.map (·.line.shortText) ++ [[]])) :
    parse text = ⟨writtenDescription description, entries.map (·.line.tag)⟩ := by
  have hdescription : ((contentLines text).takeWhile (!isTagLine ·)).filter (!·.isEmpty) =
      description.map (·.chars) := by
    have hnone : ((entries.map (·.line.shortText) ++ [([] : List Char)]).takeWhile (!isTagLine ·)).filter
        (!·.isEmpty) = [] := by
      cases entries with
      | nil => rfl
      | cons e entries =>
        rw [List.map_cons, List.cons_append, List.takeWhile_cons_of_neg (by simp [e.isTagLine_shortText])]
        rfl
    have hlines : ∀ l ∈ description.map (·.chars), (!isTagLine l) = true :=
      List.forall_mem_map.2 fun l _ => by rw [l.isTagLine_eq_false]; rfl
    have hkept : (description.map (·.chars)).filter (!·.isEmpty) = description.map (·.chars) :=
      List.filter_eq_self.2 (List.forall_mem_map.2 fun l _ => by simpa using l.nonempty)
    rw [h, List.takeWhile_cons_of_pos rfl, List.append_assoc, List.takeWhile_append_of_pos hlines,
      List.filter_cons_of_neg (by simp), List.filter_append, hkept, hnone, List.append_nil]
  have htags : (contentLines text).flatMap tagsOf = entries.map (·.line.tag) := by
    have hempty : tagsOf [] = [] := by decide
    have hlines : (description.map (·.chars)).flatMap tagsOf = [] :=
      List.flatMap_eq_nil_iff.2 (List.forall_mem_map.2 fun l _ => l.tagsOf_eq_nil)
    have hentries : (entries.map (·.line.shortText)).flatMap tagsOf = entries.map (·.line.tag) := by
      rw [List.flatMap_map, List.map_eq_flatMap]
      exact List.flatMap_congr fun e _ => e.tagsOf_shortText
    rw [h, List.flatMap_cons, List.flatMap_append, List.flatMap_append, hlines, hentries, List.flatMap_singleton,
      hempty]
    simp
  unfold parse
  dsimp only
  rw [hdescription, htags, List.map_map]
  rfl

/-- A comment in the standard layout is read as what was written: the lines of its description, and its tags in order,
each with the array form of its type, its variable, its access and its remark.  It does not matter whether a blank is
written where the remark of a tag is empty. -/
theorem parse_layout (description : List DescriptionLine) (entries : List TagEntry) :
    parse (layout (description.map (·.chars) ++ entries.map (·.line.text))) =
        ⟨writtenDescription description, entries.map (·.line.tag)⟩ ∧
      parse (layout (description.map (·.chars) ++ entries.map (·.line.shortText))) =
        ⟨writtenDescription description, entries.map (·.line.tag)⟩ := by
  have hdescription : (description.map (·.chars)).map trimChars = description.map (·.chars) := by
    rw [List.map_map]
    exact List.map_congr_left fun l _ => l.trimmed.trimChars_eq
  have hread : ∀ lines : List (List Char), (∀ l ∈ lines, Starred l) →
      lines.map trimChars = entries.map (·.line.shortText) →
      parse (layout (description.map (·.chars) ++ lines)) =
        ⟨writtenDescription description, entries.map (·.line.tag)⟩ := by
    intro lines hstarred htrim
    refine parse_of_contentLines ?_
    rw [contentLines_layout, List.map_append, hdescription, htrim]
    exact List.forall_mem_append.2 ⟨List.forall_mem_map.2 fun l _ => l.starred, hstarred⟩
  constructor
  · refine hread _ (List.forall_mem_map.2 fun e _ => e.starred_text) ?_
    rw [List.map_map]
    exact List.map_congr_left fun e _ => e.line.trimChars_text
  · refine hread _ (List.forall_mem_map.2 fun e _ => e.starred_shortText) ?_
    rw [List.map_map]
    exact List.map_congr_left fun e _ => e.line.trimmed_shortText.trimChars_eq

/-- A description of one line. -/
private def finds : DescriptionLine where
  chars := "Finds users.".toList
  nonempty := by decide
  trimmed := by decide +kernel
  isLine := by decide +kernel
  start := by simp

/-- A type with a blank in its brackets. -/
private def keyedUsers : WrittenType where
  chars := "array<int, User>".toList
  isWord := by decide +kernel
  notVariable := by decide +kernel

private def maybeUser : WrittenType where
  chars := "?User".toList
  isWord := by decide +kernel
  notVariable := by decide +kernel

private def all : WrittenVariable where
  name := "all".toList
  plain := by simp [isBlank]

/-- A remark that leaves a bracket open. -/
private def unclosed : Remark where
  chars := "who (all".toList
  trimmed := by decide +kernel

private def unremarked : Remark where
  chars := []
  trimmed := by decide

private def entriesOfAllForms : List TagEntry :=
  [ ⟨.param keyedUsers all unclosed, by decide +kernel⟩,
    ⟨.returns maybeUser unremarked, by decide +kernel⟩,
    ⟨.var keyedUsers all unremarked, by decide +kernel⟩,
    ⟨.varUnnamed maybeUser unclosed (by decide +kernel), by decide +kernel⟩,
    ⟨.property .read keyedUsers all unclosed, by decide +kernel⟩ ]

theorem parse_layout_allForms :
    parse ("/**\n * Finds users.\n * @param array<int, User> $all who (all\n * @return ?User\n" ++
        " * @var array<int, User> $all\n * @var ?User who (all\n" ++
        " * @property-read array<int, User> $all who (all\n */") =
      ⟨"Finds users.",
        [ .param "User[]" "$all" "who (all", .returns "?User" "", .var "User[]" (some "$all") "",
          .var "?User" none "who (all", .property "User[]" "$all" .read "who (all" ]⟩ := by
  refine (congrArg parse ?_).trans ((parse_layout [finds] entriesOfAllForms).2.trans ?_)
  · decide +kernel
  · decide +kernel

end DocBlock

end CodeAtlas
