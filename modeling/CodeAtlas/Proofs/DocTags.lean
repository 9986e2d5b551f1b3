import CodeAtlas.DocBlock
import CodeAtlas.Proofs.TypeNames
import CodeAtlas.Proofs.TypeReading

/-!
# Tags read from their lines

A tag line is a word for the tag, a type, often a variable, and a remark, with a blank between any two of them
(`TagLine`).  A type may have blanks inside its brackets and is one word all the same (`words_append`).  The remark is
whatever stands behind the last word that is used, whether its own brackets are closed or not (`textAfter_words`).  So a
tag line is read as the tag that it was written for (`TagLine.readTag?_text`).
-/

namespace CodeAtlas

namespace Text

/-! ### Trimmed texts -/

/-- No blank stands at either end. -/
structure Trimmed (cs : List Char) : Prop where
  first : ∀ c ∈ cs.head?, isBlank c = false
  last : ∀ c ∈ cs.getLast?, isBlank c = false

instance (cs : List Char) : Decidable (Trimmed cs) :=
  decidable_of_iff (cs.head?.all (!isBlank ·) = true ∧ cs.getLast?.all (!isBlank ·) = true) <| by
    simp only [Option.all_eq_true, Bool.not_eq_true']
    exact ⟨fun ⟨hfirst, hlast⟩ => ⟨hfirst, hlast⟩, fun h => ⟨h.first, h.last⟩⟩

variable {a b cs : List Char} {c : Char}

theorem Trimmed.trimChars_eq (h : Trimmed cs) : trimChars cs = cs := by
  have hdrop : cs.dropWhile isBlank = cs := by
    cases cs with
    | nil => rfl
    | cons c cs => exact List.dropWhile_cons_of_neg (by simp [h.first c rfl])
  rw [Text.trimChars_eq, hdrop, List.rdropWhile_eq_self_iff]
  intro hne
  simp [h.last _ (List.getLast_mem_getLast? hne)]

theorem trimmed_singleton (h : isBlank c = false) : Trimmed [c] :=
  ⟨by simpa using h, by simpa using h⟩

theorem trimmed_trimChars (cs : List Char) : Trimmed (trimChars cs) where
  first := by
    cases h : trimChars cs with
    | nil => exact nofun
    | cons c tail =>
      rintro _ ⟨⟩
      exact head_trimChars h
  last := by
    intro c hc
    have hne : (cs.dropWhile isBlank).rdropWhile isBlank ≠ [] := by
      rintro hnil
      rw [trimChars_eq, hnil] at hc
      cases hc
    have hlast := List.rdropWhile_last_not isBlank (cs.dropWhile isBlank) hne
    obtain rfl : ((cs.dropWhile isBlank).rdropWhile isBlank).getLast hne = c := by
      rw [trimChars_eq, List.getLast?_eq_some_getLast hne] at hc
      exact Option.some.inj hc
    exact Bool.not_eq_true _ ▸ hlast

theorem Trimmed.append (ha : Trimmed a) (hane : a ≠ []) (hb : Trimmed b) (hbne : b ≠ []) (m : List Char) :
    Trimmed (a ++ m ++ b) where
  first := by
    rw [List.append_assoc, List.head?_append_of_ne_nil _ hane]
    exact ha.first
  last := by
    rw [List.getLast?_append_of_ne_nil _ hbne]
    exact hb.last

theorem Trimmed.cons (hc : isBlank c = false) (hb : Trimmed b) (hbne : b ≠ []) (m : List Char) :
    Trimmed (c :: (m ++ b)) :=
  (trimmed_singleton hc).append (List.cons_ne_nil c []) hb hbne m

theorem trimChars_blank (h : isBlank c = true) (cs : List Char) : trimChars (c :: cs) = trimChars cs := by
  rw [trimChars_eq, trimChars_eq, List.dropWhile_cons_of_pos h]

/-- A text that does not end with a blank is not trimmed there. -/
theorem trimChars_concat (h : isBlank c = false) (cs : List Char) :
    trimChars (cs ++ [c]) = cs.dropWhile isBlank ++ [c] := by
  have hc : ¬ isBlank c = true := by simp [h]
  rw [trimChars_eq, List.dropWhile_append]
  split
  · rename_i hall
    rw [List.isEmpty_iff.1 hall, List.dropWhile_cons_of_neg hc]
    exact List.rdropWhile_concat_neg _ [] c hc
  · exact List.rdropWhile_concat_neg _ _ c hc

theorem trimChars_append_blanks (h : ∀ c ∈ b, isBlank c = true) (cs : List Char) :
    trimChars (cs ++ b) = trimChars cs := by
  induction b using List.reverseRecOn with
  | nil => rw [List.append_nil]
  | append_singleton b c ih =>
    obtain ⟨hb, hc⟩ := List.forall_mem_append.1 h
    rw [← ih hb, ← List.append_assoc, trimChars_eq, trimChars_eq, List.dropWhile_append]
    have hc : isBlank c = true := hc c (List.mem_singleton_self c)
    split
    · rename_i hall
      rw [List.isEmpty_iff.1 hall, List.dropWhile_cons_of_pos hc]
      rfl
    · rw [List.rdropWhile_concat, if_pos hc]

end Text

namespace DocBlock

open Text

/-! ### Words -/

/-- The depth of brackets after some characters. -/
def depthOf (depth : Nat) (cs : List Char) : Nat :=
  cs.foldl depthAfter depth

/-- Each blank stands inside brackets. -/
def Inside (depth : Nat) (cs : List Char) : Prop :=
  ∀ a c b, cs = a ++ c :: b → isBlank c = true → depthOf depth a ≠ 0

/-- The characters are not empty, each blank among them stands inside brackets, and no bracket is open at the end. -/
structure IsWord (cs : List Char) : Prop where
  nonempty : cs ≠ []
  inside : Inside 0 cs
  closed : depthOf 0 cs = 0

variable {cs rest : List Char} {c : Char} {depth : Nat}

theorem depthAfter_blank (h : isBlank c = true) (depth : Nat) : depthAfter depth c = depth := by
  have hplain : ∀ m ∈ ['<', '(', '\x7b', '>', ')', '\x7d'], isBlank m = false := by simp [isBlank]
  have hmark : ∀ m ∈ ['<', '(', '\x7b', '>', ')', '\x7d'], c ≠ m := fun m hm hcm =>
    absurd (hcm ▸ h) (Bool.eq_false_iff.1 (hplain m hm))
  simp only [List.mem_cons, List.not_mem_nil, or_false, forall_eq_or_imp, forall_eq] at hmark
  unfold depthAfter
  rw [if_neg (by simp [hmark]), if_neg (by simp [hmark])]

theorem Inside.tail (h : Inside depth (c :: cs)) : Inside (depthAfter depth c) cs := by
  rintro a d b rfl hd
  exact h (c :: a) d b rfl hd

theorem inside_nil (depth : Nat) : Inside depth [] := by
  intro a c b h
  cases a <;> cases h

theorem inside_cons_iff :
    Inside depth (c :: cs) ↔ (isBlank c = true → depth ≠ 0) ∧ Inside (depthAfter depth c) cs := by
  refine ⟨fun h => ⟨h [] c cs rfl, h.tail⟩, ?_⟩
  rintro ⟨hc, hcs⟩ a d b hsplit hd
  cases a with
  | nil =>
    cases hsplit
    exact hc hd
  | cons c' a =>
    cases hsplit
    exact hcs a d b rfl hd

instance decidableInside : (depth : Nat) → (cs : List Char) → Decidable (Inside depth cs)
  | depth, [] => .isTrue (inside_nil depth)
  | depth, c :: cs =>
    have := decidableInside (depthAfter depth c) cs
    decidable_of_iff _ inside_cons_iff.symm

instance (cs : List Char) : Decidable (IsWord cs) :=
  decidable_of_iff (cs ≠ [] ∧ Inside 0 cs ∧ depthOf 0 cs = 0)
    ⟨fun ⟨hnonempty, hinside, hclosed⟩ => ⟨hnonempty, hinside, hclosed⟩,
      fun h => ⟨h.nonempty, h.inside, h.closed⟩⟩

/-- A character inside a word does not end it. -/
theorem Inside.head (h : Inside depth (c :: cs)) : (isBlank c && depthAfter depth c == 0) = false := by
  by_cases hc : isBlank c = true
  · have hdepth : depth ≠ 0 := h [] c cs rfl hc
    rw [depthAfter_blank hc]
    simp [hdepth]
  · rw [Bool.not_eq_true] at hc
    rw [hc, Bool.false_and]

/-- A word that has been begun takes in all characters whose blanks stand inside brackets. -/
theorem wordsFrom_append (h : Inside depth cs) (w : Word) (rest : List Char) :
    wordsFrom depth (some w) (cs ++ rest) =
      wordsFrom (depthOf depth cs) (some ⟨cs.reverse ++ w.chars, w.onward⟩) rest := by
  induction cs generalizing depth w with
  | nil => rfl
  | cons c cs ih =>
    rw [List.cons_append, wordsFrom, h.head, ih h.tail, List.reverse_cons, List.append_assoc]
    rfl

theorem IsWord.words_eq (h : IsWord cs) (rest : List Char) :
    words (cs ++ rest) = wordsFrom 0 (some ⟨cs.reverse, cs ++ rest⟩) rest := by
  obtain ⟨c, tail, rfl⟩ := List.exists_cons_of_ne_nil h.nonempty
  have hclosed : depthOf (depthAfter 0 c) tail = 0 := h.closed
  rw [words, List.cons_append, wordsFrom, h.inside.head]
  show wordsFrom _ (some ⟨[c], _⟩) _ = _
  rw [wordsFrom_append h.inside.tail, hclosed, List.reverse_cons]

theorem IsWord.words_self (h : IsWord cs) : words cs = [⟨cs, cs⟩] := by
  have hwords := h.words_eq []
  rw [List.append_nil] at hwords
  rw [hwords, wordsFrom, Option.map_some, List.reverse_reverse]
  rfl

/-- A word before a blank is read as it is. -/
theorem IsWord.words_append (h : IsWord cs) (hc : isBlank c = true) (rest : List Char) :
    words (cs ++ c :: rest) = ⟨cs, cs ++ c :: rest⟩ :: words rest := by
  have hends : (isBlank c && depthAfter 0 c == 0) = true := by
    rw [hc, depthAfter_blank hc]
    rfl
  rw [h.words_eq, wordsFrom, hends, depthAfter_blank hc, Option.map_some, List.reverse_reverse]
  rfl

/-- A word that has been begun comes first, and knows where it began. -/
theorem wordsFrom_some (depth : Nat) (w : Word) (cs : List Char) :
    ∃ more ws, wordsFrom depth (some w) cs = ⟨w.chars.reverse ++ more, w.onward⟩ :: ws := by
  induction cs generalizing depth w with
  | nil => exact ⟨[], [], by rw [wordsFrom, List.append_nil]; rfl⟩
  | cons c cs ih =>
    rw [wordsFrom]
    split
    · exact ⟨[], wordsFrom (depthAfter depth c) none cs, by rw [List.append_nil]; rfl⟩
    · obtain ⟨more, ws, hws⟩ := ih (depthAfter depth c) ⟨c :: w.chars, w.onward⟩
      exact ⟨c :: more, ws, by rw [hws, List.reverse_cons, List.append_assoc]; rfl⟩

/-- Where a text begins without a blank, there begins its first word. -/
theorem words_cons (h : isBlank c = false) (cs : List Char) :
    ∃ more ws, words (c :: cs) = ⟨c :: more, c :: cs⟩ :: ws := by
  rw [words, wordsFrom, h]
  exact wordsFrom_some _ ⟨[c], c :: cs⟩ cs

/-- All of a trimmed text stands after no word of it. -/
theorem textAfter_words (h : Trimmed cs) : textAfter (words cs) 0 = String.ofList cs := by
  cases cs with
  | nil => rfl
  | cons c cs =>
    obtain ⟨more, ws, hws⟩ := words_cons (h.first c rfl) cs
    unfold textAfter
    rw [hws, List.getElem?_cons_zero]
    exact congrArg String.ofList h.trimChars_eq

/-- A text that does not begin with a dollar sign does not begin with a variable. -/
theorem head_words_filter (h : Trimmed cs) (hvar : isVariable cs = false) :
    (words cs).head?.filter (isVariable ·.chars) = none := by
  cases cs with
  | nil => rfl
  | cons c cs =>
    obtain ⟨more, ws, hws⟩ := words_cons (h.first c rfl) cs
    rw [hws, List.head?_cons]
    exact Option.filter_eq_none_iff.2 (by rintro _ ⟨⟩; exact Bool.eq_false_iff.1 hvar)

theorem IsWord.trimmed (h : IsWord cs) : Trimmed cs where
  first := by
    obtain ⟨c, tail, rfl⟩ := List.exists_cons_of_ne_nil h.nonempty
    rintro _ ⟨⟩
    exact Bool.eq_false_iff.2 fun hc => h.inside [] c tail rfl hc rfl
  last := by
    obtain ⟨front, c, rfl⟩ := (List.eq_nil_or_concat cs).resolve_left h.nonempty
    intro d hd
    obtain rfl : c = d := by simpa using hd
    refine Bool.eq_false_iff.2 fun hc => h.inside front c [] (by simp) hc ?_
    -- a blank at the end would leave the brackets around it open
    have hclosed := h.closed
    unfold depthOf at hclosed
    rwa [List.concat_eq_append, List.foldl_append, List.foldl_cons, List.foldl_nil, depthAfter_blank hc] at hclosed

/-! ### Tag lines -/

/-- A type as it stands in a tag line. -/
structure WrittenType where
  chars : List Char
  isWord : IsWord chars
  /-- No dollar sign stands in front, not even behind the marks for references and variable arguments. -/
  notVariable : isVariable (withoutMarks chars) = false

/-- A variable, without the dollar sign in front of its name. -/
structure WrittenVariable where
  name : List Char
  plain : ∀ c ∈ name, isBlank c = false ∧ c ∉ ['<', '>', '(', ')', '\x7b', '\x7d']

def WrittenVariable.chars (v : WrittenVariable) : List Char :=
  '$' :: v.name

/-- What is said about a tag, perhaps nothing. -/
structure Remark where
  chars : List Char
  trimmed : Trimmed chars

/-- The remark with the blank in front of it, if there is a remark. -/
def Remark.after (d : Remark) : List Char :=
  if d.chars = [] then [] else ' ' :: d.chars

inductive TagLine where
  | param (type : WrittenType) (name : WrittenVariable) (remark : Remark)
  | returns (type : WrittenType) (remark : Remark)
  | var (type : WrittenType) (name : WrittenVariable) (remark : Remark)
  /-- Without a variable of its own; the remark must not begin with one. -/
  | varUnnamed (type : WrittenType) (remark : Remark) (notVariable : isVariable remark.chars = false)
  | property (access : TagAccess) (type : WrittenType) (name : WrittenVariable) (remark : Remark)

namespace TagLine

def word : TagLine → String
  | .param .. => "@param"
  | .returns .. => "@return"
  | .var .. | .varUnnamed .. => "@var"
  | .property .readWrite .. => "@property"
  | .property .read .. => "@property-read"
  | .property .write .. => "@property-write"

/-- All words for tags that can stand in such a line. -/
def tagWords : List String :=
  ["@param", "@return", "@var", "@property", "@property-read", "@property-write"]

/-- The type and the variable. -/
def subject : TagLine → List Char
  | .param t v _ | .var t v _ | .property _ t v _ => t.chars ++ ' ' :: v.chars
  | .returns t _ | .varUnnamed t _ _ => t.chars

def remark : TagLine → Remark
  | .param _ _ d | .returns _ d | .var _ _ d | .varUnnamed _ d _ | .property _ _ _ d => d

/-- The line with a blank after each part, also where the remark is empty. -/
def text (l : TagLine) : List Char :=
  l.word.toList ++ ' ' :: l.subject ++ ' ' :: l.remark.chars

/-- The line without a blank at its end. -/
def shortText (l : TagLine) : List Char :=
  l.word.toList ++ ' ' :: l.subject ++ l.remark.after

/-- The tag that is meant. -/
def tag : TagLine → DocTag
  | .param t v d => .param (arrayForm t.chars) (String.ofList v.chars) (String.ofList d.chars)
  | .returns t d => .returns (arrayForm t.chars) (String.ofList d.chars)
  | .var t v d => .var (arrayForm t.chars) (some (String.ofList v.chars)) (String.ofList d.chars)
  | .varUnnamed t d _ => .var (arrayForm t.chars) none (String.ofList d.chars)
  | .property access t v d => .property (arrayForm t.chars) (String.ofList v.chars) access (String.ofList d.chars)

end TagLine

theorem WrittenType.isVariable_eq_false (t : WrittenType) : isVariable t.chars = false := by
  refine Bool.eq_false_iff.2 fun hvar => ?_
  obtain ⟨tail, htail⟩ : ∃ tail, t.chars = '$' :: tail := by
    cases hchars : t.chars with
    | nil => rw [hchars] at hvar; cases hvar
    | cons c tail =>
      rw [hchars] at hvar
      obtain rfl : c = '$' := by simpa [isVariable] using hvar
      exact ⟨tail, rfl⟩
  have hnot := t.notVariable
  rw [htail] at hnot
  cases hnot

theorem WrittenVariable.isWord (v : WrittenVariable) : IsWord v.chars where
  nonempty := List.cons_ne_nil _ _
  inside := by
    intro a c b hsplit hc
    have hmem : c ∈ '$' :: v.name := by
      show c ∈ v.chars
      rw [hsplit]
      simp
    rcases List.mem_cons.1 hmem with rfl | hmem
    · cases hc
    · rw [(v.plain c hmem).1] at hc
      cases hc
  closed := by
    have hkeep : ∀ cs : List Char, (∀ c ∈ cs, c ∉ ['<', '>', '(', ')', '\x7b', '\x7d']) → depthOf 0 cs = 0 := by
      intro cs hcs
      induction cs with
      | nil => rfl
      | cons c cs ih =>
        obtain ⟨hc, hcs⟩ := List.forall_mem_cons.1 hcs
        simp only [List.mem_cons, List.not_mem_nil, or_false, not_or] at hc
        have hdepth : depthAfter 0 c = 0 := by simp [depthAfter, hc]
        show depthOf (depthAfter 0 c) cs = 0
        rw [hdepth, ih hcs]
    exact hkeep v.name fun c hc => (v.plain c hc).2

/-- After a word only the remark is left to read. -/
theorem words_after (h : IsWord cs) (d : Remark) : words (cs ++ d.after) = ⟨cs, cs ++ d.after⟩ :: words d.chars := by
  unfold Remark.after
  split
  · rename_i hempty
    rw [List.append_nil, h.words_self, hempty]
    rfl
  · exact h.words_append rfl d.chars

theorem trimmed_after (h : Trimmed cs) (hne : cs ≠ []) (d : Remark) : Trimmed (cs ++ d.after) := by
  unfold Remark.after
  split
  · rwa [List.append_nil]
  · rename_i hremark
    have happ := h.append hne d.trimmed hremark [' ']
    rwa [List.append_assoc] at happ

theorem trimChars_remark (h : Trimmed cs) (hne : cs ≠ []) (d : Remark) :
    trimChars (cs ++ ' ' :: d.chars) = cs ++ d.after := by
  by_cases hempty : d.chars = []
  · have hafter : d.after = [] := if_pos hempty
    rw [hempty, hafter, trimChars_append_blanks (by simp [isBlank]), List.append_nil, h.trimChars_eq]
  · have hafter : d.after = ' ' :: d.chars := if_neg hempty
    rw [← hafter]
    exact (trimmed_after h hne d).trimChars_eq

variable (t : WrittenType) (v : WrittenVariable) (d : Remark)

/-- A type and a variable are read as two words. -/
theorem words_subject : words (t.chars ++ ' ' :: v.chars ++ d.after) =
    ⟨t.chars, t.chars ++ ' ' :: (v.chars ++ d.after)⟩ :: ⟨v.chars, v.chars ++ d.after⟩ :: words d.chars := by
  rw [List.append_assoc, List.cons_append, t.isWord.words_append rfl, words_after v.isWord]

theorem readParam?_subject : readParam? (t.chars ++ ' ' :: v.chars ++ d.after) =
    some (.param (arrayForm t.chars) (String.ofList v.chars) (String.ofList d.chars)) := by
  have hname : isVariable (withoutMarks v.chars) = true := rfl
  have htext : textAfter (words d.chars) 0 = String.ofList d.chars := textAfter_words d.trimmed
  unfold readParam?
  dsimp only
  rw [words_subject]
  refine (if_neg (Bool.eq_false_iff.1 t.notVariable)).trans ((if_pos hname).trans ?_)
  rw [← htext]
  rfl

theorem readVar?_subject : readVar? (t.chars ++ ' ' :: v.chars ++ d.after) =
    some (.var (arrayForm t.chars) (some (String.ofList v.chars)) (String.ofList d.chars)) := by
  have htext : textAfter (words d.chars) 0 = String.ofList d.chars := textAfter_words d.trimmed
  unfold readVar?
  dsimp only
  rw [words_subject]
  dsimp only
  rw [t.isVariable_eq_false, ← htext]
  rfl

theorem readProperty?_subject (access : TagAccess) : readProperty? access (t.chars ++ ' ' :: v.chars ++ d.after) =
    some (.property (arrayForm t.chars) (String.ofList v.chars) access (String.ofList d.chars)) := by
  have htext : textAfter (words d.chars) 0 = String.ofList d.chars := textAfter_words d.trimmed
  unfold readProperty?
  dsimp only
  rw [words_subject]
  dsimp only
  rw [t.isVariable_eq_false, ← htext]
  rfl

theorem readReturn?_type : readReturn? (t.chars ++ d.after) =
    some (.returns (arrayForm t.chars) (String.ofList d.chars)) := by
  have htext : textAfter (words d.chars) 0 = String.ofList d.chars := textAfter_words d.trimmed
  unfold readReturn?
  dsimp only
  rw [words_after t.isWord, ← htext]
  rfl

theorem readVar?_type (h : isVariable d.chars = false) : readVar? (t.chars ++ d.after) =
    some (.var (arrayForm t.chars) none (String.ofList d.chars)) := by
  have htext : textAfter (words d.chars) 0 = String.ofList d.chars := textAfter_words d.trimmed
  unfold readVar?
  dsimp only
  rw [words_after t.isWord]
  dsimp only
  rw [t.isVariable_eq_false, head_words_filter d.trimmed h, ← htext]
  rfl

namespace TagLine

variable (l : TagLine)

theorem trimmed_subject : Trimmed l.subject ∧ l.subject ≠ [] := by
  have hboth : ∀ (t : WrittenType) (v : WrittenVariable),
      Trimmed (t.chars ++ ' ' :: v.chars) ∧ t.chars ++ ' ' :: v.chars ≠ [] := by
    intro t v
    have happ := t.isWord.trimmed.append t.isWord.nonempty v.isWord.trimmed v.isWord.nonempty [' ']
    rw [List.append_assoc] at happ
    exact ⟨happ, List.append_ne_nil_of_left_ne_nil t.isWord.nonempty _⟩
  cases l with
  | param t v _ | var t v _ | property _ t v _ => exact hboth t v
  | returns t _ | varUnnamed t _ _ => exact ⟨t.isWord.trimmed, t.isWord.nonempty⟩

theorem word_mem : l.word ∈ tagWords := by
  cases l with
  | property access => cases access <;> simp [word, tagWords]
  | _ => simp [word, tagWords]

theorem word_not_blank : ∀ c ∈ l.word.toList, isBlank c = false := by
  have hall : ∀ w ∈ tagWords, w.toList.all (!isBlank ·) = true := by decide
  intro c hc
  simpa using List.all_eq_true.1 (hall l.word l.word_mem) c hc

theorem head_word : l.word.toList.head? = some '@' :=
  have hall : ∀ w ∈ tagWords, w.toList.head? = some '@' := by decide
  hall l.word l.word_mem

theorem word_ne_nil : l.word.toList ≠ [] := by
  intro hnil
  have hhead := l.head_word
  rw [hnil] at hhead
  cases hhead

theorem asciiLower_word : asciiLower (String.ofList l.word.toList) = l.word :=
  have hall : ∀ w ∈ tagWords, asciiLower (String.ofList w.toList) = w := by decide
  hall l.word l.word_mem

theorem trimmed_head : Trimmed (l.word.toList ++ ' ' :: l.subject) := by
  obtain ⟨htrimmed, hne⟩ := l.trimmed_subject
  have hword : Trimmed l.word.toList :=
    ⟨fun c hc => l.word_not_blank c (List.mem_of_mem_head? hc),
      fun c hc => l.word_not_blank c (List.mem_of_getLast? hc)⟩
  have happ := hword.append l.word_ne_nil htrimmed hne [' ']
  rwa [List.append_assoc] at happ

theorem trimmed_shortText : Trimmed l.shortText :=
  trimmed_after l.trimmed_head (List.append_ne_nil_of_left_ne_nil l.word_ne_nil _) l.remark

theorem trimChars_text : trimChars l.text = l.shortText :=
  trimChars_remark l.trimmed_head (List.append_ne_nil_of_left_ne_nil l.word_ne_nil _) l.remark

theorem head_shortText : l.shortText.head? = some '@' := by
  unfold shortText
  rw [List.append_assoc, List.head?_append_of_ne_nil _ l.word_ne_nil, l.head_word]

/-- Without a remark the blank at the end is left out. -/
theorem shortText_prefix_text : l.shortText <+: l.text := by
  unfold shortText text Remark.after
  split
  · exact List.prefix_append_right_inj _ |>.2 (List.nil_prefix)
  · exact List.prefix_refl _

/-- A tag line is read as its tag. -/
theorem readTag?_shortText : readTag? l.shortText = some l.tag := by
  have hsplit : splitOnce? isBlank l.shortText = some (l.word.toList, l.subject ++ l.remark.after) := by
    unfold shortText
    rw [List.append_assoc, List.cons_append]
    exact splitOnce?_append l.word_not_blank rfl _
  have hrest : trimChars (l.subject ++ l.remark.after) = l.subject ++ l.remark.after :=
    (trimmed_after l.trimmed_subject.1 l.trimmed_subject.2 l.remark).trimChars_eq
  unfold readTag?
  rw [hsplit]
  dsimp only
  rw [hrest, l.asciiLower_word]
  cases l with
  | param t v d => exact readParam?_subject t v d
  | returns t d => exact readReturn?_type t d
  | var t v d => exact readVar?_subject t v d
  | varUnnamed t d h => exact readVar?_type t d h
  | property access t v d =>
    have hread := readProperty?_subject t v d access
    cases access with
    | readWrite => exact hread
    | read => exact hread
    | write => exact hread

end TagLine

end DocBlock

end CodeAtlas
