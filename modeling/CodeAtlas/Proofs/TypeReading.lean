import CodeAtlas.Proofs.TypeText
import Mathlib.Algebra.Group.Action.Defs
import Mathlib.Algebra.Order.BigOperators.Group.List
import Mathlib.Algebra.Order.Group.Nat
import Mathlib.Data.List.DropRight

/-!
# Reading back types

When the parts of a type are written with bars between them and read again, a part is lost if it is empty, split if it
has a bar of its own, changed if it has blanks around it or a question mark in front, and joined with the next one if it
leaves a parenthesis open.  A type without such parts is read back (`ofText_text`), and no other type is: reading back
may undo the damage to one part only through another part that is damaged as well, and following these parts never ends
(`sameParts_ofText_iff`).
-/

namespace CodeAtlas

/-! ### Trimming -/

namespace Text

theorem trimChars_eq (cs : List Char) : trimChars cs = (cs.dropWhile isBlank).rdropWhile isBlank :=
  rfl

/-- What trimming takes away at both ends is blank. -/
theorem trimChars_split (cs : List Char) :
    ∃ a b, cs = a ++ trimChars cs ++ b ∧ (∀ c ∈ a, isBlank c = true) ∧ ∀ c ∈ b, isBlank c = true := by
  refine ⟨cs.takeWhile isBlank, (cs.dropWhile isBlank).rtakeWhile isBlank, ?_, ?_, ?_⟩
  · rw [trimChars_eq, List.append_assoc, List.rdropWhile_append_rtakeWhile, List.takeWhile_append_dropWhile]
  · exact fun c => List.mem_takeWhile_imp
  · exact fun c => List.mem_rtakeWhile_imp

/-- A text that does not begin with a blank is not trimmed there. -/
theorem trimChars_cons {c : Char} (h : isBlank c = false) (cs : List Char) : ∃ r, trimChars (c :: cs) = c :: r := by
  have hdrop : (c :: cs).dropWhile isBlank = c :: cs := List.dropWhile_cons_of_neg (by simp [h])
  have hpre : (c :: cs).rdropWhile isBlank <+: c :: cs := List.rdropWhile_prefix _ _
  rw [trimChars_eq, hdrop]
  cases hr : (c :: cs).rdropWhile isBlank with
  | nil =>
    have := List.rdropWhile_eq_nil_iff.1 hr c List.mem_cons_self
    rw [h] at this
    cases this
  | cons d r =>
    rw [hr, List.cons_prefix_cons] at hpre
    exact ⟨r, by rw [hpre.1]⟩

/-- What is left after trimming does not begin with a blank. -/
theorem head_trimChars {cs r : List Char} {c : Char} (h : trimChars cs = c :: r) : isBlank c = false := by
  have hpre : trimChars cs <+: cs.dropWhile isBlank := List.rdropWhile_prefix _ _
  have hhead := List.head?_dropWhile_not isBlank cs
  rw [h] at hpre
  obtain ⟨rest, hrest⟩ := hpre
  rw [← hrest] at hhead
  exact hhead

theorem trimChars_trimChars (cs : List Char) : trimChars (trimChars cs) = trimChars cs := by
  cases h : trimChars cs with
  | nil => rfl
  | cons c r =>
    have hdrop : (c :: r).dropWhile isBlank = c :: r := List.dropWhile_cons_of_neg (by simp [head_trimChars h])
    rw [trimChars_eq, hdrop, ← h, trimChars_eq, List.rdropWhile_idempotent]

theorem trimChars_of_not_blank {cs : List Char} (h : ∀ c ∈ cs, isBlank c = false) : trimChars cs = cs := by
  have hdrop : cs.dropWhile isBlank = cs := by
    cases cs with
    | nil => rfl
    | cons c cs => exact List.dropWhile_cons_of_neg (by simp [h c List.mem_cons_self])
  rw [trimChars_eq, hdrop, List.rdropWhile_eq_self_iff]
  intro hne
  simp [h _ (List.getLast_mem hne)]

/-- Trimming only takes blanks away. -/
theorem count_trimChars {c : Char} (h : isBlank c = false) (cs : List Char) : (trimChars cs).count c = cs.count c := by
  obtain ⟨a, b, hcs, ha, hb⟩ := trimChars_split cs
  have hnone : ∀ l : List Char, (∀ x ∈ l, isBlank x = true) → l.count c = 0 := by
    intro l hl
    rw [List.count_eq_zero]
    intro hc
    rw [hl c hc] at h
    cases h
  calc (trimChars cs).count c
    _ = (a ++ trimChars cs ++ b).count c := by
      rw [List.count_append, List.count_append, hnone a ha, hnone b hb, Nat.zero_add, Nat.add_zero]
    _ = cs.count c := by rw [← hcs]

theorem length_trimChars_le (cs : List Char) : (trimChars cs).length ≤ cs.length := by
  obtain ⟨a, b, hcs, -, -⟩ := trimChars_split cs
  have hlen := congrArg List.length hcs
  rw [List.length_append, List.length_append] at hlen
  omega

end Text

namespace TypeText

open Text

/-! ### Bars outside parentheses -/

/-- The depth of parentheses after some characters. -/
def depthOf (depth : Nat) (cs : List Char) : Nat :=
  cs.foldl depthAfter depth

/-- No bar stands outside all parentheses, from a place at the given depth on. -/
def Whole : Nat → List Char → Prop
  | _, [] => True
  | depth, c :: cs => ¬ (c = '|' ∧ depth = 0) ∧ Whole (depthAfter depth c) cs

theorem whole_append {depth : Nat} {a b : List Char} :
    Whole depth (a ++ b) ↔ Whole depth a ∧ Whole (depthOf depth a) b := by
  induction a generalizing depth with
  | nil => simp [Whole, depthOf]
  | cons c a ih =>
    rw [List.cons_append, Whole, Whole, ih, and_assoc]
    rfl

theorem depthAfter_mono {d d' : Nat} (h : d ≤ d') (c : Char) : depthAfter d c ≤ depthAfter d' c := by
  unfold depthAfter
  split
  · omega
  · split <;> omega

/-- Standing deeper does not expose a bar. -/
theorem Whole.deeper {d d' : Nat} {cs : List Char} (h : Whole d cs) (hd : d ≤ d') : Whole d' cs := by
  induction cs generalizing d d' with
  | nil => trivial
  | cons c cs ih =>
    obtain ⟨hc, hcs⟩ := h
    exact ⟨fun hbar => hc ⟨hbar.1, by omega⟩, ih hcs (depthAfter_mono hd c)⟩

theorem pieces_ne_nil (depth : Nat) (cs : List Char) : pieces depth cs ≠ [] := by
  cases cs with
  | nil => exact List.cons_ne_nil _ _
  | cons c cs =>
    unfold pieces
    split
    · exact List.cons_ne_nil _ _
    · cases pieces (depthAfter depth c) cs <;> exact List.cons_ne_nil _ _

/-- Characters without an exposed bar belong to the first piece. -/
theorem pieces_append {depth : Nat} {a b g : List Char} {gs : List (List Char)} (ha : Whole depth a)
    (hb : pieces (depthOf depth a) b = g :: gs) : pieces depth (a ++ b) = (a ++ g) :: gs := by
  induction a generalizing depth with
  | nil => exact hb
  | cons c a ih =>
    rw [List.cons_append, pieces, if_neg ha.1, ih ha.2 hb]
    rfl

theorem pieces_of_whole {depth : Nat} {cs : List Char} (h : Whole depth cs) : pieces depth cs = [cs] := by
  have hp : pieces depth (cs ++ []) = [cs ++ []] := pieces_append h rfl
  rwa [List.append_nil] at hp

/-- A bar outside all parentheses ends a piece. -/
theorem pieces_bar {depth : Nat} (h : depth = 0) (cs : List Char) : pieces depth ('|' :: cs) = [] :: pieces 0 cs := by
  rw [pieces, if_pos ⟨rfl, h⟩]

/-- A bar inside parentheses belongs to the piece. -/
theorem pieces_bar_inside {depth : Nat} (h : depth ≠ 0) {cs g : List Char} {gs : List (List Char)}
    (hp : pieces depth cs = g :: gs) : pieces depth ('|' :: cs) = ('|' :: g) :: gs := by
  have hdepth : depthAfter depth '|' = depth := rfl
  rw [pieces, if_neg (fun hbar => h hbar.2), hdepth, hp]
  rfl

/-- No piece has an exposed bar. -/
theorem whole_of_pieces {depth : Nat} {cs g : List Char} {gs : List (List Char)} (h : pieces depth cs = g :: gs) :
    Whole depth g ∧ ∀ x ∈ gs, Whole 0 x := by
  induction cs generalizing depth g gs with
  | nil =>
    cases h
    exact ⟨trivial, nofun⟩
  | cons c cs ih =>
    rw [pieces] at h
    split at h
    · cases h
      refine ⟨trivial, fun x hx => ?_⟩
      cases hp : pieces 0 cs with
      | nil => exact absurd hp (pieces_ne_nil 0 cs)
      | cons g' gs' =>
        obtain ⟨h1, h2⟩ := ih hp
        rw [hp] at hx
        rcases List.mem_cons.1 hx with rfl | hx
        · exact h1
        · exact h2 x hx
    · rename_i hbar
      cases hp : pieces (depthAfter depth c) cs with
      | nil => exact absurd hp (pieces_ne_nil _ cs)
      | cons g' gs' =>
        obtain ⟨h1, h2⟩ := ih hp
        rw [hp] at h
        cases h
        exact ⟨⟨hbar, h1⟩, h2⟩

theorem whole_iff {depth : Nat} {cs : List Char} : Whole depth cs ↔ pieces depth cs = [cs] :=
  ⟨pieces_of_whole, fun h => (whole_of_pieces h).1⟩

theorem whole_of_mem_pieces {cs g : List Char} (h : g ∈ pieces 0 cs) : Whole 0 g := by
  cases hp : pieces 0 cs with
  | nil => exact absurd hp (pieces_ne_nil 0 cs)
  | cons g' gs =>
    rw [hp] at h
    obtain ⟨h1, h2⟩ := whole_of_pieces hp
    rcases List.mem_cons.1 h with rfl | h
    · exact h1
    · exact h2 g h

/-! ### Runs of parts -/

/-- The characters of the parts with bars between them. -/
def joined (parts : List (List Char)) : List Char :=
  ['|'].intercalate parts

theorem joined_singleton (p : List Char) : joined [p] = p := by
  simp [joined]

theorem joined_cons_cons (p q : List Char) (ps : List (List Char)) :
    joined (p :: q :: ps) = p ++ '|' :: joined (q :: ps) := by
  unfold joined
  rw [List.intercalate_cons_cons, List.append_assoc]
  rfl

/-- The run is the part `p`, or begins with `p` and a bar. -/
def BeginsRun (p run : List Char) : Prop :=
  run = p ∨ ∃ rest, run = p ++ '|' :: rest

/-- The pieces of a joined text are runs of its parts; there are no more of them than parts. -/
theorem pieces_joined {p : List Char} {ps : List (List Char)} (h : ∀ q ∈ p :: ps, Whole 0 q) (depth : Nat) :
    ∃ run runs, pieces depth (joined (p :: ps)) = run :: runs ∧ BeginsRun p run ∧
      (∀ r ∈ runs, ∃ q ∈ ps, BeginsRun q r) ∧ runs.length ≤ ps.length := by
  induction ps generalizing p depth with
  | nil =>
    have hp := (h p List.mem_cons_self).deeper (Nat.zero_le depth)
    exact ⟨p, [], by rw [joined_singleton, pieces_of_whole hp], Or.inl rfl, nofun, Nat.le_refl 0⟩
  | cons q qs ih =>
    obtain ⟨hp, hqs⟩ := List.forall_mem_cons.1 h
    rw [joined_cons_cons]
    by_cases hd : depthOf depth p = 0
    · -- the part closes its parentheses, so the bar ends the piece
      obtain ⟨run, runs, hrun, hq, hruns, hlen⟩ := ih hqs 0
      refine ⟨p, run :: runs, ?_, Or.inl rfl, ?_, by simpa using hlen⟩
      · rw [pieces_append (hp.deeper (Nat.zero_le depth)) (pieces_bar hd _), List.append_nil, hrun]
      · intro r hr
        rcases List.mem_cons.1 hr with rfl | hr
        · exact ⟨q, List.mem_cons_self, hq⟩
        · obtain ⟨q', hq', hb⟩ := hruns r hr
          exact ⟨q', List.mem_cons_of_mem q hq', hb⟩
    · -- the bar stands inside the parenthesis that the part leaves open
      obtain ⟨run, runs, hrun, hq, hruns, hlen⟩ := ih hqs (depthOf depth p)
      refine ⟨p ++ '|' :: run, runs, ?_, Or.inr ⟨run, rfl⟩, ?_, Nat.le_succ_of_le hlen⟩
      · exact pieces_append (hp.deeper (Nat.zero_le depth)) (pieces_bar_inside hd hrun)
      · intro r hr
        obtain ⟨q', hq', hb⟩ := hruns r hr
        exact ⟨q', List.mem_cons_of_mem q hq', hb⟩

/-- If every part but the last closes its parentheses, the pieces are the parts. -/
theorem pieces_of_closed {p : List Char} {ps : List (List Char)} (h : ∀ q ∈ p :: ps, Whole 0 q)
    (hc : ∀ q ∈ (p :: ps).dropLast, depthOf 0 q = 0) : pieces 0 (joined (p :: ps)) = p :: ps := by
  induction ps generalizing p with
  | nil => rw [joined_singleton, pieces_of_whole (h p List.mem_cons_self)]
  | cons q qs ih =>
    obtain ⟨hp, hqs⟩ := List.forall_mem_cons.1 h
    rw [List.dropLast_cons_cons] at hc
    obtain ⟨hpc, hqc⟩ := List.forall_mem_cons.1 hc
    rw [joined_cons_cons, pieces_append hp (pieces_bar hpc _), List.append_nil, ih hqs hqc]

/-- If there are as many pieces as parts, every part but the last closes its parentheses. -/
theorem closed_of_pieces {p : List Char} {ps : List (List Char)} (h : ∀ q ∈ p :: ps, Whole 0 q)
    (hlen : ps.length + 1 ≤ (pieces 0 (joined (p :: ps))).length) : ∀ q ∈ (p :: ps).dropLast, depthOf 0 q = 0 := by
  induction ps generalizing p with
  | nil => exact nofun
  | cons q qs ih =>
    obtain ⟨hp, hqs⟩ := List.forall_mem_cons.1 h
    obtain ⟨run, runs, hrun, -, -, hle⟩ := pieces_joined hqs (depthOf 0 p)
    rw [joined_cons_cons, List.length_cons] at hlen
    by_cases hd : depthOf 0 p = 0
    · rw [pieces_append hp (pieces_bar hd _), List.length_cons] at hlen
      rw [List.dropLast_cons_cons, List.forall_mem_cons]
      exact ⟨hd, ih hqs (by omega)⟩
    · rw [pieces_append hp (pieces_bar_inside hd hrun), List.length_cons] at hlen
      omega

/-! ### Parts as they are read -/

/-- Trimming does not expose a bar. -/
theorem whole_trimChars {cs : List Char} (h : Whole 0 cs) : Whole 0 (trimChars cs) := by
  obtain ⟨a, b, hcs, ha, -⟩ := trimChars_split cs
  have hdepth : ∀ l : List Char, (∀ c ∈ l, isBlank c = true) → depthOf 0 l = 0 := by
    intro l
    induction l with
    | nil => exact fun _ => rfl
    | cons c l ih =>
      intro hl
      obtain ⟨hc, hl⟩ := List.forall_mem_cons.1 hl
      have hstep : depthAfter 0 c = 0 := by
        unfold depthAfter
        split
        · rename_i hparen
          rw [hparen] at hc
          cases hc
        · split <;> rfl
      show depthOf (depthAfter 0 c) l = 0
      rw [hstep, ih hl]
  rw [hcs, List.append_assoc, whole_append, hdepth a ha, whole_append] at h
  exact h.2.1

/-- A part that is read as it is written. -/
structure IsPlainPart (part : String) : Prop where
  nonempty : part ≠ ""
  trimmed : Text.trim part = part
  /-- No question mark stands in front. -/
  unmarked : Text.beginsWith part "?" = false
  /-- No bar stands outside all parentheses. -/
  whole : pieces 0 part.toList = [part.toList]

/-- What the characters of a trimmed piece stand for. -/
theorem expand_ofList {cs : List Char} (ht : trimChars cs = cs) (hne : cs ≠ []) :
    (∃ inner, cs = '?' :: inner ∧ expand (String.ofList cs) = [String.ofList inner, "null"]) ∨
      Text.beginsWith (String.ofList cs) "?" = false ∧ expand (String.ofList cs) = [String.ofList cs] := by
  obtain ⟨c, r, rfl⟩ := List.exists_cons_of_ne_nil hne
  have htrim : Text.trim (String.ofList (c :: r)) = String.ofList (c :: r) := by
    unfold Text.trim
    rw [String.toList_ofList, ht]
  have hmark : "?".toList = ['?'] := rfl
  unfold expand Text.beginsWith Text.afterStart?
  simp only [htrim, String.toList_ofList, hmark]
  by_cases hc : '?' = c
  · subst hc
    exact Or.inl ⟨r, rfl, by simp [List.isPrefixOf?]⟩
  · have hbeq : ('?' == c) = false := beq_eq_false_iff_ne.2 hc
    exact Or.inr ⟨by simp [List.isPrefixOf, hbeq], by simp [List.isPrefixOf?, hbeq]⟩

theorem mem_ofText {text part : String} : part ∈ (ofText text).parts ↔
    ∃ piece ∈ pieces 0 text.toList, trimChars piece ≠ [] ∧ part ∈ expand (String.ofList (trimChars piece)) := by
  unfold ofText splitUnion splitUnionChars
  simp [empty, and_assoc]

/-- Where a part that was read comes from: it is plain, or stands after a question mark at the start of a piece. -/
theorem mem_ofText_cases {text part : String} (h : part ∈ (ofText text).parts) :
    IsPlainPart part ∨ ∃ piece ∈ pieces 0 text.toList, trimChars piece = '?' :: part.toList := by
  obtain ⟨piece, hp, hne, hpart⟩ := mem_ofText.1 h
  have ht := trimChars_trimChars piece
  rcases expand_ofList ht hne with ⟨inner, hinner, he⟩ | ⟨hmark, he⟩
  · rw [he, List.mem_cons, List.mem_singleton] at hpart
    rcases hpart with rfl | rfl
    · exact Or.inr ⟨piece, hp, by rw [hinner, String.toList_ofList]⟩
    · exact Or.inl ⟨by decide, by decide, by decide, by decide⟩
  · rw [he, List.mem_singleton] at hpart
    subst hpart
    refine Or.inl ⟨?_, ?_, hmark, ?_⟩
    · intro h0
      exact hne (by simpa using congrArg String.toList h0)
    · unfold Text.trim
      rw [String.toList_ofList, ht]
    · rw [String.toList_ofList]
      exact pieces_of_whole (whole_trimChars (whole_of_mem_pieces hp))

namespace IsPlainPart

variable {part : String}

theorem trimChars_toList (h : IsPlainPart part) : trimChars part.toList = part.toList := by
  have := congrArg String.toList h.trimmed
  rwa [Text.trim, String.toList_ofList] at this

theorem toList_ne_nil (h : IsPlainPart part) : part.toList ≠ [] :=
  fun h0 => h.nonempty (String.toList_eq_nil_iff.1 h0)

theorem expand_eq (h : IsPlainPart part) : expand part = [part] := by
  rcases expand_ofList h.trimChars_toList h.toList_ne_nil with ⟨inner, hinner, -⟩ | ⟨-, he⟩
  · have hmark := h.unmarked
    unfold Text.beginsWith at hmark
    rw [hinner] at hmark
    cases hmark
  · rwa [String.ofList_toList] at he

/-- A plain part begins with a character that is neither blank nor a question mark. -/
theorem toList_eq_cons (h : IsPlainPart part) : ∃ c r, part.toList = c :: r ∧ isBlank c = false ∧ c ≠ '?' := by
  obtain ⟨c, r, hcons⟩ := List.exists_cons_of_ne_nil h.toList_ne_nil
  refine ⟨c, r, hcons, head_trimChars (h.trimChars_toList.trans hcons), ?_⟩
  rintro rfl
  have hmark := h.unmarked
  unfold Text.beginsWith at hmark
  rw [hcons] at hmark
  cases hmark

end IsPlainPart

/-! ### Types that are read back -/

/-- All parts are plain, and all but the last close their parentheses. -/
structure Settled (t : TypeText) : Prop where
  plain : ∀ part ∈ t.parts, IsPlainPart part
  closed : ∀ part ∈ t.parts.dropLast, depthOf 0 part.toList = 0

theorem toList_text (t : TypeText) : t.text.toList = joined (t.parts.map String.toList) := by
  unfold text joined
  rw [String.toList_intercalate]
  rfl

/-- A text is split into the parts that it is joined of, if none of them is empty, has blanks around it or a bar of its
own, and all but the last close their parentheses. -/
theorem splitUnion_of_whole {t : TypeText} (hne : ∀ part ∈ t.parts, part ≠ "")
    (htrim : ∀ part ∈ t.parts, trimChars part.toList = part.toList) (hw : ∀ part ∈ t.parts, Whole 0 part.toList)
    (hc : ∀ part ∈ t.parts.dropLast, depthOf 0 part.toList = 0) : splitUnion t.text = t.parts := by
  obtain ⟨parts⟩ := t
  cases parts with
  | nil => rfl
  | cons p ps =>
    have hpieces : pieces 0 (text ⟨p :: ps⟩).toList = (p :: ps).map String.toList := by
      rw [toList_text]
      refine pieces_of_closed (List.forall_mem_map.2 hw) ?_
      rw [← List.map_cons, ← List.map_dropLast]
      exact List.forall_mem_map.2 hc
    have htrims : ((p :: ps).map String.toList).map trimChars = (p :: ps).map String.toList := by
      rw [List.map_map]
      exact List.map_congr_left htrim
    have hkeep : ((p :: ps).map String.toList).filter (!·.isEmpty) = (p :: ps).map String.toList := by
      rw [List.filter_eq_self]
      exact List.forall_mem_map.2 fun part hpart => by simpa using hne part hpart
    unfold splitUnion splitUnionChars
    rw [hpieces, htrims, hkeep, List.map_map]
    exact List.map_id'' (fun _ => String.ofList_toList) _

/-- The text of a settled type is split into its parts. -/
theorem splitUnion_text {t : TypeText} (h : t.Settled) : splitUnion t.text = t.parts :=
  splitUnion_of_whole (fun part hpart => (h.plain part hpart).nonempty)
    (fun part hpart => (h.plain part hpart).trimChars_toList) (fun part hpart => whole_iff.2 (h.plain part hpart).whole)
    h.closed

/-- The parts of a settled type stand for themselves. -/
theorem Settled.flatMap_expand {t : TypeText} (h : t.Settled) : t.parts.flatMap expand = t.parts := by
  rw [List.flatMap_congr fun part hpart => (h.plain part hpart).expand_eq, List.flatMap_singleton' _]

/-- A settled type is read back from its text, its parts in order. -/
theorem ofText_text {t : TypeText} (hn : t.parts.Nodup) (h : t.Settled) : ofText t.text = t := by
  unfold ofText
  rw [splitUnion_text h, h.flatMap_expand]
  exact insertAll_of_nodup hn

/-- The pieces of a written type are runs of its parts. -/
private theorem exists_beginsRun {t : TypeText} (hw : ∀ part ∈ t.parts, Whole 0 part.toList) {piece : List Char}
    (h : piece ∈ pieces 0 t.text.toList) (hne : trimChars piece ≠ []) : ∃ q ∈ t.parts, BeginsRun q.toList piece := by
  rw [toList_text] at h
  cases hparts : t.parts with
  | nil =>
    rw [hparts] at h
    obtain rfl : piece = [] := by simpa [joined, pieces] using h
    exact absurd rfl hne
  | cons p ps =>
    rw [hparts] at h hw
    have hwhole : ∀ q ∈ p.toList :: ps.map String.toList, Whole 0 q := List.forall_mem_map.2 hw
    obtain ⟨run, runs, hrun, hb, hruns, -⟩ := pieces_joined hwhole 0
    rw [List.map_cons, hrun] at h
    rcases List.mem_cons.1 h with rfl | h
    · exact ⟨p, List.mem_cons_self, hb⟩
    · obtain ⟨q, hq, hbq⟩ := hruns piece h
      obtain ⟨part, hpart, rfl⟩ := List.mem_map.1 hq
      exact ⟨part, List.mem_cons_of_mem p hpart, hbq⟩

/-- A run that begins with a plain part has no question mark in front. -/
private theorem unmarked_of_plain {q : String} {piece : List Char} (hq : IsPlainPart q)
    (hrun : BeginsRun q.toList piece) (inner : List Char) : trimChars piece ≠ '?' :: inner := by
  obtain ⟨c, r, hcons, hblank, hmark⟩ := hq.toList_eq_cons
  have hpiece : ∃ r', piece = c :: r' := by
    rcases hrun with rfl | ⟨rest, rfl⟩
    · exact ⟨r, hcons⟩
    · exact ⟨r ++ '|' :: rest, by rw [hcons]; rfl⟩
  obtain ⟨r', rfl⟩ := hpiece
  obtain ⟨r'', htrim⟩ := trimChars_cons hblank r'
  rw [htrim]
  exact fun h => hmark (List.cons.inj h).1

/-- A part that is read but is not plain stands after a question mark at the start of a run of parts.  The part that
begins the run is not plain either, and has fewer bars, or as many bars and more characters. -/
private theorem exists_damaged {t : TypeText} (hw : ∀ part ∈ t.parts, Whole 0 part.toList) {part : String}
    (h : part ∈ (ofText t.text).parts) (hd : ¬ IsPlainPart part) :
    ∃ q ∈ t.parts, ¬ IsPlainPart q ∧ (q.toList.count '|' < part.toList.count '|' ∨
      q.toList.count '|' = part.toList.count '|' ∧ part.toList.length < q.toList.length) := by
  obtain ⟨piece, hp, htrim⟩ := (mem_ofText_cases h).resolve_left hd
  obtain ⟨q, hq, hrun⟩ := exists_beginsRun hw hp (by rw [htrim]; exact List.cons_ne_nil _ _)
  have hbars : piece.count '|' = part.toList.count '|' := by
    rw [← count_trimChars (c := '|') rfl piece, htrim]
    simp
  refine ⟨q, hq, fun hplain => unmarked_of_plain hplain hrun _ htrim, ?_⟩
  rcases hrun with rfl | ⟨rest, rfl⟩
  · have hlen := length_trimChars_le q.toList
    rw [htrim, List.length_cons] at hlen
    exact Or.inr ⟨hbars, hlen⟩
  · rw [List.count_append, List.count_cons_self] at hbars
    exact Or.inl (by omega)

/-- If all parts are read again, all of them are plain. -/
private theorem plain_of_reread {t : TypeText} (h : ∀ part ∈ t.parts, part ∈ (ofText t.text).parts) :
    ∀ part ∈ t.parts, IsPlainPart part := by
  have hw : ∀ part ∈ t.parts, Whole 0 part.toList := by
    intro part hpart
    rcases mem_ofText_cases (h part hpart) with hplain | ⟨piece, hp, htrim⟩
    · exact whole_iff.2 hplain.whole
    · have hpiece := whole_trimChars (whole_of_mem_pieces hp)
      rw [htrim] at hpiece
      exact hpiece.2
  let bound := (t.parts.map (·.toList.length)).sum
  have hbound : ∀ q ∈ t.parts, q.toList.length ≤ bound := fun q hq =>
    List.single_le_sum (fun _ _ => Nat.zero_le _) _ (List.mem_map_of_mem hq)
  -- from a damaged part to the one that begins its run: first the bars decrease, then the length grows up to the bound
  have hnone : ∀ n, ∀ part ∈ t.parts, part.toList.count '|' * (bound + 1) + (bound - part.toList.length) = n →
      IsPlainPart part := by
    intro n
    induction n using Nat.strongRecOn with
    | _ n ih =>
      intro part hpart hn
      by_contra hd
      obtain ⟨q, hq, hqd, hless⟩ := exists_damaged hw (h part hpart) hd
      refine hqd (ih _ ?_ q hq rfl)
      have hqb := hbound q hq
      have hpb := hbound part hpart
      rcases hless with hbars | ⟨hbars, hlen⟩
      · have hmul := Nat.mul_le_mul_right (bound + 1) (Nat.succ_le_of_lt hbars)
        rw [Nat.succ_mul] at hmul
        omega
      · rw [hbars]
        omega
  exact fun part hpart => hnone _ part hpart rfl

/-- A type of plain parts has no more parts when it is read than pieces in its text. -/
private theorem length_ofText_le {t : TypeText} (h : ∀ part ∈ t.parts, IsPlainPart part) :
    (ofText t.text).parts.length ≤ (pieces 0 t.text.toList).length := by
  have hw : ∀ part ∈ t.parts, Whole 0 part.toList := fun part hpart => whole_iff.2 (h part hpart).whole
  have hone : ∀ x ∈ splitUnion t.text, (expand x).length ≤ 1 := by
    intro x hx
    obtain ⟨cs, hcs, rfl⟩ := List.mem_map.1 hx
    obtain ⟨hcs, hne⟩ := List.mem_filter.1 hcs
    obtain ⟨piece, hp, rfl⟩ := List.mem_map.1 hcs
    have hne : trimChars piece ≠ [] := by simpa using hne
    obtain ⟨q, hq, hrun⟩ := exists_beginsRun hw hp hne
    rcases expand_ofList (trimChars_trimChars piece) hne with ⟨inner, hinner, -⟩ | ⟨-, he⟩
    · exact absurd hinner (unmarked_of_plain (h q hq) hrun inner)
    · rw [he]
      exact Nat.le_refl 1
  have hflat : ((splitUnion t.text).flatMap expand).length ≤ (splitUnion t.text).length := by
    have hsum := List.sum_le_card_nsmul _ 1 (List.forall_mem_map.2 hone)
    rwa [← List.length_flatMap, List.length_map, smul_eq_mul, Nat.mul_one] at hsum
  calc (ofText t.text).parts.length
    _ ≤ 0 + ((splitUnion t.text).flatMap expand).length := length_insertAll_le empty _
    _ ≤ (splitUnion t.text).length := by rw [Nat.zero_add]; exact hflat
    _ ≤ (pieces 0 t.text.toList).length := by
      unfold splitUnion splitUnionChars
      rw [List.length_map]
      exact Nat.le_trans (List.length_filter_le _ _) (Nat.le_of_eq (List.length_map _))

/-- Writing and reading a type with distinct parts keeps its parts exactly when the type is settled. -/
theorem sameParts_ofText_iff {t : TypeText} (hn : t.parts.Nodup) : (ofText t.text).sameParts t = true ↔ t.Settled := by
  constructor
  · intro h
    have hperm := (sameParts_iff_perm (nodup_ofText t.text)).1 h
    have hplain := plain_of_reread fun part hpart => hperm.mem_iff.2 hpart
    refine ⟨hplain, ?_⟩
    have hle := length_ofText_le hplain
    rw [hperm.length_eq, toList_text] at hle
    cases hparts : t.parts with
    | nil => exact nofun
    | cons p ps =>
      rw [hparts, List.map_cons, List.length_cons] at hle
      rw [hparts] at hplain
      have hwhole : ∀ q ∈ p.toList :: ps.map String.toList, Whole 0 q :=
        List.forall_mem_map.2 fun part hpart => whole_iff.2 (hplain part hpart).whole
      have hclosed := closed_of_pieces hwhole (by simpa using hle)
      rw [← List.map_cons, ← List.map_dropLast] at hclosed
      exact List.forall_mem_map.1 hclosed
  · intro h
    rw [ofText_text hn h]
    simp [sameParts]

end TypeText

end CodeAtlas
