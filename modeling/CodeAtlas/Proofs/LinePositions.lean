import CodeAtlas.Proofs.TokenOrder
import Mathlib.Data.List.Induction

/-!
# Offsets as positions

The position of an offset counts the newlines among the bytes before it and the bytes after the last of them
(`positionAt_eq`).  Both can be read off a prefix of the text, and a line map finds the one among its line starts as the
number of those that are not past the offset, and the other as the distance to the last of these.  An offset up to the
end of the text is found again from its position, and so is a position in a line that is there, up to the newline at the
end of the line.
-/

namespace CodeAtlas

namespace LineMap

/-- The bytes of the UTF-8 form. -/
def bytes (text : String) : List UInt8 :=
  text.toUTF8.data.toList

/-- The byte of a line feed, which is part of no other character. -/
def newline : UInt8 :=
  10

/-- The lines of a text, without the newlines that end them. -/
def byteLines (text : String) : List (List UInt8) :=
  (bytes text).splitOn newline

/-- The number of bytes after the last newline. -/
def column (bs : List UInt8) : Nat :=
  (bs.reverse.takeWhile (· ≠ newline)).length

/-! ### Columns and lines of bytes -/

theorem splitOn_eq_singleton {bs : List UInt8} (h : newline ∉ bs) : bs.splitOn newline = [bs] := by
  rw [List.splitOn_eq_splitOnP]
  refine List.splitOnP_eq_singleton fun b hb => beq_eq_false_iff_ne.2 ?_
  rintro rfl
  exact h hb

theorem splitOn_append_newline {first : List UInt8} (h : newline ∉ first) (rest : List UInt8) :
    (first ++ newline :: rest).splitOn newline = first :: rest.splitOn newline := by
  rw [List.splitOn_append_cons_self, splitOn_eq_singleton h]
  rfl

theorem length_splitOn (bs : List UInt8) : (bs.splitOn newline).length = bs.count newline + 1 := by
  induction hn : bs.count newline generalizing bs with
  | zero => rw [splitOn_eq_singleton (List.count_eq_zero.1 hn), List.length_singleton]
  | succ n ih =>
    have hmem : newline ∈ bs := List.count_pos_iff.1 (by omega)
    obtain ⟨first, rest, rfl, hfirst⟩ := List.eq_append_cons_of_mem hmem
    rw [List.count_append, List.count_eq_zero.2 hfirst, List.count_cons_self, Nat.zero_add, Nat.succ.injEq] at hn
    rw [splitOn_append_newline hfirst, List.length_cons, ih rest hn]

theorem column_append {as : List UInt8} (h : newline ∉ as) (pre : List UInt8) :
    column (pre ++ as) = column pre + as.length := by
  have hall : ∀ b ∈ as.reverse, decide (b ≠ newline) = true := by
    intro b hb
    rw [decide_eq_true_iff]
    rintro rfl
    exact h (List.mem_reverse.1 hb)
  unfold column
  rw [List.reverse_append, List.takeWhile_append_of_pos hall, List.length_append, List.length_reverse, Nat.add_comm]

theorem column_newline (pre bs : List UInt8) : column (pre ++ newline :: bs) = column bs := by
  unfold column
  rw [List.reverse_append, List.reverse_cons, List.append_assoc, List.takeWhile_append]
  split
  · rename_i hall
    rw [List.length_append, List.singleton_append, List.takeWhile_cons_of_neg (by simp), hall]
    rfl
  · rfl

/-! ### The starts of the lines -/

/-- The offsets right after the newlines among some bytes, the first of which has the offset `offset`. -/
def newlineEnds (offset : Nat) : List UInt8 → List Nat
  | [] => []
  | b :: bs => if b = newline then (offset + 1) :: newlineEnds (offset + 1) bs else newlineEnds (offset + 1) bs

theorem newlineEnds_append (offset : Nat) (as bs : List UInt8) :
    newlineEnds offset (as ++ bs) = newlineEnds offset as ++ newlineEnds (offset + as.length) bs := by
  induction as generalizing offset with
  | nil => rfl
  | cons a as ih =>
    have hlen : offset + 1 + as.length = offset + (a :: as).length := by
      rw [List.length_cons]
      omega
    rw [List.cons_append, newlineEnds, newlineEnds, ih, hlen]
    split <;> rfl

theorem newlineEnds_eq_nil {as : List UInt8} (h : newline ∉ as) (offset : Nat) : newlineEnds offset as = [] := by
  induction as generalizing offset with
  | nil => rfl
  | cons a as ih =>
    rw [List.mem_cons, not_or] at h
    rw [newlineEnds, if_neg (Ne.symm h.1), ih h.2]

theorem length_newlineEnds (offset : Nat) (bs : List UInt8) : (newlineEnds offset bs).length = bs.count newline := by
  induction bs generalizing offset with
  | nil => rfl
  | cons b bs ih =>
    rw [newlineEnds, List.count_cons]
    by_cases hb : b = newline
    · rw [if_pos hb, List.length_cons, ih, if_pos (by simpa using hb)]
    · rw [if_neg hb, ih, if_neg (by simpa using hb)]
      rfl

theorem newlineEnds_bounds {offset x : Nat} {bs : List UInt8} (h : x ∈ newlineEnds offset bs) :
    offset < x ∧ x ≤ offset + bs.length := by
  induction bs generalizing offset with
  | nil => exact nomatch h
  | cons b bs ih =>
    have hrest : x ∈ newlineEnds (offset + 1) bs → offset < x ∧ x ≤ offset + (b :: bs).length := by
      intro hx
      have := ih hx
      rw [List.length_cons]
      omega
    rw [newlineEnds] at h
    split at h
    · rcases List.mem_cons.1 h with rfl | hx
      · rw [List.length_cons]
        omega
      · exact hrest hx
    · exact hrest h

/-- The last line starts as far back as the column says. -/
theorem getLastD_newlineEnds (offset : Nat) (bs : List UInt8) :
    (newlineEnds offset bs).getLastD offset + column bs = offset + bs.length := by
  induction bs using List.reverseRecOn with
  | nil => rfl
  | append_singleton bs b ih =>
    rw [newlineEnds_append, List.length_append]
    by_cases hb : b = newline
    · subst hb
      rw [column_newline, newlineEnds, if_pos rfl, newlineEnds, List.getLastD_concat]
      rfl
    · have hnone : newline ∉ [b] := fun h => hb (List.mem_singleton.1 h).symm
      rw [column_append hnone, newlineEnds_eq_nil hnone, List.append_nil]
      omega

/-! ### From characters to bytes -/

theorem bytes_eq (text : String) : bytes text = text.toList.flatMap String.utf8EncodeChar := by
  have hbytes : (String.ofList text.toList).toByteArray = text.toList.utf8Encode := String.toByteArray_ofList
  rw [String.ofList_toList] at hbytes
  unfold bytes
  rw [String.toUTF8_eq_toByteArray, hbytes, List.utf8Encode, List.toList_data_toByteArray]

theorem length_bytes (text : String) : (bytes text).length = text.utf8ByteSize := by
  unfold bytes
  rw [String.toUTF8_eq_toByteArray, Array.length_toList]
  rfl

/-- The bytes of a character are all from 128 on, unless there is one byte, which is the character. -/
theorem newline_not_mem_utf8EncodeChar {c : Char} (h : c ≠ '\n') : newline ∉ String.utf8EncodeChar c := by
  have hval : c.val.toNat ≠ 10 := fun hc => h (Char.ext (UInt32.toNat_inj.1 hc))
  unfold String.utf8EncodeChar newline
  dsimp only
  generalize c.val.toNat = v at hval
  have hbyte : ∀ n : Nat, (10 : UInt8) = UInt8.ofNat n ↔ 10 = n % 256 := by
    intro n
    rw [← UInt8.toNat_inj]
    exact Iff.rfl
  split
  · simp only [List.mem_singleton, hbyte]
    omega
  · split
    · simp only [List.mem_cons, List.not_mem_nil, or_false, hbyte]
      omega
    · split
      · simp only [List.mem_cons, List.not_mem_nil, or_false, hbyte]
        omega
      · simp only [List.mem_cons, List.not_mem_nil, or_false, hbyte]
        omega

theorem startsAfter_eq (offset : Nat) (cs : List Char) :
    startsAfter offset cs = newlineEnds offset (cs.flatMap String.utf8EncodeChar) := by
  induction cs generalizing offset with
  | nil => rfl
  | cons c cs ih =>
    rw [startsAfter, List.flatMap_cons, newlineEnds_append, String.length_utf8EncodeChar]
    by_cases hc : c = '\n'
    · subst hc
      rw [if_pos rfl, ih]
      rfl
    · rw [if_neg hc, ih, newlineEnds_eq_nil (newline_not_mem_utf8EncodeChar hc), List.nil_append]

theorem starts_ofText (text : String) : (ofText text).starts = 0 :: newlineEnds 0 (bytes text) := by
  rw [bytes_eq, ← startsAfter_eq]
  rfl

theorem length_ofText (text : String) : (ofText text).length = (bytes text).length :=
  (length_bytes text).symm

/-! ### Positions of prefixes -/

variable {text : String} {pre post : List UInt8}

/-- The lines that start by the end of a prefix are those that start in it. -/
theorem takeWhile_starts (h : bytes text = pre ++ post) :
    (ofText text).starts.takeWhile (· ≤ pre.length) = 0 :: newlineEnds 0 pre := by
  have hin : ∀ x ∈ newlineEnds 0 pre, decide (x ≤ pre.length) = true := by
    intro x hx
    have := newlineEnds_bounds hx
    rw [decide_eq_true_iff]
    omega
  have hout : (newlineEnds (0 + pre.length) post).takeWhile (decide <| · ≤ pre.length) = [] := by
    cases hends : newlineEnds (0 + pre.length) post with
    | nil => rfl
    | cons x xs =>
      have := newlineEnds_bounds (hends ▸ List.mem_cons_self : x ∈ newlineEnds (0 + pre.length) post)
      exact List.takeWhile_cons_of_neg (by rw [decide_eq_true_iff]; omega)
  rw [starts_ofText, h, newlineEnds_append, List.takeWhile_cons_of_pos (by simp), List.takeWhile_append_of_pos hin,
    hout, List.append_nil]

theorem positionAt_length (h : bytes text = pre ++ post) :
    (ofText text).positionAt pre.length = ⟨pre.count newline, column pre⟩ := by
  have hlen : (ofText text).length = pre.length + post.length := by rw [length_ofText, h, List.length_append]
  have hmin : min pre.length (ofText text).length = pre.length := by omega
  have hlast := getLastD_newlineEnds 0 pre
  unfold positionAt
  dsimp only
  rw [hmin, takeWhile_starts h, List.getLastD_cons, List.length_cons, length_newlineEnds]
  congr 1
  omega

/-- The line in which a prefix ends starts as far back as its column says. -/
theorem starts_getElem? (h : bytes text = pre ++ post) :
    (ofText text).starts[pre.count newline]? = some (pre.length - column pre) := by
  have hlast := getLastD_newlineEnds 0 pre
  have hfind : (0 :: newlineEnds 0 pre)[pre.count newline]? = some ((newlineEnds 0 pre).getLastD 0) := by
    rw [List.getLastD_eq_getLast?, ← List.getLast?_cons, List.getLast?_eq_getElem?, List.length_cons,
      length_newlineEnds]
    rfl
  rw [starts_ofText, h, newlineEnds_append, ← List.cons_append,
    List.getElem?_append_left (by simp [length_newlineEnds]), hfind]
  congr 1
  omega

theorem offsetAt_column (h : bytes text = pre ++ post) (c : Nat) :
    (ofText text).offsetAt ⟨pre.count newline, c⟩ = min (pre.length - column pre + c) (bytes text).length := by
  unfold offsetAt
  rw [starts_getElem? h, length_ofText]

/-! ### Lines -/

/-- The line with this number, with what stands before and after it. -/
structure LineSplit (bs : List UInt8) (line : Nat) (pre content post : List UInt8) : Prop where
  split : bs = pre ++ (content ++ post)
  /-- Each line before it ends with a newline, after which the next one starts. -/
  count : pre.count newline = line
  start : column pre = 0
  plain : newline ∉ content

theorem exists_lineSplit {bs content : List UInt8} {line : Nat} (h : (bs.splitOn newline)[line]? = some content) :
    ∃ pre post, LineSplit bs line pre content post := by
  induction line generalizing bs with
  | zero =>
    by_cases hmem : newline ∈ bs
    · obtain ⟨first, rest, rfl, hfirst⟩ := List.eq_append_cons_of_mem hmem
      rw [splitOn_append_newline hfirst, List.getElem?_cons_zero, Option.some.injEq] at h
      subst h
      exact ⟨[], newline :: rest, rfl, rfl, rfl, hfirst⟩
    · rw [splitOn_eq_singleton hmem, List.getElem?_cons_zero, Option.some.injEq] at h
      subst h
      exact ⟨[], [], (List.append_nil bs).symm, rfl, rfl, hmem⟩
  | succ line ih =>
    by_cases hmem : newline ∈ bs
    · obtain ⟨first, rest, rfl, hfirst⟩ := List.eq_append_cons_of_mem hmem
      rw [splitOn_append_newline hfirst, List.getElem?_cons_succ] at h
      obtain ⟨pre, post, hsplit, hcount, hstart, hplain⟩ := ih h
      refine ⟨first ++ newline :: pre, post, ?_, ?_, ?_, hplain⟩
      · rw [hsplit, List.append_assoc, List.cons_append]
      · rw [List.count_append, List.count_eq_zero.2 hfirst, List.count_cons_self, hcount, Nat.zero_add]
      · rw [column_newline, hstart]
    · rw [splitOn_eq_singleton hmem] at h
      cases h

namespace LineSplit

variable {line : Nat} {content : List UInt8}

theorem length_le (h : LineSplit (bytes text) line pre content post) {c : Nat} (hc : c ≤ content.length) :
    pre.length + c ≤ (bytes text).length := by
  rw [h.split, List.length_append, List.length_append]
  omega

theorem offsetAt_eq (h : LineSplit (bytes text) line pre content post) {c : Nat} (hc : c ≤ content.length) :
    (ofText text).offsetAt ⟨line, c⟩ = pre.length + c := by
  have hle := h.length_le hc
  rw [← h.count, offsetAt_column h.split, h.start]
  omega

theorem positionAt_eq (h : LineSplit (bytes text) line pre content post) {c : Nat} (hc : c ≤ content.length) :
    (ofText text).positionAt (pre.length + c) = ⟨line, c⟩ := by
  have hsplit : bytes text = (pre ++ content.take c) ++ (content.drop c ++ post) := by
    rw [h.split, List.append_assoc, ← List.append_assoc (content.take c), List.take_append_drop]
  have hlen : (content.take c).length = c := List.length_take_of_le hc
  have hplain : newline ∉ content.take c := fun hmem => h.plain (List.mem_of_mem_take hmem)
  have hposition := positionAt_length hsplit
  rwa [List.length_append, hlen, List.count_append, h.count, List.count_eq_zero.2 hplain, column_append hplain, h.start,
    hlen, Nat.zero_add, Nat.add_zero] at hposition

end LineSplit

theorem lineCount_ofText (text : String) : (ofText text).lineCount = (byteLines text).length := by
  unfold lineCount byteLines
  rw [starts_ofText, List.length_cons, length_newlineEnds, length_splitOn]

/-! ### There and back -/

theorem positionAt_eq {o : Nat} (h : o ≤ text.utf8ByteSize) :
    (ofText text).positionAt o = ⟨((bytes text).take o).count newline, column ((bytes text).take o)⟩ := by
  have hlen : ((bytes text).take o).length = o := List.length_take_of_le (by rwa [length_bytes])
  have hposition := positionAt_length (List.take_append_drop o (bytes text)).symm
  rwa [hlen] at hposition

theorem offsetAt_positionAt {o : Nat} (h : o ≤ text.utf8ByteSize) :
    (ofText text).offsetAt ((ofText text).positionAt o) = o := by
  have hlen : ((bytes text).take o).length = o := List.length_take_of_le (by rwa [length_bytes])
  have hcolumn := getLastD_newlineEnds 0 ((bytes text).take o)
  rw [positionAt_eq h, offsetAt_column (List.take_append_drop o (bytes text)).symm, hlen, length_bytes]
  omega

theorem positionAt_lt {o o' : Nat} (h : o < o') (h' : o' ≤ text.utf8ByteSize) :
    (ofText text).positionAt o < (ofText text).positionAt o' := by
  refine lt_of_le_of_ne (positionAt_mono text (Nat.le_of_lt h)) fun heq => ?_
  have hback := offsetAt_positionAt h'
  rw [← heq, offsetAt_positionAt (by omega)] at hback
  omega

/-- Beyond the text every offset has the position of its end. -/
theorem positionAt_beyond {o : Nat} (h : text.utf8ByteSize ≤ o) :
    (ofText text).positionAt o = (ofText text).positionAt text.utf8ByteSize := by
  have hlen : (ofText text).length = text.utf8ByteSize := rfl
  unfold positionAt
  rw [hlen, Nat.min_eq_right h, Nat.min_self]

/-- The line map of a text turns each offset in it into the number of newlines before it and the distance from the last
of them, or from the start of the text, and finds it again from there.  Positions grow with the offsets up to the end of
the text, and stay the same beyond.  In each line the columns up to its newline, or up to the end of the text, are
found again from their offsets.  So the start of a range is never past its end, if this is at an offset of 32 bits.  No
line starts past the end of the text and no sum of a start and a column goes past it, so the numbers take no more bits
than its length. -/
theorem offsets_and_positions (text : String) :
    (∀ o ≤ text.utf8ByteSize,
      (ofText text).positionAt o = ⟨((bytes text).take o).count newline, column ((bytes text).take o)⟩ ∧
        (ofText text).offsetAt ((ofText text).positionAt o) = o) ∧
      (∀ o o', o < o' → o' ≤ text.utf8ByteSize → (ofText text).positionAt o < (ofText text).positionAt o') ∧
      (∀ o, text.utf8ByteSize ≤ o → (ofText text).positionAt o = (ofText text).positionAt text.utf8ByteSize) ∧
      ((ofText text).lineCount = (byteLines text).length ∧
        ∀ l line, (byteLines text)[l]? = some line → ∀ c ≤ line.length,
          (ofText text).positionAt ((ofText text).offsetAt ⟨l, c⟩) = ⟨l, c⟩ ∧
            ∃ start, (ofText text).starts[l]? = some start ∧ start + c ≤ text.utf8ByteSize) ∧
      (∀ o n, o + n < Text.wordBound → ((ofText text).range o n).start ≤ ((ofText text).range o n).stop) ∧
      ∀ start ∈ (ofText text).starts, start ≤ text.utf8ByteSize := by
  refine ⟨fun o ho => ⟨positionAt_eq ho, offsetAt_positionAt ho⟩, fun o o' => positionAt_lt,
    fun o => positionAt_beyond, ⟨lineCount_ofText text, fun l line hline c hc => ?_⟩,
    fun o n _ => positionAt_mono text (Nat.le_add_right o n), fun start hstart => ?_⟩
  · obtain ⟨pre, post, h⟩ := exists_lineSplit hline
    refine ⟨by rw [h.offsetAt_eq hc, h.positionAt_eq hc], pre.length, ?_, ?_⟩
    · have hfound := starts_getElem? h.split
      rwa [h.count, h.start, Nat.sub_zero] at hfound
    · rw [← length_bytes]
      exact h.length_le hc
  · rw [starts_ofText] at hstart
    rcases List.mem_cons.1 hstart with rfl | hstart
    · exact Nat.zero_le _
    · have := newlineEnds_bounds hstart
      rw [length_bytes] at this
      omega

end LineMap

end CodeAtlas
