import CodeAtlas.Tree.Document
import Mathlib.Data.List.Forall2
import Mathlib.Data.String.Basic

/-!
# Tokens that spell a text

A token spells a text when its place in the document is one where that text stands (`Token.Spells`).  Then the text is
what the document has for the token (`Spells.tokenText`), and it stays so when the document goes on (`Spells.append`).
A name is what its pieces between the backslashes are joined to (`intercalate_split`).  So a phrase whose tokens spell a
name in one of the ways in which names are written (`Phrase.IsName`) is read as that name in that style
(`IsName.qualifiedName_eq`).
-/

namespace CodeAtlas

namespace Text

/-! ### Slices -/

theorem byteLength_toList (s : String) : byteLength s.toList = s.utf8ByteSize := by
  have hlist : ∀ cs : List Char, byteLength cs = (String.ofList cs).utf8ByteSize := by
    intro cs
    induction cs with
    | nil => rfl
    | cons c cs ih =>
      rw [byteLength, ih, String.utf8ByteSize_ofList, String.utf8ByteSize_ofList, String.utf8Len_cons, Nat.add_comm]
  rw [hlist, String.ofList_toList]

/-- The bytes of a first character, and those after it. -/
private theorem byteLength_cons (c : Char) (cs : List Char) :
    ∃ n, byteLength (c :: cs) = n + 1 ∧ c.utf8Size ≤ n + 1 ∧ n + 1 - c.utf8Size = byteLength cs := by
  have hpos := c.utf8Size_pos
  refine ⟨c.utf8Size - 1 + byteLength cs, ?_, ?_, ?_⟩
  · rw [byteLength]
    omega
  · omega
  · omega

theorem dropBytes?_append (a b : List Char) : dropBytes? (a ++ b) (byteLength a) = some b := by
  induction a with
  | nil => cases b <;> rfl
  | cons c a ih =>
    obtain ⟨n, hn, hle, hrest⟩ := byteLength_cons c a
    rw [List.cons_append, hn, dropBytes?, if_pos hle, hrest, ih]

theorem takeBytes?_append (a b : List Char) : takeBytes? (a ++ b) (byteLength a) = some a := by
  induction a with
  | nil => cases b <;> rfl
  | cons c a ih =>
    obtain ⟨n, hn, hle, hrest⟩ := byteLength_cons c a
    rw [List.cons_append, hn, takeBytes?, if_pos hle, hrest, ih]
    rfl

/-- The slice at the place of a part is that part. -/
theorem slice?_append (before part after : String) :
    slice? (before ++ part ++ after) before.utf8ByteSize (before.utf8ByteSize + part.utf8ByteSize) = some part := by
  unfold slice?
  rw [if_neg (by omega), String.toList_append, String.toList_append, List.append_assoc, ← byteLength_toList before,
    dropBytes?_append, Nat.add_sub_cancel_left, ← byteLength_toList part]
  show (takeBytes? _ _).map String.ofList = _
  rw [takeBytes?_append, Option.map_some, String.ofList_toList]

/-! ### Starts and pieces -/

theorem afterStart?_eq_some {start s rest : String} : afterStart? start s = some rest ↔ s = start ++ rest := by
  unfold afterStart?
  rw [Option.map_eq_some_iff]
  constructor
  · rintro ⟨cs, hcs, rfl⟩
    rw [List.isPrefixOf?_eq_some_iff_append_eq] at hcs
    rw [← String.toList_inj, ← hcs, String.toList_append, String.toList_ofList]
  · rintro rfl
    refine ⟨rest.toList, ?_, String.ofList_toList⟩
    rw [List.isPrefixOf?_eq_some_iff_append_eq, String.toList_append]

theorem afterStart?_eq_none {start s : String} : afterStart? start s = none ↔ ∀ rest, s ≠ start ++ rest := by
  rw [Option.eq_none_iff_forall_ne_some]
  exact forall_congr' fun rest => not_congr afterStart?_eq_some

theorem splitChars_ne_nil (sep : Char) (cs : List Char) : splitChars sep cs ≠ [] := by
  cases cs with
  | nil => exact List.cons_ne_nil _ _
  | cons c cs =>
    rw [splitChars]
    split
    · exact List.cons_ne_nil _ _
    · cases splitChars sep cs <;> exact List.cons_ne_nil _ _

theorem intercalate_splitChars (sep : Char) (cs : List Char) : [sep].intercalate (splitChars sep cs) = cs := by
  induction cs with
  | nil => rfl
  | cons c cs ih =>
    obtain ⟨piece, pieces, hpieces⟩ := List.exists_cons_of_ne_nil (splitChars_ne_nil sep cs)
    rw [hpieces] at ih
    rw [splitChars, hpieces]
    split
    · rename_i hc
      rw [List.intercalate_cons_cons, ih, hc]
      rfl
    · rw [consFirst, ← ih]
      cases pieces with
      | nil => simp
      | cons next pieces => simp [List.intercalate_cons_cons]

/-- Joining the pieces of a text gives it back. -/
theorem intercalate_split (sep : Char) (s : String) : (String.singleton sep).intercalate (split sep s) = s := by
  rw [← String.toList_inj, String.toList_intercalate, split, List.map_map]
  simp [intercalate_splitChars]

end Text

/-! ### Places -/

/-- The text stands in the document at the place of the token. -/
def Token.Spells (t : Token) (document s : String) : Prop :=
  ∃ before after, document = before ++ s ++ after ∧ t.offset = before.utf8ByteSize ∧ t.length = s.utf8ByteSize

namespace Token.Spells

variable {t : Token} {document s : String}

theorem append (h : t.Spells document s) (more : String) : t.Spells (document ++ more) s := by
  obtain ⟨before, after, rfl, ho, hl⟩ := h
  exact ⟨before, after ++ more, by simp only [String.append_assoc], ho, hl⟩

theorem stop_le (h : t.Spells document s) : t.stop ≤ document.utf8ByteSize := by
  obtain ⟨before, after, rfl, ho, hl⟩ := h
  unfold Token.stop
  rw [String.utf8ByteSize_append, String.utf8ByteSize_append]
  omega

theorem tokenText {d : Document} (h : t.Spells d.text s) : d.tokenText t = s := by
  obtain ⟨before, after, htext, ho, hl⟩ := h
  unfold Document.tokenText Token.stop Text.slice
  rw [htext, ho, hl, Text.slice?_append]
  rfl

end Token.Spells

/-- The tokens are of the given kinds and spell the given texts. -/
def SpellOut (document : String) : List Token → List (TokenKind × String) → Prop :=
  List.Forall₂ fun t e => t.kind = e.1 ∧ t.Spells document e.2

namespace SpellOut

variable {document : String} {ts : List Token} {given : List (TokenKind × String)}

theorem grow (h : SpellOut document ts given) (more : String) : SpellOut (document ++ more) ts given :=
  h.imp fun _ _ h => ⟨h.1, h.2.append more⟩

theorem stop_le (h : SpellOut document ts given) : ∀ t ∈ ts, t.stop ≤ document.utf8ByteSize := by
  induction h with
  | nil => exact nofun
  | cons hte _ ih => exact List.forall_mem_cons.2 ⟨hte.2.stop_le, ih⟩

theorem map_eq {d : Document} (h : SpellOut d.text ts given) : ts.map (fun t => (t.kind, d.tokenText t)) = given := by
  induction h with
  | nil => rfl
  | cons hte _ ih => rw [List.map_cons, ih, hte.1, hte.2.tokenText]

/-- The texts of the tokens of one kind are those given with that kind. -/
theorem filter_eq {d : Document} (h : SpellOut d.text ts given) (kind : TokenKind) :
    (ts.filter (·.kind == kind)).map d.tokenText = (given.filter (·.1 == kind)).map Prod.snd := by
  rw [← h.map_eq, List.filter_map, List.map_map]
  rfl

end SpellOut

/-! ### Names -/

/-- The tokens of a name: its pieces with backslashes between them. -/
def nameTokens (name : String) : List (TokenKind × String) :=
  ((Text.split '\\' name).map (TokenKind.name, ·)).intersperse (.backslash, "\\")

theorem filter_nameTokens (name : String) :
    ((nameTokens name).filter (·.1 == .name)).map Prod.snd = Text.split '\\' name := by
  unfold nameTokens
  induction Text.split '\\' name with
  | nil => rfl
  | cons piece pieces ih =>
    cases pieces with
    | nil => rfl
    | cons next pieces =>
      rw [List.map_cons, List.map_cons, List.intersperse_cons_cons]
      rw [List.map_cons] at ih
      simpa using ih

namespace NameStyle

/-- The text is the name written in this style. -/
inductive Writes : NameStyle → String → String → Prop where
  | fullyQualified (name : String) : Writes .fullyQualified name ("\\" ++ name)
  | relative (name : String) : Writes .relative name ("namespace\\" ++ name)
  | qualified {name : String} (hfull : ∀ rest, name ≠ "\\" ++ rest) (hrelative : ∀ rest, name ≠ "namespace\\" ++ rest)
      (hmem : '\\' ∈ name.toList) : Writes .qualified name name
  | unqualified {name : String} (hmem : '\\' ∉ name.toList) : Writes .unqualified name name

/-- The phrase that holds a name written in this style. -/
def phraseKind : NameStyle → PhraseKind
  | .fullyQualified => .fullyQualifiedName
  | .relative => .relativeQualifiedName
  | .qualified | .unqualified => .qualifiedName

/-- The tokens in front of the name. -/
def opening : NameStyle → List (TokenKind × String)
  | .fullyQualified => [(.backslash, "\\")]
  | .relative => [(.namespaceKeyword, "namespace"), (.backslash, "\\")]
  | .qualified | .unqualified => []

/-- The name that a text writes, and its style. -/
def read (text : String) : String × NameStyle :=
  match Text.afterStart? "\\" text with
  | some rest => (rest, .fullyQualified)
  | none =>
    match Text.afterStart? "namespace\\" text with
    | some rest => (rest, .relative)
    | none => (text, if '\\' ∈ text.toList then .qualified else .unqualified)

theorem read_writes (text : String) : (read text).2.Writes (read text).1 text := by
  unfold read
  split
  · rename_i rest h
    rw [Text.afterStart?_eq_some.1 h]
    exact .fullyQualified rest
  · rename_i hfull
    split
    · rename_i rest h
      rw [Text.afterStart?_eq_some.1 h]
      exact .relative rest
    · rename_i hrelative
      by_cases hmem : '\\' ∈ text.toList
      · rw [if_pos hmem]
        exact .qualified (Text.afterStart?_eq_none.1 hfull) (Text.afterStart?_eq_none.1 hrelative) hmem
      · rw [if_neg hmem]
        exact .unqualified hmem

end NameStyle

/-- The phrase holds the name, in the given style, with tokens that spell it in the text. -/
def Phrase.IsName (text : String) (p : Phrase) (name : String) (style : NameStyle) : Prop :=
  ∃ lead ts : List Token,
    p = ⟨style.phraseKind, lead.map .token ++ [.phrase .namespaceName (ts.map .token)]⟩ ∧
    SpellOut text ts (nameTokens name)

namespace Phrase.IsName

variable {text name : String} {p : Phrase} {style : NameStyle}

theorem append (h : p.IsName text name style) (more : String) : p.IsName (text ++ more) name style := by
  obtain ⟨lead, ts, hp, hspells⟩ := h
  exact ⟨lead, ts, hp, hspells.grow more⟩

private theorem phrases_tokens (ts : List Token) : (ts.map Node.token).filterMap Node.asPhrase? = [] := by
  rw [List.filterMap_eq_nil_iff]
  simp [Node.asPhrase?]

private theorem tokens_tokens (ts : List Token) : (ts.map Node.token).filterMap Node.asToken? = ts := by
  rw [List.filterMap_map]
  exact List.filterMap_some

/-- A name is read from its phrase as it was written. -/
theorem qualifiedName_eq {d : Document} {written : String} (h : p.IsName d.text name style)
    (hwrites : style.Writes name written) : d.qualifiedName? p = some (name, style) := by
  obtain ⟨lead, ts, rfl, hspells⟩ := h
  have hphrase : Phrase.phrase? ⟨style.phraseKind, lead.map .token ++ [.phrase .namespaceName (ts.map .token)]⟩
      .namespaceName = some ⟨.namespaceName, ts.map .token⟩ := by
    rw [Phrase.phrase?, Phrase.phrases, List.filterMap_append, phrases_tokens]
    rfl
  have hname : d.joinedNames ⟨.namespaceName, ts.map .token⟩ = name := by
    rw [Document.joinedNames, Phrase.tokens, tokens_tokens, hspells.filter_eq, filter_nameTokens]
    exact Text.intercalate_split '\\' name
  rw [Document.qualifiedName?, hphrase, Option.map_some, hname]
  cases hwrites with
  | fullyQualified => rfl
  | relative => rfl
  | qualified _ _ hmem => simp [NameStyle.phraseKind, hmem]
  | unqualified hmem => simp [NameStyle.phraseKind, hmem]

end Phrase.IsName

end CodeAtlas
