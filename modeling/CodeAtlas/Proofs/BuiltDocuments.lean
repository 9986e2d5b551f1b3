import CodeAtlas.Proofs.Spelling
import CodeAtlas.Proofs.TokenOrder
import CodeAtlas.Tree.Builder

/-!
# Built documents

The text and the tree of a builder grow together.  What a call adds to the open phrase is some nodes whose tokens follow
the text so far, in order, and spell the texts that they were given (`Builder.Adds`), and such additions can be put one
after the other and into a phrase of their own (`Adds.trans`, `Adds.enclosed`).  Opening and closing phrases changes
neither the text nor the tokens.  So after any calls the tokens of the tree are those given to the builder, in order
(`run_spelled`).  A finished phrase stays in the tree as it is, and as its tokens still spell the same texts, a name can
be read from the finished document (`finish_keeps`).
-/

namespace CodeAtlas

/-! ### Trees -/

namespace Node

theorem leavesOf_append (ms ns : List Node) : leavesOf (ms ++ ns) = leavesOf ms ++ leavesOf ns := by
  induction ms with
  | nil => rfl
  | cons m ms ih => rw [List.cons_append, leavesOf, leavesOf, ih, List.append_assoc]

theorem leavesOf_tokens (ts : List Token) : leavesOf (ts.map .token) = ts := by
  induction ts with
  | nil => rfl
  | cons t ts ih => rw [List.map_cons, leavesOf, leaves, ih, List.singleton_append]

mutual

/-- The phrases at or below a node, each before those in it. -/
def allPhrases : Node → List Phrase
  | .token _ => []
  | .phrase kind children => ⟨kind, children⟩ :: allPhrasesOf children

def allPhrasesOf : List Node → List Phrase
  | [] => []
  | n :: ns => allPhrases n ++ allPhrasesOf ns

end

theorem allPhrasesOf_append (ms ns : List Node) : allPhrasesOf (ms ++ ns) = allPhrasesOf ms ++ allPhrasesOf ns := by
  induction ms with
  | nil => rfl
  | cons m ms ih => rw [List.cons_append, allPhrasesOf, allPhrasesOf, ih, List.append_assoc]

end Node

/-! ### Spelled tokens -/

/-- The tokens stand in the text in order, from `start` on, and are of the given kinds and spell the given texts. -/
structure Spelled (text : String) (start : Nat) (ts : List Token) (given : List (TokenKind × String)) : Prop where
  spells : SpellOut text ts given
  ordered : ts.Pairwise Token.Before
  start_le : ∀ t ∈ ts, start ≤ t.offset

namespace Spelled

variable {text more : String} {start : Nat} {ts ts' : List Token} {given given' : List (TokenKind × String)}

theorem nil (text : String) (start : Nat) : Spelled text start [] [] :=
  ⟨.nil, .nil, nofun⟩

theorem mono (h : Spelled text start ts given) (more : String) : Spelled (text ++ more) start ts given :=
  ⟨h.spells.grow more, h.ordered, h.start_le⟩

/-- Tokens that follow the text in which others are. -/
theorem append (h : Spelled text start ts given) (hstart : start ≤ text.utf8ByteSize)
    (h' : Spelled (text ++ more) text.utf8ByteSize ts' given') :
    Spelled (text ++ more) start (ts ++ ts') (given ++ given') := by
  refine ⟨List.rel_append (h.mono more).spells h'.spells, List.pairwise_append.2 ⟨h.ordered, h'.ordered, ?_⟩, ?_⟩
  · intro t ht t' ht'
    exact (h.spells.stop_le t ht).trans (h'.start_le t' ht')
  · intro t ht
    rcases List.mem_append.1 ht with ht | ht
    · exact h.start_le t ht
    · exact hstart.trans (h'.start_le t ht)

end Spelled

/-! ### What a call adds -/

namespace Builder

/-- The second builder is the first one with nodes added to its open phrase, whose tokens spell the given texts behind
the text of the first. -/
structure Adds (b b' : Builder) (ns : List Node) (given : List (TokenKind × String)) : Prop where
  outer : b'.outer = b.outer
  current : b'.current = ⟨b.current.kind, b.current.children ++ ns⟩
  text : ∃ more, b'.text = b.text ++ more
  spelled : Spelled b'.text b.text.utf8ByteSize (Node.leavesOf ns) given

namespace Adds

variable {b b' b'' : Builder} {ns ns' : List Node} {given given' : List (TokenKind × String)}

theorem refl (b : Builder) : Adds b b [] [] :=
  ⟨rfl, by simp, ⟨"", by rw [String.append_empty]⟩, .nil _ _⟩

theorem of_text (b : Builder) (more : String) (last : Option TokenKind) :
    Adds b { b with text := b.text ++ more, last := last } [] [] :=
  ⟨rfl, by simp, ⟨more, rfl⟩, .nil _ _⟩

theorem trans (h : Adds b b' ns given) (h' : Adds b' b'' ns' given') : Adds b b'' (ns ++ ns') (given ++ given') := by
  obtain ⟨more, hmore⟩ := h.text
  obtain ⟨more', hmore'⟩ := h'.text
  have hstart : b.text.utf8ByteSize ≤ b'.text.utf8ByteSize := by
    rw [hmore, String.utf8ByteSize_append]
    omega
  refine ⟨h'.outer.trans h.outer, ?_, ⟨more ++ more', by rw [hmore', hmore, String.append_assoc]⟩, ?_⟩
  · rw [h'.current, h.current, List.append_assoc]
  · have hspelled := h'.spelled
    rw [hmore'] at hspelled
    rw [Node.leavesOf_append, hmore']
    exact h.spelled.append hstart hspelled

/-- What is added between the opening and the closing of a phrase is added as that phrase. -/
theorem enclosed {kind : PhraseKind} (h : Adds (b.enter kind) b' ns given) :
    Adds b b'.close [.phrase kind ns] given := by
  have houter : b'.outer = b.current :: b.outer := h.outer
  have hcurrent : b'.current = ⟨kind, ns⟩ := h.current.trans (by simp [enter])
  have hclose : b'.close = { b' with current := append b.current b'.current.toNode, outer := b.outer } := by
    unfold close
    rw [houter]
  rw [hclose, hcurrent]
  refine ⟨rfl, rfl, h.text, ?_⟩
  have hleaves : Node.leavesOf [.phrase kind ns] = Node.leavesOf ns := by
    rw [Node.leavesOf, Node.leaves, Node.leavesOf, List.append_nil]
  rw [hleaves]
  exact h.spelled

end Adds

theorem newline_adds (b : Builder) : Adds b b.newline [] [] :=
  .of_text b "\n" none

theorem token_adds (b : Builder) (kind : TokenKind) (text : String) :
    ∃ t : Token, Adds b (b.token kind text) [.token t] [(kind, text)] := by
  obtain ⟨gap, hgap⟩ : ∃ gap, (if b.wantsBlank kind then b.text ++ " " else b.text) = b.text ++ gap := by
    split
    · exact ⟨" ", rfl⟩
    · exact ⟨"", by rw [String.append_empty]⟩
  let t : Token := ⟨kind, (b.text ++ gap).utf8ByteSize, text.utf8ByteSize⟩
  let b' : Builder :=
    { b with text := b.text ++ gap ++ text, current := append b.current (.token t), last := some kind }
  have hplain : Adds b b' [.token t] [(kind, text)] := by
    refine ⟨rfl, rfl, ⟨gap ++ text, String.append_assoc⟩, ?_⟩
    have hspells : t.Spells b'.text text := ⟨b.text ++ gap, "", by rw [String.append_empty], rfl, rfl⟩
    refine ⟨.cons ⟨rfl, hspells⟩ .nil, List.pairwise_singleton _ _, List.forall_mem_singleton.2 ?_⟩
    show b.text.utf8ByteSize ≤ (b.text ++ gap).utf8ByteSize
    rw [String.utf8ByteSize_append]
    omega
  have htoken : b.token kind text = if endsLine kind then b'.newline else b' := by
    unfold token
    rw [hgap]
  refine ⟨t, ?_⟩
  rw [htoken]
  split
  · exact hplain.trans (newline_adds b')
  · exact hplain

/-- Tokens one after the other. -/
def tokens (b : Builder) (given : List (TokenKind × String)) : Builder :=
  given.foldl (fun b e => b.token e.1 e.2) b

theorem tokens_adds (b : Builder) (given : List (TokenKind × String)) :
    ∃ ts : List Token, Adds b (b.tokens given) (ts.map .token) given := by
  induction given generalizing b with
  | nil => exact ⟨[], .refl b⟩
  | cons e given ih =>
    obtain ⟨t, ht⟩ := token_adds b e.1 e.2
    obtain ⟨ts, hts⟩ := ih (b.token e.1 e.2)
    exact ⟨t :: ts, ht.trans hts⟩

/-! ### Names -/

theorem segments_eq (b : Builder) (pieces : List String) :
    b.segments pieces = b.tokens ((pieces.map (TokenKind.name, ·)).intersperse (.backslash, "\\")) := by
  induction pieces generalizing b with
  | nil => rfl
  | cons piece pieces ih =>
    cases pieces with
    | nil => rfl
    | cons next pieces =>
      rw [segments, ih, List.map_cons, List.map_cons, List.map_cons, List.intersperse_cons_cons]
      · rfl
      · exact List.cons_ne_nil _ _

theorem namespaceName_eq (b : Builder) (name : String) :
    b.namespaceName name = ((b.enter .namespaceName).tokens (nameTokens name)).close := by
  rw [namespaceName, segments_eq]
  rfl

theorem qualifiedName_eq (b : Builder) (text : String) :
    b.qualifiedName text =
      (((b.enter (NameStyle.read text).2.phraseKind).tokens (NameStyle.read text).2.opening).namespaceName
        (NameStyle.read text).1).close := by
  cases hfull : Text.afterStart? "\\" text with
  | some rest =>
    simp only [qualifiedName, NameStyle.read, hfull]
    rfl
  | none =>
    cases hrelative : Text.afterStart? "namespace\\" text with
    | some rest =>
      simp only [qualifiedName, NameStyle.read, hfull, hrelative]
      rfl
    | none =>
      simp only [qualifiedName, NameStyle.read, hfull, hrelative]
      split <;> rfl

@[simp] theorem close_text (b : Builder) : b.close.text = b.text := by
  unfold close
  split <;> rfl

theorem name_adds (b : Builder) (text : String) : ∃ t : Token, Adds b (b.name text) [.token t] [(.name, text)] :=
  token_adds b .name text

theorem namespaceName_adds (b : Builder) (name : String) :
    ∃ ts : List Token, Adds b (b.namespaceName name) [.phrase .namespaceName (ts.map .token)] (nameTokens name) := by
  obtain ⟨ts, hts⟩ := tokens_adds (b.enter .namespaceName) (nameTokens name)
  refine ⟨ts, ?_⟩
  rw [namespaceName_eq]
  exact hts.enclosed

/-- A written name adds one phrase, which holds it. -/
theorem qualifiedName_adds (b : Builder) (text : String) :
    ∃ p : Phrase, Adds b (b.qualifiedName text) [p.toNode]
        ((NameStyle.read text).2.opening ++ nameTokens (NameStyle.read text).1) ∧
      p.IsName (b.qualifiedName text).text (NameStyle.read text).1 (NameStyle.read text).2 := by
  rw [qualifiedName_eq]
  obtain ⟨name, style⟩ := NameStyle.read text
  obtain ⟨lead, hlead⟩ := tokens_adds (b.enter style.phraseKind) style.opening
  obtain ⟨ts, hts⟩ := namespaceName_adds ((b.enter style.phraseKind).tokens style.opening) name
  have hphrase := (hlead.trans hts).enclosed
  have hspells := hts.spelled.spells
  rw [Node.leavesOf, Node.leaves, Node.leavesOf, List.append_nil, Node.leavesOf_tokens] at hspells
  refine ⟨⟨style.phraseKind, _⟩, hphrase, lead, ts, rfl, ?_⟩
  rw [close_text]
  exact hspells

theorem simpleVariable_adds (b : Builder) (name : String) :
    ∃ t : Token, Adds b (b.simpleVariable name) [.phrase .simpleVariable [.token t]] [(.variableName, name)] := by
  obtain ⟨t, ht⟩ := token_adds (b.enter .simpleVariable) .variableName name
  exact ⟨t, ht.enclosed⟩

end Builder

/-! ### Calls -/

/-- A call to a builder. -/
inductive BuildStep where
  | enter (kind : PhraseKind)
  | close
  | token (kind : TokenKind) (text : String)
  | newline
  | name (text : String)
  | namespaceName (text : String)
  | qualifiedName (text : String)
  | simpleVariable (text : String)
  deriving Repr

/-- The tokens that a call writes. -/
def BuildStep.given : BuildStep → List (TokenKind × String)
  | .enter _ | .close | .newline => []
  | .token kind text => [(kind, text)]
  | .name text => [(.name, text)]
  | .namespaceName text => nameTokens text
  | .qualifiedName text => (NameStyle.read text).2.opening ++ nameTokens (NameStyle.read text).1
  | .simpleVariable text => [(.variableName, text)]

namespace Builder

def step (b : Builder) : BuildStep → Builder
  | .enter kind => b.enter kind
  | .close => b.close
  | .token kind text => b.token kind text
  | .newline => b.newline
  | .name text => b.name text
  | .namespaceName text => b.namespaceName text
  | .qualifiedName text => b.qualifiedName text
  | .simpleVariable text => b.simpleVariable text

/-- The builder after the given calls. -/
def run (steps : List BuildStep) : Builder :=
  steps.foldl step empty

/-- The outermost phrase when the open phrases are closed. -/
def tree (b : Builder) : Phrase :=
  closed b.current b.outer

/-- Every call but the opening and the closing of a phrase adds nodes to the open phrase. -/
theorem step_cases (b : Builder) (st : BuildStep) :
    (∃ kind, st = .enter kind) ∨ st = .close ∨ ∃ ns, Adds b (b.step st) ns st.given := by
  cases st with
  | enter kind => exact .inl ⟨kind, rfl⟩
  | close => exact .inr (.inl rfl)
  | newline => exact .inr (.inr ⟨_, newline_adds b⟩)
  | token kind text =>
    obtain ⟨t, ht⟩ := token_adds b kind text
    exact .inr (.inr ⟨_, ht⟩)
  | name text =>
    obtain ⟨t, ht⟩ := name_adds b text
    exact .inr (.inr ⟨_, ht⟩)
  | namespaceName text =>
    obtain ⟨ts, hts⟩ := namespaceName_adds b text
    exact .inr (.inr ⟨_, hts⟩)
  | qualifiedName text =>
    obtain ⟨p, hp, -⟩ := qualifiedName_adds b text
    exact .inr (.inr ⟨_, hp⟩)
  | simpleVariable text =>
    obtain ⟨t, ht⟩ := simpleVariable_adds b text
    exact .inr (.inr ⟨_, ht⟩)

/-! ### Tokens of the tree -/

/-- Nodes added to the open phrase come last in the tree. -/
theorem leaves_closed (current : Phrase) (outer : List Phrase) :
    (closed current outer).toNode.leaves =
      outer.reverse.flatMap (fun p => Node.leavesOf p.children) ++ Node.leavesOf current.children := by
  induction outer generalizing current with
  | nil => rfl
  | cons parent rest ih =>
    rw [closed, ih, append, Phrase.toNode, Node.leavesOf_append, Node.leavesOf, Node.leaves, Node.leavesOf]
    simp

theorem leaves_enter (b : Builder) (kind : PhraseKind) : (b.enter kind).tree.toNode.leaves = b.tree.toNode.leaves := by
  rw [tree, tree, enter, leaves_closed, leaves_closed, Node.leavesOf]
  simp

theorem tree_close (b : Builder) : b.close.tree = b.tree := by
  unfold close
  split
  · rfl
  · rename_i parent rest houter
    rw [tree, tree, houter, closed]

theorem Adds.leaves_tree {b b' : Builder} {ns : List Node} {given : List (TokenKind × String)}
    (h : Adds b b' ns given) : b'.tree.toNode.leaves = b.tree.toNode.leaves ++ Node.leavesOf ns := by
  rw [tree, tree, h.outer, h.current, leaves_closed, leaves_closed, Node.leavesOf_append, List.append_assoc]

theorem step_spelled {b : Builder} {given : List (TokenKind × String)}
    (h : Spelled b.text 0 b.tree.toNode.leaves given) (st : BuildStep) :
    Spelled (b.step st).text 0 (b.step st).tree.toNode.leaves (given ++ st.given) := by
  obtain ⟨kind, rfl⟩ | rfl | ⟨ns, hadds⟩ := step_cases b st
  · rw [step, leaves_enter, BuildStep.given, List.append_nil]
    exact h
  · rw [step, tree_close, close_text, BuildStep.given, List.append_nil]
    exact h
  · obtain ⟨more, hmore⟩ := hadds.text
    have hspelled := hadds.spelled
    rw [hmore] at hspelled
    rw [hadds.leaves_tree, hmore]
    exact h.append (Nat.zero_le _) hspelled

theorem foldl_spelled {b : Builder} {given : List (TokenKind × String)}
    (h : Spelled b.text 0 b.tree.toNode.leaves given) (steps : List BuildStep) :
    Spelled (steps.foldl step b).text 0 (steps.foldl step b).tree.toNode.leaves
      (given ++ steps.flatMap BuildStep.given) := by
  induction steps generalizing b given with
  | nil =>
    rw [List.flatMap_nil, List.append_nil]
    exact h
  | cons st steps ih =>
    rw [List.flatMap_cons, ← List.append_assoc]
    exact ih (step_spelled h st)

/-- The tokens of the tree are those written, in order. -/
theorem run_spelled (steps : List BuildStep) :
    Spelled (run steps).text 0 (run steps).tree.toNode.leaves (steps.flatMap BuildStep.given) := by
  have hempty : Spelled empty.text 0 empty.tree.toNode.leaves [] := .nil _ 0
  exact foldl_spelled hempty steps

/-! ### Phrases of the tree -/

/-- The closed phrases, in those that are still open. -/
def Finished (b : Builder) (p : Phrase) : Prop :=
  ∃ parent ∈ b.current :: b.outer, p ∈ Node.allPhrasesOf parent.children

/-- The second builder has all that the first one has, and maybe more. -/
structure Extends (b b' : Builder) : Prop where
  text : ∃ more, b'.text = b.text ++ more
  finished : ∀ p, b.Finished p → b'.Finished p

namespace Extends

variable {b b' b'' : Builder}

theorem of_text_eq (htext : b'.text = b.text) (hfinished : ∀ p, b.Finished p → b'.Finished p) : Extends b b' :=
  ⟨⟨"", by rw [htext, String.append_empty]⟩, hfinished⟩

theorem refl (b : Builder) : Extends b b :=
  .of_text_eq rfl fun _ => id

theorem trans (h : Extends b b') (h' : Extends b' b'') : Extends b b'' := by
  obtain ⟨more, hmore⟩ := h.text
  obtain ⟨more', hmore'⟩ := h'.text
  refine ⟨⟨more ++ more', ?_⟩, fun p hp => h'.finished p (h.finished p hp)⟩
  rw [hmore', hmore, String.append_assoc]

end Extends

theorem mem_append {parent p : Phrase} {child : Node} :
    p ∈ Node.allPhrasesOf (append parent child).children ↔
      p ∈ Node.allPhrasesOf parent.children ∨ p ∈ child.allPhrases := by
  rw [append, Node.allPhrasesOf_append, Node.allPhrasesOf, Node.allPhrasesOf, List.append_nil, List.mem_append]

theorem Adds.finished {b b' : Builder} {ns : List Node} {given : List (TokenKind × String)} (h : Adds b b' ns given)
    {p : Phrase} : b'.Finished p ↔ b.Finished p ∨ p ∈ Node.allPhrasesOf ns := by
  unfold Finished
  rw [h.outer, h.current]
  simp only [List.mem_cons, exists_eq_or_imp, Node.allPhrasesOf_append, List.mem_append]
  exact or_right_comm

theorem enter_extends (b : Builder) (kind : PhraseKind) : Extends b (b.enter kind) := by
  refine .of_text_eq rfl ?_
  rintro p ⟨c, hc, hp⟩
  exact ⟨c, List.mem_cons_of_mem _ hc, hp⟩

theorem close_extends (b : Builder) : Extends b b.close := by
  unfold close
  split
  · exact .refl b
  · rename_i parent rest houter
    refine .of_text_eq rfl ?_
    rintro p ⟨c, hc, hp⟩
    rw [houter] at hc
    rcases List.mem_cons.1 hc with rfl | hc
    · exact ⟨_, List.mem_cons_self, mem_append.2 (.inr (List.mem_cons_of_mem _ hp))⟩
    · rcases List.mem_cons.1 hc with rfl | hc
      · exact ⟨_, List.mem_cons_self, mem_append.2 (.inl hp)⟩
      · exact ⟨c, List.mem_cons_of_mem _ hc, hp⟩

theorem step_extends (b : Builder) (st : BuildStep) : Extends b (b.step st) := by
  obtain ⟨kind, rfl⟩ | rfl | ⟨ns, hadds⟩ := step_cases b st
  · exact enter_extends b kind
  · exact close_extends b
  · exact ⟨hadds.text, fun p hp => hadds.finished.2 (.inl hp)⟩

theorem foldl_extends (b : Builder) (steps : List BuildStep) : Extends b (steps.foldl step b) := by
  induction steps generalizing b with
  | nil => exact .refl b
  | cons st steps ih => exact (step_extends b st).trans (ih (b.step st))

/-- The closing of the open phrases keeps the closed ones. -/
theorem Finished.mem_tree {b : Builder} {p : Phrase} (h : b.Finished p) : p ∈ b.tree.toNode.allPhrases := by
  obtain ⟨text, current, outer, last⟩ := b
  show p ∈ (closed current outer).toNode.allPhrases
  induction outer generalizing current with
  | nil =>
    obtain ⟨c, hc, hp⟩ := h
    rw [List.mem_singleton.1 hc] at hp
    exact List.mem_cons_of_mem _ hp
  | cons parent rest ih =>
    have hclosed := (close_extends ⟨text, current, parent :: rest, last⟩).finished p h
    exact ih (append parent current.toNode) hclosed

/-! ### The finished document -/

/-- The finished document has the tokens that were written, in order and with the texts that they were written with, and
every written name can be read from its phrase. -/
theorem finish_keeps (uri : String) :
    (∀ steps : List BuildStep,
      let d := (run steps).finish uri
      d.tree.toNode.leaves.map (fun t => (t.kind, d.tokenText t)) = steps.flatMap BuildStep.given ∧
      d.InOrder ∧ ∀ t ∈ d.tree.toNode.leaves, t.stop ≤ d.text.utf8ByteSize) ∧
    ∀ (before : List BuildStep) (text : String) (after : List BuildStep),
      let d := (run (before ++ .qualifiedName text :: after)).finish uri
      ∃ p name style,
        ((run before).qualifiedName text).current.children = (run before).current.children ++ [p.toNode] ∧
        p ∈ d.tree.toNode.allPhrases ∧ style.Writes name text ∧ d.qualifiedName? p = some (name, style) := by
  constructor
  · intro steps d
    have hspelled : Spelled d.text 0 d.tree.toNode.leaves (steps.flatMap BuildStep.given) := run_spelled steps
    exact ⟨hspelled.spells.map_eq, hspelled.ordered, hspelled.spells.stop_le⟩
  · intro before text after d
    obtain ⟨p, hadds, hname⟩ := qualifiedName_adds (run before) text
    have hrun : run (before ++ .qualifiedName text :: after) =
        after.foldl step ((run before).qualifiedName text) := List.foldl_append
    have hextends : Extends ((run before).qualifiedName text) (run (before ++ .qualifiedName text :: after)) := by
      rw [hrun]
      exact foldl_extends _ after
    have hfinished : ((run before).qualifiedName text).Finished p :=
      hadds.finished.2 (.inr (List.mem_cons_self))
    obtain ⟨more, hmore⟩ := hextends.text
    have hwrites := NameStyle.read_writes text
    have hread : p.IsName d.text (NameStyle.read text).1 (NameStyle.read text).2 := by
      show p.IsName (run (before ++ .qualifiedName text :: after)).text _ _
      rw [hmore]
      exact hname.append more
    refine ⟨p, _, _, ?_, (hextends.finished p hfinished).mem_tree, hwrites, hread.qualifiedName_eq hwrites⟩
    rw [hadds.current]

/-- A surplus closing, a name with a letter of two bytes, and a semicolon, which ends its line. -/
example :
    let d := (run [.close, .qualifiedName "\\Foo\\bär", .token .semicolon ";"]).finish "file:///a.php"
    d.tree.toNode.leaves.map (fun t => (t.offset, d.tokenText t)) =
      [(6, "\\"), (7, "Foo"), (10, "\\"), (11, "bär"), (15, ";")] := by
  cbv

end Builder

end CodeAtlas
