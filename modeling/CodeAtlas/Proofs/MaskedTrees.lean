import CodeAtlas.Declaration.Pass
import CodeAtlas.Proofs.Walk

/-!
# Masked trees

What parsers could not read stands in error phrases.  Masking leaves of each error phrase its first and its last token
only, so that trees that are alike outside error phrases have the same mask (`Node.Alike.mask_eq`).  Everything that is
asked about a phrase other than an error phrase has the same answer after masking, up to masking what is found, and the
places of phrases do not change at all.
-/

namespace CodeAtlas

/-! ### Masking -/

namespace Node

/-- The first and the last token of some nodes. -/
def outline (ns : List Node) : List Node :=
  ((firstTokenOf? ns).toList ++ (lastTokenOf? ns).toList).map token

mutual

/-- The node with each error phrase reduced to its first and last tokens. -/
def mask : Node → Node
  | .token t => .token t
  | .phrase kind children => .phrase kind (if kind = .error then outline children else maskAll children)

def maskAll : List Node → List Node
  | [] => []
  | n :: ns => mask n :: maskAll ns

end

theorem maskAll_eq_map (ns : List Node) : maskAll ns = ns.map mask := by
  induction ns with
  | nil => rfl
  | cons n ns ih => rw [maskAll, ih, List.map_cons]

mutual

/-- The same node, except for what stands inside error phrases; these agree in their first and last tokens. -/
def Alike : Node → Node → Prop
  | .token t, .token t' => t = t'
  | .phrase kind children, .phrase kind' children' =>
    kind = kind' ∧
      if kind = .error then
        firstTokenOf? children = firstTokenOf? children' ∧ lastTokenOf? children = lastTokenOf? children'
      else AllAlike children children'
  | _, _ => False

/-- The same nodes one by one. -/
def AllAlike : List Node → List Node → Prop
  | [], [] => True
  | n :: ns, n' :: ns' => Alike n n' ∧ AllAlike ns ns'
  | _, _ => False

end

mutual

theorem Alike.mask_eq : ∀ {n n' : Node}, n.Alike n' → n.mask = n'.mask
  | .token t, .token t', h => by
    rw [Alike] at h
    rw [h]
  | .phrase kind children, .phrase kind' children', h => by
    rw [Alike] at h
    obtain ⟨rfl, h⟩ := h
    rw [mask, mask]
    split at h
    · rename_i hk
      rw [if_pos hk, if_pos hk, outline, outline, h.1, h.2]
    · rename_i hk
      rw [if_neg hk, if_neg hk, AllAlike.mask_eq h]
  | .token _, .phrase _ _, h => by simp only [Alike] at h
  | .phrase _ _, .token _, h => by simp only [Alike] at h

theorem AllAlike.mask_eq : ∀ {ns ns' : List Node}, AllAlike ns ns' → maskAll ns = maskAll ns'
  | [], [], _ => rfl
  | n :: ns, n' :: ns', h => by
    rw [AllAlike] at h
    rw [maskAll, maskAll, Alike.mask_eq h.1, AllAlike.mask_eq h.2]
  | [], _ :: _, h => by simp only [AllAlike] at h
  | _ :: _, [], h => by simp only [AllAlike] at h

end

/-! ### First and last tokens -/

mutual

/-- There is a first token where there is a last one. -/
theorem isSome_firstToken : ∀ n : Node, n.firstToken?.isSome = n.lastToken?.isSome
  | .token _ => rfl
  | .phrase _ children => by
    rw [firstToken?, lastToken?]
    exact isSome_firstTokenOf children

theorem isSome_firstTokenOf : ∀ ns : List Node, (firstTokenOf? ns).isSome = (lastTokenOf? ns).isSome
  | [] => rfl
  | n :: ns => by
    rw [firstTokenOf?, lastTokenOf?, Option.isSome_or, Option.isSome_or, isSome_firstToken n, isSome_firstTokenOf ns,
      Bool.or_comm]

end

theorem firstTokenOf_outline (ns : List Node) : firstTokenOf? (outline ns) = firstTokenOf? ns := by
  have h := isSome_firstTokenOf ns
  unfold outline
  cases hf : firstTokenOf? ns <;> cases hl : lastTokenOf? ns <;> rw [hf, hl] at h <;> first | rfl | cases h

theorem lastTokenOf_outline (ns : List Node) : lastTokenOf? (outline ns) = lastTokenOf? ns := by
  have h := isSome_firstTokenOf ns
  unfold outline
  cases hf : firstTokenOf? ns <;> cases hl : lastTokenOf? ns <;> rw [hf, hl] at h <;> first | rfl | cases h

mutual

theorem firstToken_mask : ∀ n : Node, n.mask.firstToken? = n.firstToken?
  | .token _ => rfl
  | .phrase kind children => by
    rw [mask, firstToken?, firstToken?]
    split
    · exact firstTokenOf_outline children
    · exact firstTokenOf_mask children

theorem firstTokenOf_mask : ∀ ns : List Node, firstTokenOf? (maskAll ns) = firstTokenOf? ns
  | [] => rfl
  | n :: ns => by rw [maskAll, firstTokenOf?, firstTokenOf?, firstToken_mask n, firstTokenOf_mask ns]

end

mutual

theorem lastToken_mask : ∀ n : Node, n.mask.lastToken? = n.lastToken?
  | .token _ => rfl
  | .phrase kind children => by
    rw [mask, lastToken?, lastToken?]
    split
    · exact lastTokenOf_outline children
    · exact lastTokenOf_mask children

theorem lastTokenOf_mask : ∀ ns : List Node, lastTokenOf? (maskAll ns) = lastTokenOf? ns
  | [] => rfl
  | n :: ns => by rw [maskAll, lastTokenOf?, lastTokenOf?, lastToken_mask n, lastTokenOf_mask ns]

end

end Node

/-! ### Phrases -/

namespace Phrase

def mask (p : Phrase) : Phrase :=
  ⟨p.kind, if p.kind = .error then Node.outline p.children else Node.maskAll p.children⟩

variable {p : Phrase}

theorem mask_mk (kind : PhraseKind) (children : List Node) : (Phrase.mk kind children).mask =
    ⟨kind, if kind = .error then Node.outline children else Node.maskAll children⟩ := rfl

@[simp] theorem kind_mask (p : Phrase) : p.mask.kind = p.kind := rfl

theorem toNode_mask (p : Phrase) : p.mask.toNode = p.toNode.mask := by
  unfold toNode
  rw [Node.mask]
  rfl

theorem children_mask (h : p.kind ≠ .error) : p.mask.children = p.children.map Node.mask := by
  unfold mask
  rw [if_neg h, Node.maskAll_eq_map]

@[simp] theorem asPhrase_mask (n : Node) : n.mask.asPhrase? = n.asPhrase?.map mask := by
  cases n with
  | token t => rfl
  | phrase kind children =>
    rw [Node.mask]
    rfl

@[simp] theorem asToken_mask (n : Node) : n.mask.asToken? = n.asToken? := by
  cases n with
  | token t => rfl
  | phrase kind children =>
    rw [Node.mask]
    rfl

theorem phrases_mask (h : p.kind ≠ .error) : p.mask.phrases = p.phrases.map mask := by
  unfold phrases
  rw [children_mask h, List.filterMap_map, List.map_filterMap]
  congr 1
  funext n
  exact asPhrase_mask n

theorem tokens_mask (h : p.kind ≠ .error) : p.mask.tokens = p.tokens := by
  unfold tokens
  rw [children_mask h, List.filterMap_map]
  congr 1
  funext n
  exact asToken_mask n

/-- Masking keeps what is found by kind. -/
theorem find_mask (f : PhraseKind → Bool) (ps : List Phrase) :
    (ps.map mask).find? (f ·.kind) = (ps.find? (f ·.kind)).map mask := by
  rw [List.find?_map]
  rfl

theorem filter_mask (f : PhraseKind → Bool) (ps : List Phrase) :
    (ps.map mask).filter (f ·.kind) = (ps.filter (f ·.kind)).map mask := by
  rw [List.filter_map]
  rfl

theorem phrase_mask (h : p.kind ≠ .error) (kind : PhraseKind) : p.mask.phrase? kind = (p.phrase? kind).map mask := by
  unfold phrase?
  rw [phrases_mask h]
  exact find_mask (· == kind) _

theorem token_mask (h : p.kind ≠ .error) (kind : TokenKind) : p.mask.token? kind = p.token? kind := by
  unfold token?
  rw [tokens_mask h]

theorem hasToken_mask (h : p.kind ≠ .error) (kind : TokenKind) : p.mask.hasToken kind = p.hasToken kind := by
  unfold hasToken
  rw [token_mask h]

/-- The place of a phrase does not change, whether it is an error phrase or not. -/
theorem span_mask (p : Phrase) : p.mask.span? = p.span? := by
  have hfirst : p.mask.firstToken? = p.firstToken? := by
    unfold firstToken? mask
    split
    · exact Node.firstTokenOf_outline p.children
    · exact Node.firstTokenOf_mask p.children
  have hlast : p.mask.lastToken? = p.lastToken? := by
    unfold lastToken? mask
    split
    · exact Node.lastTokenOf_outline p.children
    · exact Node.lastTokenOf_mask p.children
  unfold span?
  rw [hfirst, hlast]

/-- A child that was asked for by its kind has this kind. -/
theorem kind_of_phrase {kind : PhraseKind} {q : Phrase} (h : p.phrase? kind = some q) : q.kind = kind := by
  have hq := List.find?_some h
  exact eq_of_beq hq

theorem kind_ne_error {kind : PhraseKind} {q : Phrase} (h : p.phrase? kind = some q) (hk : kind ≠ .error) :
    q.kind ≠ .error := by
  rwa [kind_of_phrase h]

/-- What is found in a child is found in the masked child, if masking keeps it in phrases other than error phrases. -/
theorem bind_mask {α : Type} {f g : Phrase → Option α} (h : p.kind ≠ .error) {kind : PhraseKind} (hk : kind ≠ .error)
    (hfg : ∀ q : Phrase, q.kind ≠ .error → f q.mask = g q) :
    (p.mask.phrase? kind).bind f = (p.phrase? kind).bind g := by
  rw [phrase_mask h]
  cases hq : p.phrase? kind with
  | none => rfl
  | some q => exact hfg q (kind_ne_error hq hk)

theorem bind_token_mask (h : p.kind ≠ .error) {kind : PhraseKind} (hk : kind ≠ .error) (tokenKind : TokenKind) :
    (p.mask.phrase? kind).bind (·.token? tokenKind) = (p.phrase? kind).bind (·.token? tokenKind) :=
  bind_mask h hk fun _ hq => token_mask hq tokenKind

end Phrase

/-! ### Walks over masked trees -/

namespace Visitor

variable {σ : Type} {v w : Visitor σ}

/-- On the masked tree `w` takes the steps of `v`, and neither looks into error phrases. -/
structure Masks (v w : Visitor σ) : Prop where
  enter : ∀ s (p : Phrase) path, w.enter s p.mask (path.map Phrase.mask) = v.enter s p path
  refuse : ∀ s (p : Phrase) path, p.kind = .error → (v.enter s p path).2 = false
  leave : ∀ s (p : Phrase) path, p.kind ≠ .error → w.leave s p.mask (path.map Phrase.mask) = v.leave s p path
  token : ∀ s t path, w.token s t (path.map Phrase.mask) = v.token s t path

namespace Masks

mutual

theorem walkNode (h : v.Masks w) (path : List Phrase) :
    ∀ (n : Node) (s : σ), w.walkNode (path.map Phrase.mask) n.mask s = v.walkNode path n s
  | .token t, s => by
    rw [Node.mask, Visitor.walkNode, Visitor.walkNode]
    exact h.token s t path
  | .phrase kind children, s => by
    have he := h.enter s ⟨kind, children⟩ path
    rcases hv : v.enter s ⟨kind, children⟩ path with ⟨s', entered⟩
    rw [hv] at he
    rw [Node.mask]
    cases entered with
    | false => rw [walkNode_refused w he, walkNode_refused v hv]
    | true =>
      -- a phrase that is entered is no error phrase, so masking it is masking its children
      have hk : kind ≠ .error := by
        intro hk
        have := h.refuse s ⟨kind, children⟩ path hk
        rw [hv] at this
        cases this
      rw [walkNode_entered w he, walkNode_entered v hv, if_neg hk]
      have hwalk := h.walkNodes (⟨kind, children⟩ :: path) children s'
      have hl := h.leave (v.walkNodes (⟨kind, children⟩ :: path) children s') ⟨kind, children⟩ path hk
      rw [← hl, ← hwalk, List.map_cons]
      unfold Phrase.mask
      rw [if_neg hk]

theorem walkNodes (h : v.Masks w) (path : List Phrase) :
    ∀ (ns : List Node) (s : σ), w.walkNodes (path.map Phrase.mask) (Node.maskAll ns) s = v.walkNodes path ns s
  | [], s => by rw [Node.maskAll, Visitor.walkNodes, Visitor.walkNodes]
  | n :: ns, s => by
    rw [Node.maskAll, Visitor.walkNodes, Visitor.walkNodes, h.walkNode path n s, h.walkNodes path ns]

end

theorem traverse (h : v.Masks w) (root : Phrase) (s : σ) : w.traverse root.mask s = v.traverse root s := by
  rw [traverse_eq_walk, traverse_eq_walk]
  unfold walk
  rw [Phrase.toNode_mask]
  exact h.walkNode [] root.toNode s

end Masks

end Visitor

end CodeAtlas
