import CodeAtlas.Proofs.Walk

/-!
# Walks told from the root

A visitor is told the phrases around a node innermost first; `rootFirst` is the same visitor, told them from the root
on.  The recursion for such a visitor is `descend`, which appends each phrase that it enters to the phrases above
(`walkNode_eq_descend`), and the rounds of a traversal come to an end in the state of this recursion
(`traverse_descends`).
-/

namespace CodeAtlas.Visitor

variable {σ : Type}

/-- The visitor, told the phrases around a node from the root on. -/
def rootFirst (v : Visitor σ) : Visitor σ where
  enter s p above := v.enter s p above.reverse
  leave s p above := v.leave s p above.reverse
  token s t above := v.token s t above.reverse

mutual

/-- Visits a node below the phrases `above`, the root first: a phrase that is refused is done, and one that is entered
is left after its children, which are visited from left to right. -/
def descend (v : Visitor σ) (above : List Phrase) : Node → σ → σ
  | .token t, s => v.token s t above
  | .phrase kind children, s =>
    match v.enter s ⟨kind, children⟩ above with
    | (s, false) => s
    | (s, true) => v.leave (descendAll v (above ++ [⟨kind, children⟩]) children s) ⟨kind, children⟩ above

def descendAll (v : Visitor σ) (above : List Phrase) : List Node → σ → σ
  | [], s => s
  | n :: ns, s => descendAll v above ns (descend v above n s)

end

theorem rootFirst_enter (v : Visitor σ) (s : σ) (p : Phrase) (path : List Phrase) :
    v.rootFirst.enter s p path.reverse = v.enter s p path := by
  simp only [rootFirst, List.reverse_reverse]

theorem rootFirst_leave (v : Visitor σ) (s : σ) (p : Phrase) (path : List Phrase) :
    v.rootFirst.leave s p path.reverse = v.leave s p path := by
  simp only [rootFirst, List.reverse_reverse]

theorem rootFirst_token (v : Visitor σ) (s : σ) (t : Token) (path : List Phrase) :
    v.rootFirst.token s t path.reverse = v.token s t path := by
  simp only [rootFirst, List.reverse_reverse]

mutual

theorem walkNode_eq_descend (v : Visitor σ) (path : List Phrase) :
    ∀ (n : Node) (s : σ), v.walkNode path n s = v.rootFirst.descend path.reverse n s
  | .token t, s => by rw [walkNode, descend, rootFirst_token]
  | .phrase kind children, s => by
    rw [descend, rootFirst_enter]
    rcases he : v.enter s ⟨kind, children⟩ path with ⟨s', entered⟩
    cases entered with
    | false => exact walkNode_refused v he
    | true =>
      -- the phrase that is put in front of the path comes last from the root on
      have hchildren := walkNodes_eq_descendAll v (⟨kind, children⟩ :: path) children s'
      rw [List.reverse_cons] at hchildren
      rw [walkNode_entered v he, hchildren]
      exact (rootFirst_leave v _ _ path).symm

theorem walkNodes_eq_descendAll (v : Visitor σ) (path : List Phrase) :
    ∀ (ns : List Node) (s : σ), v.walkNodes path ns s = v.rootFirst.descendAll path.reverse ns s
  | [], s => by rw [walkNodes, descendAll]
  | n :: ns, s => by
    rw [walkNodes, descendAll, walkNode_eq_descend v path n s]
    exact walkNodes_eq_descendAll v path ns _

end

/-- The rounds of a traversal come to an end, and leave the visitor in the state of the recursion that tells it the
phrases around each node from the root on. -/
theorem traverse_descends (v : Visitor σ) (root : Phrase) (s : σ) :
    v.Ends (v.start root s) (v.rootFirst.descend [] root.toNode s) ∧
      v.traverse root s = v.rootFirst.descend [] root.toNode s := by
  have hwalk : v.walk root s = v.rootFirst.descend [] root.toNode s := v.walkNode_eq_descend [] root.toNode s
  have hends := v.ends_start root s
  rw [hwalk] at hends
  exact ⟨hends, hends.run_eq⟩

end CodeAtlas.Visitor
