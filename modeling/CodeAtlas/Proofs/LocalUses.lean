import CodeAtlas.Proofs.ReferenceScopes
import CodeAtlas.Proofs.ReferenceSteady

/-!
# Uses of variables

The reference walk groups what it records by scopes.  Its scopes are the file and the functions, methods, closures and
arrow functions that it comes to, nested as these are; and the uses of variables in a scope are just those that stand in
its phrase, each recorded once, without those in an inner function (`Occurrences.uses_recorded`).

Some phrases record their uses when they are entered, some when they are left, and some through the tokens in them; so
for the children of a phrase the walk is followed together with the role of the phrase (`walkNodes_adds`).
-/

namespace CodeAtlas

namespace Source

/-- The uses of variables that stand in a phrase itself: a plain variable and a parameter are written as one token, and
in a catch clause or the use clause of a closure every variable token is a use. -/
def localUses (src : Source) (p : Phrase) : List LocalUse :=
  match p.kind with
  | .simpleVariable => ((p.token? .variableName).map (src.use .var)).toList
  | .parameterDeclaration => ((p.token? .variableName).map (src.use .parameter)).toList
  | .catchClause | .anonymousFunctionUseClause => (p.tokens.filter (·.kind == .variableName)).map (src.use .var)
  | _ => []

/-- The uses of variables of a document, by the function in which they stand. -/
def used (src : Source) : Harvest LocalUse :=
  { enters := fun k => k != .error && k != .namespaceUseDeclaration
    chooses := PhraseKind.isCallable
    items := src.localUses }

end Source

namespace ReferenceState

variable {env : ReferenceInput}

/-- The uses that the tokens among some nodes are by themselves. -/
def directUses (src : Source) (binds : Bool) (ns : List Node) : List LocalUse :=
  (ns.filterMap Node.asToken?).flatMap (tokenUses src binds)

theorem directUses_false (src : Source) (ns : List Node) : directUses src false ns = [] :=
  List.flatMap_eq_nil_iff.2 fun _ _ => rfl

/-- The uses of a phrase are those of its entry, of its tokens and of its end. -/
theorem localUses_eq (src : Source) (p : Phrase) : enteredUses src p ++
    directUses src (p.kind.role == .binder) p.children ++ finishedUses src p = src.localUses p := by
  have hdirect : directUses src true p.children =
      (p.tokens.filter (·.kind == .variableName)).map (src.use .var) := by
    unfold directUses Phrase.tokens
    induction p.children.filterMap Node.asToken? with
    | nil => rfl
    | cons t ts ih =>
      rw [List.flatMap_cons, ih]
      unfold tokenUses
      cases h : t.kind == .variableName <;> simp [h]
  obtain ⟨kind, children⟩ := p
  cases kind
  case catchClause => exact (List.append_nil _).trans hdirect
  case anonymousFunctionUseClause => exact (List.append_nil _).trans hdirect
  case simpleVariable => exact congrArg (· ++ _) (directUses_false src children)
  case parameterDeclaration =>
    exact (List.append_nil _).trans ((congrArg (_ ++ ·) (directUses_false src children)).trans (List.append_nil _))
  all_goals exact (List.append_nil _).trans (directUses_false src children)

/-! ### Along the walk -/

variable {src : Source} {s s' t : ReferenceState} {us us' : List LocalUse} {fs : List (PhraseTree LocalUse)}

theorem Adds.perm (h : Adds src us fs s s') (hp : us.Perm us') : Adds src us' fs s s' := by
  refine ⟨h.frames, h.cursors, fun scope rest hs => ?_⟩
  obtain ⟨scope', added, hs', hrange, huses, hchildren⟩ := h.scopes scope rest hs
  exact ⟨scope', added, hs', hrange, huses.trans (hp.append_left scope.uses), hchildren⟩

/-- What is added below a frame is added without it. -/
theorem Adds.unframed {frame : ReferenceFrame} {rest : List ReferenceFrame}
    (h : Adds src us fs { s with frames := frame :: s.frames } s')
    (hf : rest.map ReferenceFrame.signature = s.frames.map ReferenceFrame.signature) :
    Adds src us fs s { s' with frames := rest } :=
  ⟨hf, h.cursors, h.scopes⟩

/-- What is added in the scope of a function becomes a scope in the one around it. -/
theorem Adds.closed {p : Phrase} (h : Adds src us fs t s') (ho : Opened src p s t) (hp : p.kind.isCallable = true) :
    Adds src [] [.mk (some p) us fs] s s'.closeScope := by
  have hscopes := ho.scopes
  rw [hp, if_pos rfl] at hscopes
  obtain ⟨scope, added, hs', hrange, huses, hchildren, hadded⟩ := h.scopes _ _ hscopes
  have hframes : s'.closeScope.frames = s'.frames := by
    unfold closeScope
    split <;> rfl
  have hcursors : s'.closeScope.cursors = s'.cursors := by
    unfold closeScope
    split <;> rfl
  refine ⟨?_, fun hc => ?_, fun parent rest hs => ?_⟩
  · rw [hframes, h.frames, ho.frames]
  · unfold CursorsSound at hc ⊢
    rw [← ho.cursors] at hc
    rw [hcursors]
    exact h.cursors hc
  · have hclose : s'.closeScope.scopes = { parent with children := parent.children ++ [scope] } :: rest := by
      unfold closeScope
      rw [hs', hs]
    refine ⟨_, [scope], hclose, rfl, ?_, rfl, .cons (.mk hrange huses ?_) .nil⟩
    · rw [List.append_nil]
      exact List.Perm.refl _
    · rw [hchildren]
      exact hadded

/-- A phrase, once its children are known to add what they hold and their own tokens. -/
private theorem phrase_adds (hc : s.CursorsSound) (p : Phrase) (path : List Phrase)
    (hchildren : ∀ t : ReferenceState, t.CursorsSound →
      Adds env.source (directUses env.source t.binds p.children ++ env.source.used.heldIn p.children)
        (env.source.used.treesIn p.children) t ((visitor env).walkNodes (p :: path) p.children t)) :
    Adds env.source (env.source.used.held p.toNode) (env.source.used.trees p.toNode) s
      ((visitor env).walkNode path p.toNode s) := by
  cases hlook : p.kind != .error && p.kind != .namespaceUseDeclaration with
  | false =>
    have hk : p.kind = .error ∨ p.kind = .namespaceUseDeclaration := by
      rw [Bool.and_eq_false_iff, bne_eq_false_iff_eq, bne_eq_false_iff_eq] at hlook
      exact hlook
    rw [Harvest.held_refused hlook, Harvest.trees_refused hlook]
    have he : s.enter env p path = ((s.enter env p path).1, false) :=
      Prod.ext rfl ((enter_snd env s p path).trans hlook)
    rw [Phrase.toNode, (visitor env).walkNode_refused he]
    exact refused_adds env hc p path hk
  | true =>
    obtain ⟨transform, exit, s₁, t, he, hfits, h₁, ho⟩ := enter_adds env hc p path hlook
    let frame : ReferenceFrame := ⟨p.kind, transform, exit, []⟩
    rw [Phrase.toNode, (visitor env).walkNode_entered he]
    have hbinds : binds { t with frames := frame :: t.frames } = (p.kind.role == .binder) := by
      rw [binds_of_frames rfl]
      exact congrArg (· == VariableRole.binder) hfits.role
    have hsound : CursorsSound { t with frames := frame :: t.frames } := by
      have hs₁ := h₁.cursors hc
      unfold CursorsSound at hs₁
      rwa [← ho.cursors] at hs₁
    have hbody := hchildren _ hsound
    rw [hbinds] at hbody
    obtain ⟨rest, s₂, hrest, hfinish, hclose⟩ := leave_adds env hfits hbody.frames
    have hinside := (hbody.unframed hrest).trans hfinish
    rw [List.append_nil] at hinside
    refine Adds.andThen ?_ hclose
    have huses := localUses_eq env.source p
    cases hp : p.kind.isCallable with
    | false =>
      have hopen : Adds env.source [] [] s₁ t := by
        have hscopes := ho.scopes
        rw [hp] at hscopes
        exact .of_eq (congrArg _ ho.frames) (fun h => by unfold CursorsSound; rwa [ho.cursors]) hscopes
      rw [← Phrase.toNode, Harvest.held_plain hlook hp, Harvest.trees_plain hlook hp]
      refine ((h₁.andThen hopen).trans hinside).perm ?_
      rw [show env.source.used.items p = env.source.localUses p from rfl, ← huses, List.append_assoc, List.append_assoc,
        List.append_assoc]
      have hcomm : (env.source.used.heldIn p.children ++ finishedUses env.source p).Perm
          (finishedUses env.source p ++ env.source.used.heldIn p.children) := List.perm_append_comm
      exact (hcomm.append_left _).append_left _
    | true =>
      -- a function records no uses itself
      have hnone : env.source.localUses p = [] := by
        unfold Source.localUses
        split <;> rename_i hk <;> first | rfl | (rw [hk] at hp; cases hp)
      rw [hnone, List.append_eq_nil_iff, List.append_eq_nil_iff] at huses
      obtain ⟨⟨hentered, hdirect⟩, hfinished⟩ := huses
      rw [hdirect, hfinished, List.append_nil, List.nil_append] at hinside
      rw [hentered] at h₁
      rw [← Phrase.toNode, Harvest.held_chosen hlook hp, Harvest.trees_chosen hlook hp]
      exact h₁.trans (hinside.closed ho hp)

mutual

/-- Along the walk, a node adds the uses that it holds and the scopes of the functions in it. -/
theorem walkNode_adds (env : ReferenceInput) (path : List Phrase) : ∀ (n : Node) (s : ReferenceState), s.CursorsSound →
    Adds env.source (directUses env.source s.binds [n] ++ env.source.used.held n) (env.source.used.trees n) s
      ((visitor env).walkNode path n s)
  | .token t, s, _ => by
    rw [Visitor.walkNode, Harvest.held, Harvest.trees, List.append_nil]
    have h := token_adds env.source s t
    rwa [← List.append_nil (tokenUses _ _ _)] at h
  | .phrase kind children, s, hc =>
    phrase_adds hc ⟨kind, children⟩ path (walkNodes_adds env (⟨kind, children⟩ :: path) children)

theorem walkNodes_adds (env : ReferenceInput) (path : List Phrase) : ∀ (ns : List Node) (s : ReferenceState),
    s.CursorsSound →
      Adds env.source (directUses env.source s.binds ns ++ env.source.used.heldIn ns) (env.source.used.treesIn ns) s
        ((visitor env).walkNodes path ns s)
  | [], s, _ => by
    rw [Visitor.walkNodes]
    exact .refl s
  | n :: ns, s, hc => by
    have hn := walkNode_adds env path n s hc
    have hns := walkNodes_adds env path ns _ (hn.cursors hc)
    rw [hn.binds] at hns
    rw [Visitor.walkNodes, Harvest.heldIn, Harvest.treesIn]
    refine (hn.trans hns).perm ?_
    have hdirect : directUses env.source s.binds (n :: ns) =
        directUses env.source s.binds [n] ++ directUses env.source s.binds ns := by
      unfold directUses
      rw [← List.singleton_append, List.filterMap_append, List.flatMap_append]
    rw [hdirect, List.append_assoc, List.append_assoc]
    refine List.Perm.append_left _ ?_
    rw [← List.append_assoc, ← List.append_assoc]
    exact List.perm_append_comm.append_right _

end

/-- At the end of the walk over a document, whatever the pool is, the scope of the file has the uses and the scopes of
the whole tree. -/
theorem ofDocument_records (d : Document) (pool : SymbolPool) :
    (ofDocument d (SymbolTable.ofDocument d) pool).root.Records (Source.ofDocument d)
      ((Source.ofDocument d).used.ofRoot d.tree) := by
  have hsound : (initial (Source.ofDocument d) (SymbolTable.ofDocument d).root).CursorsSound := by
    refine List.forall_mem_singleton.2 fun s hs => ?_
    exact d.wellFormed_fileSymbol s hs
  have h := walkNode_adds ⟨Source.ofDocument d, (SymbolTable.ofDocument d).uri, pool⟩ [] d.tree.toNode _ hsound
  obtain ⟨file, added, hs, hrange, huses, hchildren, hadded⟩ := h.scopes _ [] rfl
  have hroot : (ofDocument d (SymbolTable.ofDocument d) pool).root = file := by
    unfold root ofDocument
    dsimp only
    rw [Visitor.traverse_eq_walk]
    unfold Visitor.walk
    rw [hs]
    rfl
  rw [hroot]
  refine .mk hrange huses ?_
  rw [hchildren]
  exact hadded

end ReferenceState

/-- The scopes of a document are the file and the functions, methods, closures and arrow functions that the walk comes
to, with the same nesting and in the same order; and each records just the uses of variables that stand in its phrase
outside of the functions inside, each once. -/
theorem Occurrences.uses_recorded (d : Document) (pool : SymbolPool) :
    (Occurrences.ofDocument d (SymbolTable.ofDocument d) pool).root.Records (Source.ofDocument d)
      ((Source.ofDocument d).used.ofRoot d.tree) :=
  ReferenceState.ofDocument_records d pool

end CodeAtlas
