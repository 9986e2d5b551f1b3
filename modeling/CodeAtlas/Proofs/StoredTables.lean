import CodeAtlas.Proofs.JsonLibrary
import CodeAtlas.Proofs.SymbolFamily
import CodeAtlas.Symbol.Stored

/-!
# Reading back stored tables

Writing a record leaves out the fields that are absent, empty or have their default value; the reader finds every other
field under its name (`fields_present`) and restores the rest.  With any lawful JSON library, a table whose types can be
read from their texts and whose locations lie in its document is read back as it was (`ofJsonText_toJsonText`), as long
as its JSON form is not nested more deeply than the library allows.
-/

namespace CodeAtlas

namespace Json.Value

/-! ### Nesting -/

theorem nesting_item {items : List Value} {v : Value} (h : v ∈ items) : v.nesting < (array items).nesting := by
  rw [nesting, Nat.lt_succ_iff]
  induction items with
  | nil => cases h
  | cons w ws ih =>
    rw [nestingOf]
    rcases List.mem_cons.1 h with rfl | h
    · exact Nat.le_max_left _ _
    · exact Nat.le_trans (ih h) (Nat.le_max_right _ _)

theorem nesting_field {fields : List (Option String × Value)} {name : Option String} {v : Value}
    (h : (name, v) ∈ fields) : v.nesting < (object fields).nesting := by
  rw [nesting, Nat.lt_succ_iff]
  induction fields with
  | nil => cases h
  | cons f fs ih =>
    rw [fieldNesting]
    rcases List.mem_cons.1 h with rfl | h
    · exact Nat.le_max_left _ _
    · exact Nat.le_trans (ih h) (Nat.le_max_right _ _)

/-! ### Simple values -/

theorem isSimple_array {items : List Value} (h : ∀ v ∈ items, v.isSimple = true) : (array items).isSimple = true := by
  rw [isSimple]
  induction items with
  | nil => rfl
  | cons v vs ih =>
    obtain ⟨hv, hvs⟩ := List.forall_mem_cons.1 h
    rw [areSimple, hv, ih hvs, Bool.and_self]

theorem isSimple_object {fields : List (Option String × Value)} (hn : (fields.map Prod.fst).Nodup)
    (h : ∀ f ∈ fields, f.1.isSome = true ∧ f.2.isSimple = true) : (object fields).isSimple = true := by
  rw [isSimple]
  induction fields with
  | nil => rfl
  | cons f fs ih =>
    obtain ⟨⟨hname, hf⟩, hfs⟩ := List.forall_mem_cons.1 h
    rw [List.map_cons, List.nodup_cons] at hn
    have hother : fs.all (·.1 != f.1) = true := by
      rw [List.all_eq_true]
      intro g hg
      exact bne_iff_ne.2 fun heq => hn.1 (List.mem_map.2 ⟨g, hg, heq⟩)
    rw [fieldsAreSimple, hname, hother, hf, ih hn.2 hfs]
    rfl

theorem isSimple_ofNat {n : Nat} (h : n < Text.longWordBound) : (ofNat n).isSimple = true := by
  rw [ofNat, isSimple, decide_eq_true h]

/-! ### Records with absent fields -/

/-- The fields of a record that are present. -/
def present (layout : List (String × Option Value)) : List (String × Value) :=
  layout.filterMap fun f => f.2.map (f.1, ·)

/-- The names of the fields that are present stand in the order of the layout. -/
private theorem names_present (layout : List (String × Option Value)) :
    ((present layout).map Prod.fst).Sublist (layout.map Prod.fst) := by
  induction layout with
  | nil => exact .slnil
  | cons f fs ih =>
    obtain ⟨name, _ | v⟩ := f
    · exact ih.cons name
    · exact ih.cons_cons name

private theorem lookup_absent {layout : List (String × Option Value)} {name : String}
    (h : name ∉ layout.map Prod.fst) : (present layout).lookup name = none := by
  rw [List.lookup_eq_none_iff]
  intro g hg
  refine bne_iff_ne.2 fun heq : name = g.1 => h ?_
  rw [heq]
  exact (names_present layout).subset (List.mem_map_of_mem hg)

/-- A field that is present is found under its name, and one that is not is missed. -/
private theorem lookup_present {layout : List (String × Option Value)} (hn : (layout.map Prod.fst).Nodup)
    {f : String × Option Value} (hf : f ∈ layout) : (present layout).lookup f.1 = f.2 := by
  induction layout with
  | nil => cases hf
  | cons g gs ih =>
    rw [List.map_cons, List.nodup_cons] at hn
    obtain ⟨name, v⟩ := g
    rcases List.mem_cons.1 hf with rfl | hmem
    · cases v with
      | none => exact (lookup_absent hn.1 : (present gs).lookup name = none)
      | some v => exact List.lookup_cons_self
    · have hne : f.1 ≠ name := fun h => hn.1 (List.mem_map.2 ⟨f, hmem, h⟩)
      have hrest := ih hn.2 hmem
      cases v with
      | none => exact hrest
      | some v =>
        show ((name, v) :: present gs).lookup f.1 = f.2
        rw [List.lookup_cons, beq_eq_false_iff_ne.2 hne, hrest]

theorem isSimple_present {layout : List (String × Option Value)} (hn : (layout.map Prod.fst).Nodup)
    (h : ∀ f ∈ layout, ∀ v ∈ f.2, v.isSimple = true) : (record (present layout)).isSimple = true := by
  apply isSimple_object
  · have hnames := hn.sublist (names_present layout)
    rw [List.map_map]
    rw [List.Nodup, List.pairwise_map] at hnames ⊢
    exact hnames.imp fun hne heq => hne (Option.some.inj heq)
  · intro g hg
    obtain ⟨field, hfield, rfl⟩ := List.mem_map.1 hg
    obtain ⟨f, hf, hv⟩ := List.mem_filterMap.1 hfield
    obtain ⟨v, hsome, rfl⟩ := Option.map_eq_some_iff.1 hv
    exact ⟨rfl, h f hf v hsome⟩

section

variable {α : Type} {f : α → Value} {v : Value}

theorem isSimple_some (h : v.isSimple = true) : ∀ w ∈ some v, w.isSimple = true := by
  rintro w ⟨⟩
  exact h

theorem isSimple_map {a : Option α} (h : ∀ x ∈ a, (f x).isSimple = true) : ∀ w ∈ a.map f, w.isSimple = true := by
  intro w hw
  obtain ⟨x, hx, rfl⟩ := Option.map_eq_some_iff.1 hw
  exact h x hx

theorem isSimple_ite {p : Prop} [Decidable p] (h : v.isSimple = true) :
    ∀ w ∈ (if p then none else some v), w.isSimple = true := by
  split
  · exact nofun
  · exact isSimple_some h

end

theorem nesting_present (layout : List (String × Option Value)) {name : String} {v : Value}
    (h : (name, some v) ∈ layout) : v.nesting < (record (present layout)).nesting := by
  have hv : (name, v) ∈ present layout := List.mem_filterMap.2 ⟨_, h, rfl⟩
  exact nesting_field (List.mem_map_of_mem hv)

theorem present_append (a b : List (String × Option Value)) : present (a ++ b) = present a ++ present b :=
  List.filterMap_append

theorem ofString_ne_null (s : String) : ofString s ≠ .null :=
  nofun

theorem text_ofString (s : String) : (ofString s).text? = some s :=
  rfl

theorem natBelow_ofNat {bound n : Nat} (h : n < bound) : (ofNat n).natBelow? bound = some n :=
  if_pos h

end Json.Value

open Json Json.Value

/-! ### Reading with a lawful library -/

namespace Json.Library.Lawful

variable {json : Library}

/-- The reader of a record finds each field that is present and misses the others. -/
theorem fields_present (laws : json.Lawful) {layout : List (String × Option Value)}
    (h : (layout.map Prod.fst).Nodup) :
    json.fields? (layout.map Prod.fst) (record (present layout)) = some (layout.map Prod.snd) := by
  have hnames := names_present layout
  rw [laws.fields_record _ _ h (h.sublist hnames) fun f hf => hnames.subset (List.mem_map_of_mem hf), List.map_map]
  exact congrArg some (List.map_congr_left fun f hf => lookup_present h hf)

variable {α : Type} {read : Value → Option α} {f : α → Value}

/-- An optional field that is not written as null is read back. -/
theorem optional_map (laws : json.Lawful) (hne : ∀ x, f x ≠ .null) {a : Option α}
    (h : ∀ x ∈ a, read (f x) = some x) : json.optional? read (a.map f) = some a := by
  cases a with
  | none => exact laws.optional_missing read
  | some x => rw [Option.map_some, laws.optional_present read _ (hne x), h x rfl, Option.map_some]

theorem optional_text (laws : json.Lawful) (a : Option String) : json.optional? text? (a.map ofString) = some a :=
  laws.optional_map ofString_ne_null fun _ _ => rfl

end Json.Library.Lawful

/-! ### Layouts -/

theorem optionalField_eq {α : Type} (name : String) (f : α → Value) (a : Option α) :
    optionalField name f a = present [(name, a.map f)] := by
  cases a <;> rfl

theorem listField_eq (name : String) (items : List Value) :
    listField name items = present [(name, if items.isEmpty then none else some (.array items))] := by
  unfold listField
  split <;> rfl

/-- The fields of the documentation of a symbol. -/
def Documentation.layout (doc : Documentation) : List (String × Option Value) :=
  [ ("description", some (.ofString doc.description)),
    ("type_string", doc.type.map fun t => .ofString t.text),
    ("inherit", if doc.inherit then some (.bool true) else none) ]

theorem Documentation.nodup_layout (doc : Documentation) : (doc.layout.map Prod.fst).Nodup :=
  show ["description", "type_string", "inherit"].Nodup by decide

theorem Documentation.toJson_ne_null (doc : Documentation) : doc.toJson ≠ .null :=
  nofun

theorem Documentation.toJson_eq (doc : Documentation) : doc.toJson = .record (present doc.layout) := by
  have hi : (if doc.inherit then [("inherit", Value.bool true)] else []) =
      present [("inherit", if doc.inherit then some (.bool true) else none)] := by
    split <;> rfl
  unfold toJson
  rw [optionalField_eq, hi]
  exact congrArg record (by rw [List.append_assoc, ← present_append]; rfl)

/-- The fields of a link. -/
def SymbolLink.layout (link : SymbolLink) : List (String × Option Value) :=
  [("kind", some (.ofString link.kind.label)), ("name", some (.ofString link.name))]

theorem SymbolLink.nodup_layout (link : SymbolLink) : (link.layout.map Prod.fst).Nodup :=
  show ["kind", "name"].Nodup by decide

namespace StoredSymbol

theorem toJsonAll_eq (l : List StoredSymbol) : toJsonAll l = l.map toJson := by
  induction l with
  | nil => rfl
  | cons s l ih => rw [toJsonAll, ih, List.map_cons]

/-- The fields of a stored symbol. -/
def layout (s : StoredSymbol) : List (String × Option Value) :=
  [ ("kind", some (.ofString s.kind.label)),
    ("name", some (.ofString s.name)),
    ("location", s.location.map Range.toJson),
    ("modifiers", if s.modifiers = 0 then none else some (.ofNat s.modifiers)),
    ("type", s.type.map .ofString),
    ("doc", s.doc.map Documentation.toJson),
    ("associated", if s.associated.isEmpty then none else some (.array (s.associated.map SymbolLink.toJson))),
    ("children", if s.children.isEmpty then none else some (.array (s.children.map toJson))),
    ("scope", s.scope.map .ofString),
    ("value", s.value.map .ofString) ]

theorem nodup_layout (s : StoredSymbol) : (s.layout.map Prod.fst).Nodup :=
  show ["kind", "name", "location", "modifiers", "type", "doc", "associated", "children", "scope", "value"].Nodup by
    decide

theorem toJson_eq (s : StoredSymbol) : s.toJson = .record (present s.layout) := by
  obtain ⟨kind, name, location, modifiers, type, doc, associated, children, scope, value⟩ := s
  have hm : (if modifiers = 0 then [] else [("modifiers", Value.ofNat modifiers)]) =
      present [("modifiers", if modifiers = 0 then none else some (.ofNat modifiers))] := by
    split <;> rfl
  rw [toJson, hm]
  simp only [optionalField_eq, listField_eq, toJsonAll_eq, List.isEmpty_map, List.append_assoc, ← present_append]
  rfl

end StoredSymbol

/-! ### Proper texts and natural numbers only -/

theorem Range.isSimple_toJson {r : Range} (h : ∀ n ∈ r.toList, n < Text.wordBound) : r.toJson.isSimple = true :=
  isSimple_array <| List.forall_mem_map.2 fun n hn => isSimple_ofNat (Nat.lt_trans (h n hn) (by decide))

theorem Documentation.isSimple_toJson (doc : Documentation) : doc.toJson.isSimple = true := by
  rw [toJson_eq]
  apply isSimple_present doc.nodup_layout
  simp only [layout, List.forall_mem_cons]
  refine ⟨isSimple_some rfl, isSimple_map fun _ _ => rfl, ?_, nofun⟩
  cases doc.inherit
  · exact nofun
  · exact isSimple_some rfl

theorem SymbolLink.isSimple_toJson (link : SymbolLink) : link.toJson.isSimple = true :=
  rfl

/-! ### Reading the parts of a symbol -/

theorem Range.ofJson_toJson {depth : Nat} {r : Range} (hd : r.toJson.nesting ≤ depth)
    (h : ∀ n ∈ r.toList, n < Text.wordBound) : Range.ofJson? depth r.toJson = some r := by
  have hpos : depth ≠ 0 := by
    rw [toJson, nesting] at hd
    omega
  simp only [toList, List.forall_mem_cons] at h
  obtain ⟨ha, hb, hc, hd', -⟩ := h
  unfold ofJson?
  rw [if_neg hpos]
  simp only [toJson, toList, items?, List.map_cons, List.map_nil, natBelow_ofNat ha, natBelow_ofNat hb,
    natBelow_ofNat hc, natBelow_ofNat hd', Option.bind_eq_bind, Option.bind_some]

theorem Range.toJson_ne_null (r : Range) : r.toJson ≠ .null :=
  nofun

/-- The type can be read from its text. -/
def TypeText.Rereads (t : TypeText) : Prop :=
  ofText t.text = t

section

variable [json : Library] {depth : Nat}

theorem SymbolKind.ofJson_label (laws : json.Lawful) (depth : Nat) (kind : SymbolKind) :
    SymbolKind.ofJson? depth (.ofString kind.label) = some kind := by
  rw [ofJson?, laws.word_text]
  cases kind <;> rfl

theorem Documentation.ofJson_toJson (laws : json.Lawful) {doc : Documentation} (hd : doc.toJson.nesting ≤ depth)
    (h : ∀ t ∈ doc.type, t.Rereads) : Documentation.ofJson? depth doc.toJson = some doc := by
  have hpos : depth ≠ 0 := by
    rw [toJson, record, nesting] at hd
    omega
  have hfields : json.fields? ["description", "type_string", "inherit"] doc.toJson =
      some (doc.layout.map Prod.snd) := by
    rw [toJson_eq]
    exact laws.fields_present doc.nodup_layout
  have htype : json.optional? (fun v => v.text?.map TypeText.ofText) (doc.type.map fun t => .ofString t.text) =
      some doc.type :=
    laws.optional_map (fun _ => ofString_ne_null _) fun t ht => congrArg some (h t ht)
  have hinherit : json.orDefault? false bool? (if doc.inherit then some (.bool true) else none) =
      some doc.inherit := by
    cases doc.inherit
    · exact laws.orDefault_missing _ _
    · exact laws.orDefault_present _ _ _
  unfold ofJson?
  rw [if_neg hpos, hfields]
  show (json.optional? _ _).bind (fun type => (json.orDefault? _ _ _).bind fun inherit => _) = _
  rw [htype, Option.bind_some, hinherit]
  rfl

theorem SymbolLink.ofJson_toJson (laws : json.Lawful) {link : SymbolLink} (hd : link.toJson.nesting ≤ depth) :
    SymbolLink.ofJson? depth link.toJson = some link := by
  cases depth with
  | zero =>
    rw [toJson, record, nesting] at hd
    omega
  | succ depth =>
    have hfields : json.fields? ["kind", "name"] link.toJson = some (link.layout.map Prod.snd) :=
      laws.fields_present link.nodup_layout
    rw [ofJson?, hfields]
    show (SymbolKind.ofJson? depth (ofString link.kind.label)).bind _ = _
    rw [SymbolKind.ofJson_label laws]
    rfl

end

/-! ### Symbols -/

/-- What a symbol has to satisfy by itself to be read back in the document `uri`: its location is a range of that
document and its types can be read from their texts. -/
structure Symbol.Portable (uri : String) (s : Symbol) : Prop where
  location : ∀ l ∈ s.location, l.uri = uri ∧ ∀ n ∈ l.range.toList, n < Text.wordBound
  type : ∀ t ∈ s.type, t.Rereads
  docType : ∀ doc ∈ s.doc, ∀ t ∈ doc.type, t.Rereads

namespace Symbol

theorem storeAll_eq (l : List Symbol) : storeAll l = l.map store := by
  induction l with
  | nil => rfl
  | cons s l ih => rw [storeAll, ih, List.map_cons]

theorem store_eq (s : Symbol) : s.store =
    ⟨s.kind, s.name, s.location.map (·.range), s.modifiers.bits, s.type.map TypeText.text, s.doc, s.associated,
      s.children.map store, s.scope, s.value⟩ := by
  cases s
  rw [store, storeAll_eq]

end Symbol

namespace StoredSymbol

theorem restoreAll_eq (uri : String) (l : List StoredSymbol) : restoreAll uri l = l.map (restore uri) := by
  induction l with
  | nil => rfl
  | cons s l ih => rw [restoreAll, ih, List.map_cons]

theorem fields_toJson {json : Library} (laws : json.Lawful) (s : StoredSymbol) :
    json.fields? ["kind", "name", "location", "modifiers", "type", "doc", "associated", "children", "scope", "value"]
      s.toJson = some (s.layout.map Prod.snd) := by
  rw [toJson_eq]
  exact laws.fields_present s.nodup_layout

/-- A field of a symbol is nested less deeply than the symbol. -/
theorem nesting_layout {s : StoredSymbol} {name : String} {v : Value} (h : (name, some v) ∈ s.layout) :
    v.nesting < s.toJson.nesting := by
  rw [toJson_eq]
  exact nesting_present _ h

end StoredSymbol

/-- Each of the items is read back. -/
private theorem mapM_map {α : Type} {f : α → Value} {read : Value → Option α} {items : List α}
    (h : ∀ x ∈ items, read (f x) = some x) : (items.map f).mapM read = some items := by
  induction items with
  | nil => rfl
  | cons x xs ih =>
    obtain ⟨hx, hxs⟩ := List.forall_mem_cons.1 h
    rw [List.map_cons, List.mapM_cons, hx, ih hxs]
    rfl

section

variable [json : Library] {depth : Nat}

/-- A list whose items are nested less deeply than `depth` is read back, also when it is empty and left out. -/
private theorem orDefault_list (laws : json.Lawful) {α : Type} {f : α → Value} {read : Nat → Value → Option α}
    {items : List α} (hd : items ≠ [] → (Value.array (items.map f)).nesting ≤ depth)
    (h : ∀ d < depth, ∀ x ∈ items, (f x).nesting ≤ d → read d (f x) = some x) :
    json.orDefault? [] (listOfJson? depth read) (if items.isEmpty then none else some (.array (items.map f))) =
      some items := by
  by_cases hne : items = []
  · rw [hne]
    exact laws.orDefault_missing _ _
  · rw [if_neg (by simpa using hne), laws.orDefault_present]
    have hdepth := hd hne
    cases depth with
    | zero =>
      rw [nesting] at hdepth
      omega
    | succ depth =>
      rw [listOfJson?, items?, Option.bind_some]
      apply mapM_map
      intro x hx
      have := nesting_item (List.mem_map_of_mem (f := f) hx)
      exact h depth (by omega) x hx (by omega)

/-- A symbol is read back if each of its parts is. -/
private theorem StoredSymbol.ofJson_of_parts (laws : json.Lawful) {s : StoredSymbol}
    (hlocation : ∀ r ∈ s.location, Range.ofJson? depth r.toJson = some r) (hmodifiers : s.modifiers < Text.wordBound)
    (hdoc : ∀ doc ∈ s.doc, Documentation.ofJson? depth doc.toJson = some doc)
    (hassociated : json.orDefault? [] (listOfJson? depth SymbolLink.ofJson?)
      (if s.associated.isEmpty then none else some (.array (s.associated.map SymbolLink.toJson))) = some s.associated)
    (hchildren : json.orDefault? [] (listOfJson? depth StoredSymbol.ofJson?)
      (if s.children.isEmpty then none else some (.array (s.children.map toJson))) = some s.children) :
    ofJson? (depth + 1) s.toJson = some s := by
  have hlocation' := laws.optional_map Range.toJson_ne_null hlocation
  have hdoc' := laws.optional_map Documentation.toJson_ne_null hdoc
  have hmodifiers' : json.orDefault? 0 (natBelow? Text.wordBound)
      (if s.modifiers = 0 then none else some (.ofNat s.modifiers)) = some s.modifiers := by
    split
    · rename_i h0
      rw [laws.orDefault_missing, h0]
    · rw [laws.orDefault_present, natBelow_ofNat hmodifiers]
  unfold ofJson?
  rw [fields_toJson laws]
  simp only [layout, List.map_cons, List.map_nil, SymbolKind.ofJson_label laws, Option.bind_eq_bind, Option.bind_some,
    hlocation', hmodifiers', laws.optional_text, hdoc', hassociated, text_ofString]
  show (json.orDefault? [] (listOfJson? depth ofJson?) _).bind (fun children => some { s with children }) = some s
  rw [hchildren]
  cases s
  rfl

/-- The stored form of a symbol is read back from its JSON form. -/
theorem Symbol.ofJson_store (laws : json.Lawful) {uri : String} (depth : Nat) {s : Symbol}
    (h : ∀ x ∈ s.descendants, x.Portable uri) (hd : s.store.toJson.nesting ≤ depth) :
    StoredSymbol.ofJson? depth s.store.toJson = some s.store := by
  -- on the depth and not on the symbol: the reader gives a list of children two levels less than it has itself
  induction depth using Nat.strongRecOn generalizing s with
  | _ depth ih =>
    cases depth with
    | zero =>
      rw [StoredSymbol.toJson_eq, record, nesting] at hd
      omega
    | succ depth =>
      have hs := h s s.self_mem_descendants
      have hfield : ∀ name {v}, (name, some v) ∈ s.store.layout → v.nesting ≤ depth := by
        intro name v hv
        have := StoredSymbol.nesting_layout hv
        omega
      rw [store_eq] at hfield ⊢
      apply StoredSymbol.ofJson_of_parts laws
      · intro r hr
        obtain ⟨l, hl, rfl⟩ := Option.map_eq_some_iff.1 hr
        refine Range.ofJson_toJson (hfield "location" ?_) (hs.location l hl).2
        simp [StoredSymbol.layout, hl]
      · exact Nat.lt_trans s.modifiers.isLt (by decide)
      · intro doc hdoc
        replace hdoc : s.doc = some doc := hdoc
        refine Documentation.ofJson_toJson laws (hfield "doc" ?_) (hs.docType doc hdoc)
        simp [StoredSymbol.layout, hdoc]
      · refine orDefault_list laws (fun hne => hfield "associated" ?_) fun _ _ _ _ => SymbolLink.ofJson_toJson laws
        simpa [StoredSymbol.layout] using hne
      · refine orDefault_list laws (fun hne => hfield "children" ?_) ?_
        · simpa [StoredSymbol.layout] using hne
        · intro d hd' x hx hxd
          obtain ⟨c, hc, rfl⟩ := List.mem_map.1 hx
          exact ih d (by omega) (fun y hy => h y (mem_descendants_of_child hc hy)) hxd

end

namespace Symbol

/-- What storing and restoring does to a symbol. -/
theorem restore_store_eq (uri : String) (s : Symbol) : s.store.restore uri =
    ⟨s.kind, s.name, s.location.map fun l => ⟨uri, l.range⟩, s.modifiers, s.type.map fun t => .ofText t.text, s.doc,
      s.associated, s.children.map fun c => c.store.restore uri, s.scope, s.value⟩ := by
  have hmodifiers : Modifiers.ofBits s.modifiers.bits = s.modifiers :=
    BitVec.eq_of_toNat_eq (by simp [Modifiers.ofBits, Modifiers.bits])
  rw [store_eq, StoredSymbol.restore, StoredSymbol.restoreAll_eq, hmodifiers, Option.map_map, Option.map_map,
    List.map_map]
  rfl

/-- Restoring a stored symbol gives the symbol. -/
theorem restore_store {uri : String} (s : Symbol) (h : ∀ x ∈ s.descendants, x.Portable uri) :
    s.store.restore uri = s := by
  induction s using childInduction with
  | step s ih =>
    have hs := h s s.self_mem_descendants
    have hlocation : (s.location.map fun l => (⟨uri, l.range⟩ : Location)) = s.location := by
      cases hl : s.location with
      | none => rfl
      | some l => rw [← (hs.location l hl).1]; rfl
    have htype : (s.type.map fun t => TypeText.ofText t.text) = s.type := by
      cases ht : s.type with
      | none => rfl
      | some t => exact congrArg some (hs.type t ht)
    have hchildren : (s.children.map fun c => c.store.restore uri) = s.children :=
      calc s.children.map (fun c => c.store.restore uri)
        _ = s.children.map id :=
          List.map_congr_left fun c hc => ih c hc fun x hx => h x (mem_descendants_of_child hc hx)
        _ = s.children := List.map_id _
    rw [restore_store_eq, hlocation, htype, hchildren]
    cases s
    rfl

theorem isSimple_store {uri : String} (s : Symbol) (h : ∀ x ∈ s.descendants, x.Portable uri) :
    s.store.toJson.isSimple = true := by
  induction s using childInduction with
  | step s ih =>
    have hlocation : ∀ r ∈ s.location.map (·.range), r.toJson.isSimple = true := by
      intro r hr
      obtain ⟨l, hl, rfl⟩ := Option.map_eq_some_iff.1 hr
      exact Range.isSimple_toJson ((h s s.self_mem_descendants).location l hl).2
    have hmodifiers : (ofNat s.modifiers.bits).isSimple = true :=
      isSimple_ofNat (Nat.lt_trans s.modifiers.isLt (by decide))
    have hchildren : ∀ v ∈ (s.children.map store).map StoredSymbol.toJson, v.isSimple = true := by
      intro v hv
      rw [List.map_map] at hv
      obtain ⟨c, hc, rfl⟩ := List.mem_map.1 hv
      exact ih c hc fun x hx => h x (mem_descendants_of_child hc hx)
    rw [store_eq, StoredSymbol.toJson_eq]
    apply isSimple_present (StoredSymbol.nodup_layout _)
    simp only [StoredSymbol.layout, List.forall_mem_cons]
    exact ⟨isSimple_some rfl, isSimple_some rfl, isSimple_map hlocation, isSimple_ite hmodifiers,
      isSimple_map fun _ _ => rfl, isSimple_map fun doc _ => doc.isSimple_toJson,
      isSimple_ite (isSimple_array (List.forall_mem_map.2 fun link _ => link.isSimple_toJson)),
      isSimple_ite (isSimple_array hchildren), isSimple_map fun _ _ => rfl, isSimple_map fun _ _ => rfl, nofun⟩

end Symbol

/-! ### Tables -/

instance (t : TypeText) : Decidable t.Rereads :=
  inferInstanceAs (Decidable (TypeText.ofText t.text = t))

instance (uri : String) (s : Symbol) : Decidable (s.Portable uri) :=
  decidable_of_iff
    ((∀ l ∈ s.location, l.uri = uri ∧ ∀ n ∈ l.range.toList, n < Text.wordBound) ∧ (∀ t ∈ s.type, t.Rereads) ∧
      ∀ doc ∈ s.doc, ∀ t ∈ doc.type, t.Rereads)
    ⟨fun ⟨h1, h2, h3⟩ => ⟨h1, h2, h3⟩, fun h => ⟨h.location, h.type, h.docType⟩⟩

namespace SymbolTable

/-- Every symbol can be read back in the document of the table. -/
def Portable (t : SymbolTable) : Prop :=
  ∀ s ∈ t.symbols, s.Portable t.uri

instance (t : SymbolTable) : Decidable t.Portable :=
  inferInstanceAs (Decidable (∀ s ∈ t.symbols, s.Portable t.uri))

/-- The fields of the stored form. -/
def layout (t : SymbolTable) : List (String × Option Value) :=
  [("uri", some (.ofString t.uri)), ("root", some t.root.store.toJson)]

theorem nodup_layout (t : SymbolTable) : (t.layout.map Prod.fst).Nodup :=
  show ["uri", "root"].Nodup by decide

theorem isSimple_store (t : SymbolTable) (h : t.Portable) : t.store.toJson.isSimple = true := by
  apply isSimple_present t.nodup_layout
  simp only [layout, List.forall_mem_cons]
  exact ⟨isSimple_some rfl, isSimple_some (t.root.isSimple_store h), nofun⟩

theorem restore_store (t : SymbolTable) (h : t.Portable) : t.store.restore = t := by
  cases t
  exact congrArg (SymbolTable.mk _) (Symbol.restore_store _ h)

/-- The stored form of a table is read back from its JSON form. -/
theorem ofJson_store [json : Library] (laws : json.Lawful) {depth : Nat} (t : SymbolTable) (h : t.Portable)
    (hd : t.store.toJson.nesting ≤ depth) : StoredTable.ofJson? depth t.store.toJson = some t.store := by
  have hroot : t.root.store.toJson.nesting < t.store.toJson.nesting :=
    nesting_present t.layout (List.mem_cons_of_mem _ List.mem_cons_self)
  cases depth with
  | zero => omega
  | succ depth =>
    have hfields : json.fields? ["uri", "root"] t.store.toJson = some (t.layout.map Prod.snd) :=
      laws.fields_present t.nodup_layout
    rw [StoredTable.ofJson?, hfields]
    show (StoredSymbol.ofJson? depth t.root.store.toJson).bind _ = _
    rw [Symbol.ofJson_store laws depth h (by omega)]
    rfl

/-- A table is read back from its JSON text as it was. -/
theorem ofJsonText_toJsonText [json : Library] (laws : json.Lawful) (t : SymbolTable) (h : t.Portable)
    (hd : t.store.toJson.nesting ≤ json.depthLimit) : ofJsonText? t.toJsonText = some t := by
  have hparse : json.parse? t.toJsonText = some t.store.toJson := laws.parse_print _ (t.isSimple_store h) hd
  have hread : StoredTable.ofJson? json.depthLimit t.store.toJson = some t.store := ofJson_store laws t h hd
  unfold ofJsonText?
  rw [hparse, Option.bind_some, hread, Option.map_some, restore_store t h]

/-- A class with a base class, a documented property and a method of no known place. -/
def sample : SymbolTable where
  uri := "file:///a b/\u00e9\n.php"
  root :=
    { Symbol.bare .file "a" with
      children := [
        { Symbol.bare .cls "N\\A" with
          location := some ⟨"file:///a b/\u00e9\n.php", ⟨⟨2, 0⟩, ⟨9, 4294967295⟩⟩⟩
          modifiers := Modifiers.finalBit ||| Modifiers.abstractBit
          doc := some ⟨"says \"\x01\t𝔸\"", none, true⟩
          associated := [⟨.cls, "N\\B"⟩, ⟨.interface, ""⟩]
          children := [
            { Symbol.bare .property "$p" with
              location := some ⟨"file:///a b/\u00e9\n.php", ⟨⟨3, 4⟩, ⟨3, 6⟩⟩⟩
              type := some ⟨["(N\\A|int)[]", "null"]⟩
              doc := some ⟨"", some ⟨["N\\A", "string[]"]⟩, false⟩
              scope := some "N\\A"
              value := some "'\\'" },
            { Symbol.bare .method "m" with modifiers := 0x1fff, scope := some "N\\A" } ] } ] }

theorem ofJsonText_toJsonText_sample :
    ownLibrary.Lawful ∧ sample.Portable ∧ sample.store.toJson.nesting = 7 ∧ ofJsonText? sample.toJsonText = some sample :=
  have hp : sample.Portable := by decide +kernel
  have hn : sample.store.toJson.nesting = 7 := by decide +kernel
  ⟨ownLibrary_lawful, hp, hn, ofJsonText_toJsonText ownLibrary_lawful sample hp (by rw [hn]; decide)⟩

end SymbolTable

end CodeAtlas
