import CodeAtlas.Json.Library
import CodeAtlas.Json.Reader
import CodeAtlas.Json.Writer

/-!
# Reading back written JSON

A value that is made of proper texts and natural numbers is read back from its compact text (`parse_compact`).  The
reader is followed from left to right: what it leaves of the text is whatever stands after the value, and the length of
the text bounds the number of its nested readings.
-/

namespace CodeAtlas.Json

open Text

/-! ### Numbers -/

/-- What may stand after a value inside a text: nothing, a comma or a closing bracket. -/
def EndsValue (rest : List Char) : Prop :=
  ∀ c, rest.head? = some c → c = ',' ∨ c = ']' ∨ c = '\x7d'

theorem endsValue_nil : EndsValue [] :=
  nofun

theorem endsValue_comma (rest : List Char) : EndsValue (',' :: rest) := by
  rintro c ⟨⟩
  exact Or.inl rfl

theorem endsValue_bracket (rest : List Char) : EndsValue (']' :: rest) := by
  rintro c ⟨⟩
  exact Or.inr (Or.inl rfl)

theorem endsValue_brace (rest : List Char) : EndsValue ('\x7d' :: rest) := by
  rintro c ⟨⟩
  exact Or.inr (Or.inr rfl)

private theorem readDigits_append {ds rest : List Char} (hd : ∀ c ∈ ds, isDigit c = true) (hr : EndsValue rest) :
    readDigits (ds ++ rest) = (ds, rest) := by
  have hrest : rest.takeWhile isDigit = [] ∧ rest.dropWhile isDigit = rest := by
    cases rest with
    | nil => exact ⟨rfl, rfl⟩
    | cons c rest =>
      have hc : isDigit c = false := by
        rcases hr c rfl with rfl | rfl | rfl <;> decide
      rw [List.takeWhile_cons_of_neg (by simp [hc]), List.dropWhile_cons_of_neg (by simp [hc])]
      exact ⟨rfl, rfl⟩
  unfold readDigits
  rw [List.takeWhile_append_of_pos hd, List.dropWhile_append_of_pos hd, hrest.1, hrest.2, List.append_nil]

private theorem isDigit_of_mem {n : Nat} {c : Char} (h : c ∈ Nat.toDigits 10 n) : isDigit c = true :=
  Nat.isDigit_of_mem_toDigits (by omega) (by omega) h

/-- The digits of a positive number do not begin with a zero. -/
private theorem head_toDigits_ne_zero {n : Nat} (hn : 0 < n) : (Nat.toDigits 10 n).head? ≠ some '0' := by
  induction n using Nat.strongRecOn with
  | _ n ih =>
    rw [Nat.toDigits_eq_if (by omega)]
    split
    · rename_i h
      have hd : ∀ m : Fin 10, 0 < m.val → m.val.digitChar ≠ '0' := by decide
      simpa using hd ⟨n, h⟩ hn
    · rename_i h
      have hi := ih (n / 10) (by omega) (by omega)
      cases hds : Nat.toDigits 10 (n / 10) with
      | nil => exact absurd hds Nat.toDigits_ne_nil
      | cons d ds =>
        rw [hds] at hi
        simpa using hi

theorem ofDigits_toDigits (n : Nat) : ofDigits (Nat.toDigits 10 n) = n := by
  have h := @Nat.ofDigitChars_ten_toDigits n
  rwa [Nat.ofDigitChars_eq_foldl] at h

private theorem readInteger_toDigits (n : Nat) {rest : List Char} (hr : EndsValue rest) :
    readInteger (Nat.toDigits 10 n ++ rest) = some (Nat.toDigits 10 n, rest) := by
  unfold readInteger
  rw [readDigits_append (fun c => isDigit_of_mem) hr]
  cases n with
  | zero =>
    rw [Nat.toDigits_zero]
    rfl
  | succ n =>
    have hz := head_toDigits_ne_zero (Nat.succ_pos n)
    cases hds : Nat.toDigits 10 (n + 1) with
    | nil => exact absurd hds Nat.toDigits_ne_nil
    | cons d ds =>
      rw [hds] at hz
      have hd : (d == '0') = false := by
        rw [beq_eq_false_iff_ne]
        exact fun h => hz (congrArg some h)
      split
      · rename_i h
        cases h
      · rename_i h
        cases h
        cases hd
      · rename_i d' ds' rest' _ h
        cases h
        rw [hd]
        rfl

private theorem toDigits_eq_cons (n : Nat) : ∃ d ds, Nat.toDigits 10 n = d :: ds ∧ isDigit d = true := by
  cases hds : Nat.toDigits 10 n with
  | nil => exact absurd hds Nat.toDigits_ne_nil
  | cons d ds => exact ⟨d, ds, rfl, isDigit_of_mem (hds ▸ List.mem_cons_self)⟩

/-- A written natural number is read back. -/
theorem readNumber_toDigits (n : Nat) {rest : List Char} (hr : EndsValue rest) :
    readNumber (Nat.toDigits 10 n ++ rest) = some (.nat n, rest) := by
  have hi := readInteger_toDigits n hr
  obtain ⟨d, ds, hds, hd⟩ := toDigits_eq_cons n
  have hf : readFraction rest = some (none, rest) := by
    unfold readFraction
    split
    · exact absurd (hr '.' rfl) (by decide)
    · rfl
  have he : readExponent rest = some (none, rest) := by
    unfold readExponent
    split
    · rename_i c rest
      have hc : (c == 'e' || c == 'E') = false := by
        rcases hr c rfl with rfl | rfl | rfl <;> decide
      rw [hc]
      rfl
    · rfl
  unfold readNumber
  rw [hds, List.cons_append] at hi ⊢
  split
  rename_i negative cs hneg
  split at hneg
  · rename_i h
    cases h
    cases hd
  · cases hneg
    rw [hi, Option.bind_some]
    simp only [hf, he, Option.bind_some, Option.map_some]
    rw [← hds, ofDigits_toDigits]

/-! ### Strings -/

private theorem hexDigit_hexDigit : ∀ n : Fin 16, hexDigit? (hexDigit n) = some n.val := by
  decide

/-- A control character is written with its number in four digits. -/
private theorem ofHex_code {n : Nat} (h : n < 32) :
    ofHex? ['0', '0', hexDigit (n / 16), hexDigit (n % 16)] = some n := by
  have h1 := hexDigit_hexDigit ⟨n / 16, by omega⟩
  have h2 := hexDigit_hexDigit ⟨n % 16, by omega⟩
  simp only at h1 h2
  have h0 : hexDigit? '0' = some 0 := by decide
  have hn : 16 * (n / 16) + n % 16 = n := by omega
  simp [ofHex?, h0, h1, h2, hn]

private theorem joinUnits_code {n : Nat} (h : n < 32) (units : List StringUnit) :
    joinUnits (.code n :: units) = (joinUnits units).map (Char.ofNat n :: ·) := by
  have hh : isHighSurrogate n = false := by
    unfold isHighSurrogate
    simp only [Bool.and_eq_false_iff, decide_eq_false_iff_not]
    omega
  have hl : isLowSurrogate n = false := by
    unfold isLowSurrogate
    simp only [Bool.and_eq_false_iff, decide_eq_false_iff_not]
    omega
  match units with
  | [] => simp [joinUnits, hh, hl]
  | .char c :: units => simp [joinUnits, hh, hl]
  | .code m :: units => rw [joinUnits, hh, hl]; rfl

private theorem readUnits_simple {c e : Char} (h : simpleEscape? c = some e) (hu : c ≠ 'u') (rest : List Char) :
    readUnits ('\\' :: c :: rest) = (readUnits rest).map fun r => (.char e :: r.1, r.2) := by
  rw [readUnits.eq_def]
  split
  · rename_i heq
    cases heq
  · rename_i heq
    cases heq
    exact absurd rfl hu
  · rename_i heq
    cases heq
    rw [h]
    cases readUnits rest <;> rfl
  · rename_i hne heq
    cases heq
    exact absurd rfl (hne c rest rfl)
  · rename_i heq
    cases heq

private theorem readUnits_plain {c : Char} (hq : c ≠ '"') (hb : c ≠ '\\') (hc : ¬ c.toNat < 32) (rest : List Char) :
    readUnits (c :: rest) = (readUnits rest).map fun r => (.char c :: r.1, r.2) := by
  rw [readUnits.eq_def]
  split
  · rename_i heq
    cases heq
    exact absurd rfl hq
  · rename_i heq
    cases heq
    exact absurd rfl hb
  · rename_i heq
    cases heq
    exact absurd rfl hb
  · rename_i heq
    cases heq
    rw [if_neg hc]
  · rename_i heq
    cases heq

/-- A written character is read as one unit, which stands for the character. -/
private theorem readUnits_escapeChar (c : Char) (rest : List Char) :
    ∃ u, readUnits (escapeChar c ++ rest) = (readUnits rest).map (fun r => (u :: r.1, r.2)) ∧
      ∀ units, joinUnits (u :: units) = (joinUnits units).map (c :: ·) := by
  have hplain : ∀ (e : Char) (units : List StringUnit),
      joinUnits (.char e :: units) = (joinUnits units).map (e :: ·) := by
    intro e units
    rw [joinUnits]
  unfold escapeChar
  split
  · exact ⟨.char '"', readUnits_simple rfl (by decide) rest, hplain _⟩
  · exact ⟨.char '\\', readUnits_simple rfl (by decide) rest, hplain _⟩
  · exact ⟨.char '\x08', readUnits_simple rfl (by decide) rest, hplain _⟩
  · exact ⟨.char '\x0c', readUnits_simple rfl (by decide) rest, hplain _⟩
  · exact ⟨.char '\n', readUnits_simple rfl (by decide) rest, hplain _⟩
  · exact ⟨.char '\r', readUnits_simple rfl (by decide) rest, hplain _⟩
  · exact ⟨.char '\t', readUnits_simple rfl (by decide) rest, hplain _⟩
  · rename_i hq hb _ _ _ _ _
    split
    · rename_i hc
      refine ⟨.code c.toNat, ?_, ?_⟩
      · show readUnits ('\\' :: 'u' :: '0' :: '0' :: hexDigit (c.toNat / 16) :: hexDigit (c.toNat % 16) :: rest) = _
        rw [readUnits, ofHex_code hc]
        cases readUnits rest <;> rfl
      · intro units
        rw [joinUnits_code hc, Char.ofNat_toNat]
    · rename_i hc
      exact ⟨.char c, readUnits_plain (fun h => hq h) (fun h => hb h) hc rest, hplain c⟩

/-- The characters of a string, escaped and closed with a quote, are read back. -/
theorem readString_escaped (cs rest : List Char) :
    readString (cs.flatMap escapeChar ++ '"' :: rest) = some (some (String.ofList cs), rest) := by
  have hunits : ∃ units, readUnits (cs.flatMap escapeChar ++ '"' :: rest) = some (units, rest) ∧
      joinUnits units = some cs := by
    induction cs with
    | nil => exact ⟨[], by rw [List.flatMap_nil, List.nil_append, readUnits], rfl⟩
    | cons c cs ih =>
      obtain ⟨units, hr, hj⟩ := ih
      obtain ⟨u, hu, hju⟩ := readUnits_escapeChar c (cs.flatMap escapeChar ++ '"' :: rest)
      refine ⟨u :: units, ?_, by rw [hju, hj]; rfl⟩
      rw [List.flatMap_cons, List.append_assoc, hu, hr]
      rfl
  obtain ⟨units, hr, hj⟩ := hunits
  unfold readString
  rw [hr, Option.map_some]
  simp only [hj, Option.map_some]

/-- A quoted string from after its opening quote on. -/
private theorem toList_quote (s : String) :
    (quote (some s)).toList = '"' :: (s.toList.flatMap escapeChar ++ ['"']) := by
  unfold quote
  rw [String.toList_ofList]
  rfl

theorem readString_quote (s : String) (rest : List Char) :
    ∃ body, (quote (some s)).toList = '"' :: body ∧ readString (body ++ rest) = some (some s, rest) := by
  refine ⟨_, toList_quote s, ?_⟩
  rw [List.append_assoc, List.singleton_append, readString_escaped, String.ofList_toList]

/-! ### Values -/

private theorem skipGap_cons {c : Char} (h : isGap c = false) (cs : List Char) : skipGap (c :: cs) = c :: cs := by
  unfold skipGap
  rw [List.dropWhile_cons_of_neg (by simp [h])]

private theorem toList_array (items : List Value) :
    (Value.array items).compact.toList = '[' :: ((Value.compactItems items).toList ++ [']']) := by
  rw [Value.compact]
  simp

private theorem toList_object (fields : List (Option String × Value)) :
    (Value.object fields).compact.toList = '\x7b' :: ((Value.compactFields fields).toList ++ ['\x7d']) := by
  rw [Value.compact]
  simp

private theorem toList_nat (n : Nat) : (Value.number (.nat n)).compact.toList = Nat.toDigits 10 n := by
  rw [Value.compact, Number.text, Nat.toString_eq_ofList_toDigits, String.toList_ofList]

/-- A written value begins with a character that is neither a blank nor a closing bracket. -/
private theorem compact_eq_cons {v : Value} (h : v.isSimple = true) :
    ∃ c cs, v.compact.toList = c :: cs ∧ isGap c = false ∧ c ≠ ']' := by
  cases v with
  | null => exact ⟨'n', _, rfl, by decide, by decide⟩
  | bool b =>
    cases b
    · exact ⟨'f', _, rfl, by decide, by decide⟩
    · exact ⟨'t', _, rfl, by decide, by decide⟩
  | number n =>
    cases n with
    | nat n =>
      obtain ⟨d, ds, hds, hd⟩ := toDigits_eq_cons n
      refine ⟨d, ds, ?_, ?_, ?_⟩
      · rw [toList_nat, hds]
      · cases hg : isGap d with
        | false => rfl
        | true =>
          simp only [isGap, Bool.or_eq_true, beq_iff_eq] at hg
          rcases hg with ((rfl | rfl) | rfl) | rfl <;> cases hd
      · rintro rfl
        cases hd
    | decimal _ _ _ =>
      rw [Value.isSimple] at h
      cases h
  | string s =>
    cases s with
    | none =>
      rw [Value.isSimple] at h
      cases h
    | some s => exact ⟨'"', _, by rw [Value.compact, toList_quote], by decide, by decide⟩
  | array items => exact ⟨'[', _, toList_array items, by decide, by decide⟩
  | object fields => exact ⟨'\x7b', _, toList_object fields, by decide, by decide⟩

private theorem readValue_number {fuel : Nat} {d : Char} (hd : isDigit d = true) (cs : List Char) :
    readValue (fuel + 1) (d :: cs) = (readNumber (d :: cs)).map fun r => (.number r.1, r.2) := by
  unfold readValue
  split
  all_goals first
    | (rename_i heq; cases heq; cases hd)
    | rfl

private theorem compactItems_cons (v w : Value) (ws : List Value) :
    (Value.compactItems (v :: w :: ws)).toList = v.compact.toList ++ ',' :: (Value.compactItems (w :: ws)).toList := by
  rw [Value.compactItems]
  · simp
  · exact List.cons_ne_nil w ws

/-- Written items begin as the first of them does. -/
private theorem compactItems_eq_cons {v : Value} (hv : v.isSimple = true) (vs : List Value) :
    ∃ c cs, (Value.compactItems (v :: vs)).toList = c :: cs ∧ isGap c = false ∧ c ≠ ']' := by
  obtain ⟨c, cs, hc, hg, hne⟩ := compact_eq_cons hv
  cases vs with
  | nil => exact ⟨c, cs, by rw [Value.compactItems, hc], hg, hne⟩
  | cons w ws => exact ⟨c, _, by rw [compactItems_cons, hc]; rfl, hg, hne⟩

private theorem readValue_items {fuel : Nat} {cs rest : List Char} {items : List Value}
    (hcs : ∃ c tail, cs = c :: tail ∧ isGap c = false ∧ c ≠ ']') (h : readItems fuel cs = some (items, rest)) :
    readValue (fuel + 1) ('[' :: cs) = some (.array items, rest) := by
  obtain ⟨c, tail, rfl, hg, hc⟩ := hcs
  rw [readValue, skipGap_cons hg]
  split
  · rename_i heq
    cases heq
    exact absurd rfl hc
  · rw [h]
    rfl

private theorem readItems_last {fuel : Nat} {cs rest : List Char} {v : Value}
    (h : readValue fuel cs = some (v, ']' :: rest)) : readItems (fuel + 1) cs = some ([v], rest) := by
  rw [readItems, h]
  simp only [skipGap_cons (c := ']') (by decide)]

private theorem readItems_next {fuel : Nat} {cs rest rest' : List Char} {v : Value} {vs : List Value}
    (h : readValue fuel cs = some (v, ',' :: rest)) (hg : skipGap rest = rest)
    (hr : readItems fuel rest = some (vs, rest')) : readItems (fuel + 1) cs = some (v :: vs, rest') := by
  rw [readItems, h]
  simp only [skipGap_cons (c := ',') (by decide), hg, hr, Option.map_some]

/-! ### Fields -/

/-- A written field, and what the reader makes of it up to its value. -/
private theorem field_eq_cons (name : String) {v : Value} (hv : v.isSimple = true) (rest : List Char) :
    ∃ body, (quote (some name)).toList ++ ':' :: v.compact.toList ++ rest = '"' :: body ∧
      readString body = some (some name, ':' :: (v.compact.toList ++ rest)) ∧
      skipGap (v.compact.toList ++ rest) = v.compact.toList ++ rest := by
  obtain ⟨body, hq, hs⟩ := readString_quote name (':' :: (v.compact.toList ++ rest))
  obtain ⟨c, tail, hc, hg, -⟩ := compact_eq_cons hv
  refine ⟨_, ?_, hs, ?_⟩
  · rw [hq, List.append_assoc]
    rfl
  · rw [hc, List.cons_append, skipGap_cons hg]

private theorem compactFields_single (name : Option String) (v : Value) :
    (Value.compactFields [(name, v)]).toList = (quote name).toList ++ ':' :: v.compact.toList := by
  rw [Value.compactFields]
  simp

private theorem compactFields_cons (name : Option String) (v : Value) (g : Option String × Value)
    (gs : List (Option String × Value)) : (Value.compactFields ((name, v) :: g :: gs)).toList =
      (quote name).toList ++ ':' :: v.compact.toList ++ ',' :: (Value.compactFields (g :: gs)).toList := by
  rw [Value.compactFields]
  · simp
  · exact List.cons_ne_nil g gs

/-- Written fields begin with a quote. -/
private theorem compactFields_eq_cons (name : String) (v : Value) (fs : List (Option String × Value)) :
    ∃ cs, (Value.compactFields ((some name, v) :: fs)).toList = '"' :: cs := by
  cases fs with
  | nil => exact ⟨_, by rw [compactFields_single, toList_quote]; rfl⟩
  | cons g gs => exact ⟨_, by rw [compactFields_cons, toList_quote]; rfl⟩

private theorem readFields_last {fuel : Nat} {body cs rest : List Char} {name : Option String} {v : Value}
    (hs : readString body = some (name, ':' :: cs)) (hg : skipGap cs = cs)
    (hv : readValue fuel cs = some (v, '\x7d' :: rest)) :
    readFields (fuel + 1) ('"' :: body) = some ([(name, v)], rest) := by
  rw [readFields, hs]
  simp only [skipGap_cons (c := ':') (by decide), hg, hv, skipGap_cons (c := '\x7d') (by decide)]

private theorem readFields_next {fuel : Nat} {body cs rest rest' : List Char} {name : Option String} {v : Value}
    {fields : List (Option String × Value)} (hs : readString body = some (name, ':' :: cs)) (hg : skipGap cs = cs)
    (hv : readValue fuel cs = some (v, ',' :: rest)) (hr : skipGap rest = rest)
    (h : readFields fuel rest = some (fields, rest')) :
    readFields (fuel + 1) ('"' :: body) = some ((name, v) :: fields, rest') := by
  rw [readFields, hs]
  simp only [skipGap_cons (c := ':') (by decide), hg, hv, skipGap_cons (c := ',') (by decide), hr, h, Option.map_some]

private theorem readValue_fields {fuel : Nat} {cs rest : List Char} {fields : List (Option String × Value)}
    (hcs : ∃ tail, cs = '"' :: tail) (h : readFields fuel cs = some (fields, rest)) :
    readValue (fuel + 1) ('\x7b' :: cs) = some (.object fields, rest) := by
  obtain ⟨tail, rfl⟩ := hcs
  rw [readValue, skipGap_cons (by decide)]
  show (readFields fuel ('"' :: tail)).map (fun r => (Value.object r.1, r.2)) = _
  rw [h]
  rfl

/-! ### Reading back -/

private theorem isSimple_head {v : Value} {vs : List Value} (h : Value.areSimple (v :: vs) = true) :
    v.isSimple = true ∧ Value.areSimple vs = true := by
  rwa [Value.areSimple, Bool.and_eq_true] at h

private theorem isSimple_field {name : Option String} {v : Value} {fields : List (Option String × Value)}
    (h : Value.fieldsAreSimple ((name, v) :: fields) = true) :
    (∃ text, name = some text) ∧ v.isSimple = true ∧ Value.fieldsAreSimple fields = true := by
  simp only [Value.fieldsAreSimple, Bool.and_eq_true] at h
  obtain ⟨⟨⟨hname, -⟩, hv⟩, hfields⟩ := h
  exact ⟨Option.isSome_iff_exists.1 hname, hv, hfields⟩

/-- The value is read back from its text, whatever ends the text. -/
private def Reads (v : Value) : Prop :=
  ∀ (fuel : Nat) (rest : List Char), EndsValue rest → v.compact.toList.length ≤ fuel →
    readValue (fuel + 1) (v.compact.toList ++ rest) = some (v, rest)

/-- One or more items are read back up to the closing bracket. -/
private theorem readItems_compact {vs : List Value} (hne : vs ≠ []) (h : Value.areSimple vs = true)
    (hvs : ∀ v ∈ vs, Reads v) (fuel : Nat) (hf : (Value.compactItems vs).toList.length + 2 ≤ fuel)
    (rest : List Char) : readItems fuel ((Value.compactItems vs).toList ++ ']' :: rest) = some (vs, rest) := by
  induction vs generalizing fuel with
  | nil => exact absurd rfl hne
  | cons v ws ih =>
    -- one unit for the items and one for the first of them
    obtain ⟨fuel, rfl⟩ : ∃ n, fuel = n + 2 := ⟨fuel - 2, by omega⟩
    obtain ⟨hv, hws⟩ := isSimple_head h
    obtain ⟨hfirst, hothers⟩ := List.forall_mem_cons.1 hvs
    cases ws with
    | nil =>
      rw [Value.compactItems] at hf ⊢
      exact readItems_last (hfirst fuel _ (endsValue_bracket rest) (by omega))
    | cons w ws =>
      rw [compactItems_cons, List.length_append, List.length_cons] at hf
      obtain ⟨c, cs, hc, hg, -⟩ := compactItems_eq_cons (isSimple_head hws).1 ws
      have hlen : 0 < v.compact.toList.length := by
        obtain ⟨_, _, hcons, -⟩ := compact_eq_cons hv
        rw [hcons]
        exact Nat.succ_pos _
      have hrest := ih (List.cons_ne_nil w ws) hws hothers (fuel + 1) (by omega)
      rw [compactItems_cons, List.append_assoc, List.cons_append]
      exact readItems_next (hfirst fuel _ (endsValue_comma _) (by omega))
        (by rw [hc, List.cons_append, skipGap_cons hg]) hrest

/-- One or more fields are read back up to the closing brace. -/
private theorem readFields_compact {fields : List (Option String × Value)} (hne : fields ≠ [])
    (h : Value.fieldsAreSimple fields = true) (hvs : ∀ f ∈ fields, Reads f.2) (fuel : Nat)
    (hf : (Value.compactFields fields).toList.length + 2 ≤ fuel) (rest : List Char) :
    readFields fuel ((Value.compactFields fields).toList ++ '\x7d' :: rest) = some (fields, rest) := by
  induction fields generalizing fuel with
  | nil => exact absurd rfl hne
  | cons f gs ih =>
    obtain ⟨fuel, rfl⟩ : ∃ n, fuel = n + 2 := ⟨fuel - 2, by omega⟩
    obtain ⟨name, v⟩ := f
    obtain ⟨⟨text, rfl⟩, hv, hgs⟩ := isSimple_field h
    obtain ⟨hfirst, hothers⟩ := List.forall_mem_cons.1 hvs
    replace hfirst : Reads v := hfirst
    cases gs with
    | nil =>
      rw [compactFields_single, List.length_append, List.length_cons] at hf
      obtain ⟨body, hb, hs, hg⟩ := field_eq_cons text hv ('\x7d' :: rest)
      rw [compactFields_single, hb]
      exact readFields_last hs hg (hfirst fuel _ (endsValue_brace rest) (by omega))
    | cons g gs =>
      obtain ⟨name', v'⟩ := g
      obtain ⟨text', rfl⟩ := (isSimple_field hgs).1
      rw [compactFields_cons, List.length_append, List.length_append, List.length_cons, List.length_cons] at hf
      obtain ⟨tail, ht⟩ := compactFields_eq_cons text' v' gs
      obtain ⟨body, hb, hs, hg⟩ := field_eq_cons text hv
        (',' :: ((Value.compactFields ((some text', v') :: gs)).toList ++ '\x7d' :: rest))
      have hrest := ih (List.cons_ne_nil _ gs) hgs hothers (fuel + 1) (by omega)
      rw [compactFields_cons, List.append_assoc, List.cons_append, hb]
      exact readFields_next hs hg (hfirst fuel _ (endsValue_comma _) (by omega))
        (by rw [ht, List.cons_append, skipGap_cons (by decide)]) hrest

private theorem reads_array {items : List Value} (h : Value.areSimple items = true) (hvs : ∀ v ∈ items, Reads v) :
    Reads (.array items) := by
  intro fuel rest _ hf
  cases items with
  | nil => rfl
  | cons v vs =>
    rw [toList_array, List.length_cons, List.length_append, List.length_singleton] at hf
    obtain ⟨c, cs, hc, hg, hne⟩ := compactItems_eq_cons (isSimple_head h).1 vs
    have hi := readItems_compact (List.cons_ne_nil v vs) h hvs fuel (by omega) rest
    rw [toList_array, List.cons_append, List.append_assoc, List.singleton_append]
    exact readValue_items ⟨c, _, by rw [hc]; rfl, hg, hne⟩ hi

private theorem reads_object {fields : List (Option String × Value)} (h : Value.fieldsAreSimple fields = true)
    (hvs : ∀ f ∈ fields, Reads f.2) : Reads (.object fields) := by
  intro fuel rest _ hf
  cases fields with
  | nil => rfl
  | cons f fs =>
    obtain ⟨name, v⟩ := f
    rw [toList_object, List.length_cons, List.length_append, List.length_singleton] at hf
    obtain ⟨text, rfl⟩ := (isSimple_field h).1
    obtain ⟨cs, hc⟩ := compactFields_eq_cons text v fs
    have hi := readFields_compact (List.cons_ne_nil _ fs) h hvs fuel (by omega) rest
    rw [toList_object, List.cons_append, List.append_assoc, List.singleton_append]
    exact readValue_fields ⟨_, by rw [hc]; rfl⟩ hi

private theorem reads_nat (n : Nat) : Reads (.number (.nat n)) := by
  intro fuel rest hr _
  obtain ⟨d, ds, hds, hd⟩ := toDigits_eq_cons n
  have hn := readNumber_toDigits n hr
  rw [hds, List.cons_append] at hn
  rw [toList_nat, hds, List.cons_append, readValue_number hd, hn]
  rfl

private theorem reads_string (s : String) : Reads (.string (some s)) := by
  intro fuel rest _ _
  obtain ⟨body, hq, hs⟩ := readString_quote s rest
  rw [Value.compact, hq, List.cons_append, readValue, hs]
  rfl

mutual

private theorem reads : ∀ v : Value, v.isSimple = true → Reads v
  | .null, _ => fun _ _ _ _ => rfl
  | .bool b, _ => fun _ _ _ _ => by cases b <;> rfl
  | .number (.nat n), _ => reads_nat n
  | .number (.decimal ..), h => by
    rw [Value.isSimple] at h
    cases h
  | .string none, h => by
    rw [Value.isSimple] at h
    cases h
  | .string (some s), _ => reads_string s
  | .array items, h => by
    rw [Value.isSimple] at h
    exact reads_array h (reads_items items h)
  | .object fields, h => by
    rw [Value.isSimple] at h
    exact reads_object h (reads_fields fields h)

private theorem reads_items : ∀ vs : List Value, Value.areSimple vs = true → ∀ v ∈ vs, Reads v
  | [], _ => nofun
  | v :: vs, h =>
    List.forall_mem_cons.2 ⟨reads v (isSimple_head h).1, reads_items vs (isSimple_head h).2⟩

private theorem reads_fields : ∀ fields : List (Option String × Value), Value.fieldsAreSimple fields = true →
    ∀ f ∈ fields, Reads f.2
  | [], _ => nofun
  | (_, v) :: fields, h =>
    List.forall_mem_cons.2 ⟨reads v (isSimple_field h).2.1, reads_fields fields (isSimple_field h).2.2⟩

end

/-- A value is read back from its compact text. -/
theorem parse_compact {v : Value} (h : v.isSimple = true) : parse? v.compact = some v := by
  obtain ⟨c, cs, hc, hg, -⟩ := compact_eq_cons h
  have hread := reads v h v.compact.toList.length [] endsValue_nil (Nat.le_refl _)
  rw [List.append_nil] at hread
  unfold parse?
  have hskip : skipGap v.compact.toList = v.compact.toList := by rw [hc, skipGap_cons hg]
  simp only [hskip, hread]
  rfl

end CodeAtlas.Json
