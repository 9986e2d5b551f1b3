import CodeAtlas.Json.Own
import CodeAtlas.Proofs.JsonText

/-!
# The laws of the program's JSON library

Its writer and its reader fit together (`parse_compact`), and each name of a record without repeated fields finds the
field of that name, if there is one (`fieldOf_record`).
-/

namespace CodeAtlas.Json

namespace Value

private theorem fieldOf_record {fields : List (String × Value)} (hn : (fields.map Prod.fst).Nodup) (name : String) :
    fieldOf? (fields.map fun (name, value) => (some name, value)) name = some (fields.lookup name) := by
  unfold fieldOf?
  induction fields with
  | nil => rfl
  | cons f fs ih =>
    obtain ⟨other, v⟩ := f
    rw [List.map_cons, List.nodup_cons] at hn
    by_cases h : name = other
    · have hfs : (fs.map fun f => (some f.1, f.2)).filter (·.1 == some name) = [] := by
        rw [List.filter_eq_nil_iff]
        intro g hg hname
        obtain ⟨f, hf, rfl⟩ := List.mem_map.1 hg
        exact hn.1 (List.mem_map.2 ⟨f, hf, (Option.some.inj (beq_iff_eq.1 hname)).trans h⟩)
      rw [List.map_cons, List.filter_cons_of_pos (by simp [h]), hfs, h, List.lookup_cons_self]
    · rw [List.map_cons, List.filter_cons_of_neg (by simpa using Ne.symm h), ih hn.2,
        List.lookup_cons, beq_eq_false_iff_ne.2 h]

private theorem fields_record (names : List String) {fields : List (String × Value)}
    (hn : (fields.map Prod.fst).Nodup) : (record fields).fields? names = some (names.map (fields.lookup ·)) := by
  have hproper : (fields.map fun f => (some f.1, f.2)).all (·.1.isSome) = true := by simp
  rw [record, fields?, if_pos hproper, funext (fieldOf_record hn)]
  exact List.mapM_pure

private theorem optional_present {α : Type} (read : Value → Option α) {v : Value} (h : v ≠ .null) :
    optional? read (some v) = (read v).map some := by
  cases v with
  | null => exact absurd rfl h
  | bool | number | string | array | object => rfl

end Value

theorem ownLibrary_lawful : ownLibrary.Lawful where
  parse_print _ h _ := parse_compact h
  fields_record names _ _ h _ := Value.fields_record names h
  optional_missing _ := rfl
  optional_present read _ h := Value.optional_present read h
  orDefault_missing _ _ := rfl
  orDefault_present _ _ _ := rfl
  word_text _ _ := rfl

end CodeAtlas.Json
