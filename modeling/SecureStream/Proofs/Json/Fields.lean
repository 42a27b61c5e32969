import Mathlib.Data.List.Forall2
import SecureStream.Json.Value

/-!
# Fields of a record

In an object each field of a record stands once or not at all (`JsonValue.fields?_object_eq_some_iff`), and an array
holds the first fields of a record (`JsonValue.fields?_array_eq_some_iff`).  The object that is made of some fields
has these fields (`JsonValue.fields?_ofFields`).
-/

namespace SecureStream.JsonValue

variable {names : List String} {members : List (Option String × JsonValue)} {items : List JsonValue}
  {options : List (Option JsonValue)}

theorem valuesOf_cons_self (name : String) (v : JsonValue) (members : List (Option String × JsonValue)) :
    valuesOf ((some name, v) :: members) name = v :: valuesOf members name := by
  simp [valuesOf]

theorem valuesOf_cons_of_ne {name other : String} (h : other ≠ name) (v : JsonValue)
    (members : List (Option String × JsonValue)) :
    valuesOf ((some other, v) :: members) name = valuesOf members name := by
  simp [valuesOf, h]

theorem mem_valuesOf {name : String} {v : JsonValue} : v ∈ valuesOf members name ↔ (some name, v) ∈ members := by
  simp [valuesOf]

theorem le_of_nat? {v : JsonValue} {top n : Nat} (h : v.nat? top = some n) : n ≤ top := by
  cases v with
  | number literal => exact (Text.decimal?_eq_some_iff.1 h).2.2.2
  | null | bool | string | array | object => cases h

/-- A value that may be missing but does not occur twice. -/
def single? : List JsonValue → Option (Option JsonValue)
  | [] => some none
  | [v] => some (some v)
  | _ => none

theorem single?_eq_some_iff {values : List JsonValue} {option : Option JsonValue} :
    single? values = some option ↔ values = option.toList := by
  rcases values with _ | ⟨v, _ | ⟨w, values⟩⟩ <;> cases option <;> simp [single?]

theorem exists_toList {values : List JsonValue} (h : values.length ≤ 1) :
    ∃ option : Option JsonValue, values = option.toList := by
  rcases values with _ | ⟨v, _ | ⟨w, values⟩⟩
  · exact ⟨none, rfl⟩
  · exact ⟨some v, rfl⟩
  · simp at h

theorem mapM_single?_eq_some_iff :
    (names.mapM fun name => single? (valuesOf members name)) = some options ↔
      List.Forall₂ (fun name option => valuesOf members name = option.toList) names options := by
  induction names generalizing options with
  | nil =>
    constructor
    · rintro ⟨⟩
      exact .nil
    · rintro ⟨⟩
      rfl
  | cons name names ih =>
    rw [List.mapM_cons]
    simp only [Option.bind_eq_bind, Option.bind_eq_some_iff, Option.pure_def, single?_eq_some_iff, ih]
    constructor
    · rintro ⟨option, hname, options', hnames, heq⟩
      cases heq
      exact .cons hname hnames
    · rintro (_ | ⟨hname, hnames⟩)
      exact ⟨_, hname, _, hnames, rfl⟩

/-- Each field of a record stands in an object once or not at all, and all names are names. -/
theorem fields?_object_eq_some_iff :
    (object members).fields? names = some options ↔
      (∀ member ∈ members, member.1.isSome) ∧
        List.Forall₂ (fun name option => valuesOf members name = option.toList) names options := by
  have hfields : (object members).fields? names =
      if members.all (·.1.isSome) then names.mapM fun name => single? (valuesOf members name) else none := rfl
  rw [hfields, ← mapM_single?_eq_some_iff, ← List.all_eq_true]
  split
  · next h => simp [h]
  · next h => simp [h]

/-- An array holds the first fields of a record. -/
theorem fields?_array_eq_some_iff :
    (array items).fields? names = some options ↔
      items.length ≤ names.length ∧
        items.map some ++ List.replicate (names.length - items.length) none = options := by
  rw [fields?]
  split
  · next h => simp [h]
  · next h => simp [h]

theorem length_of_fields? {v : JsonValue} (h : v.fields? names = some options) :
    options.length = names.length := by
  cases v with
  | array items =>
    obtain ⟨hlength, rfl⟩ := fields?_array_eq_some_iff.1 h
    rw [List.length_append, List.length_map, List.length_replicate]
    omega
  | object members => exact (fields?_object_eq_some_iff.1 h).2.length_eq.symm
  | null | bool | number | string => cases h

theorem valuesOf_of_not_mem {fields : List (String × JsonValue)} {name : String} (h : name ∉ fields.map Prod.fst) :
    valuesOf (fields.map fun (name, v) => (some name, v)) name = [] := by
  induction fields with
  | nil => rfl
  | cons field fields ih =>
    rw [List.map_cons, List.mem_cons, not_or] at h
    rw [List.map_cons, valuesOf_cons_of_ne (Ne.symm h.1)]
    exact ih h.2

theorem valuesOf_of_mem {fields : List (String × JsonValue)} {name : String} {v : JsonValue}
    (hnodup : (fields.map Prod.fst).Nodup) (h : (name, v) ∈ fields) :
    valuesOf (fields.map fun (name, v) => (some name, v)) name = [v] := by
  induction fields with
  | nil => cases h
  | cons field fields ih =>
    rw [List.map_cons, List.nodup_cons] at hnodup
    rcases List.mem_cons.1 h with rfl | h
    · rw [List.map_cons, valuesOf_cons_self, valuesOf_of_not_mem hnodup.1]
    · have hne : field.1 ≠ name := by
        rintro rfl
        exact hnodup.1 (List.mem_map.2 ⟨_, h, rfl⟩)
      rw [List.map_cons, valuesOf_cons_of_ne hne]
      exact ih hnodup.2 h

/-- The fields of a record are found in the object that is made of them. -/
theorem fields?_ofFields {fields : List (String × JsonValue)} (hnodup : (fields.map Prod.fst).Nodup) :
    (ofFields fields).fields? (fields.map Prod.fst) = some (fields.map fun field => some field.2) := by
  rw [ofFields, fields?_object_eq_some_iff, List.forall₂_map_left_iff, List.forall₂_map_right_iff,
    List.forall₂_same]
  constructor
  · intro member hmember
    obtain ⟨field, -, rfl⟩ := List.mem_map.1 hmember
    rfl
  · exact fun field hfield => valuesOf_of_mem hnodup hfield

end SecureStream.JsonValue
