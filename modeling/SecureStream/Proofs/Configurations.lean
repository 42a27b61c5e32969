import SecureStream.Diagnostics.Json
import SecureStream.Proofs.Json.RoundTrip
import SecureStream.Proofs.Sizing.Records

/-!
# Configurations in JSON

What is written for a verbosity, or for a sizing whose numbers are sizes, is read back, and what is read as a sizing is
always one that can be written and read back (`configurations_survive`).
-/

namespace SecureStream

open JsonValue (isWritten_ofFields fields?_ofFields nat?_ofNat)

/-! ### Verbosities -/

theorem Topic.nodup_names : (Topic.all.map Topic.name).Nodup := by decide

theorem Levels.isWritten_toJson (l : Levels) : l.toJson.IsWritten := by
  apply isWritten_ofFields
  intro field hfield
  obtain ⟨t, -, rfl⟩ := List.mem_map.1 hfield
  exact .ofNat _

theorem Levels.ofJson?_toJson (l : Levels) : ofJson? l.toJson = some l := by
  have hnodup : ((Topic.all.map fun t => (t.name, JsonValue.ofNat (l.get t).toNat)).map Prod.fst).Nodup :=
    Topic.nodup_names
  have hfields : l.toJson.fields? (Topic.all.map Topic.name) =
      some (Topic.all.map fun t => some (.ofNat (l.get t).toNat)) := fields?_ofFields hnodup
  have hlevel : ∀ level : UInt8, ((JsonValue.ofNat level.toNat).nat? 255).map UInt8.ofNat = some level := by
    intro level
    rw [nat?_ofNat (Nat.le_of_lt_succ level.toNat_lt)]
    simp
  rw [ofJson?, hfields]
  simp [Topic.all, hlevel, Levels.get]

theorem Verbosity.isWritten_toJson (v : Verbosity) : v.toJson.IsWritten := by
  apply isWritten_ofFields
  intro field hfield
  obtain rfl := List.mem_singleton.1 hfield
  exact v.levels.isWritten_toJson

theorem Verbosity.ofJson?_toJson (v : Verbosity) : ofJson? v.toJson = some v := by
  have hfields : v.toJson.fields? ["debug"] = some [some v.levels.toJson] := fields?_ofFields (by simp)
  rw [ofJson?, hfields]
  simp [Levels.ofJson?_toJson]

/-- A verbosity is read from what is written for it. -/
theorem Verbosity.ofText?_toJson (v : Verbosity) : (JsonValue.ofText? v.toJson.text).bind ofJson? = some v := by
  rw [v.isWritten_toJson.ofText?_text]
  exact v.ofJson?_toJson

/-! ### Sizings -/

namespace Sizing

theorem isWritten_toJson (s : Sizing) : s.toJson.IsWritten := by
  have hjson : s.toJson = .ofFields (Field.all.map fun f => (f.name, .ofNat (s.get f))) := rfl
  rw [hjson]
  apply isWritten_ofFields
  intro field hfield
  obtain ⟨f, -, rfl⟩ := List.mem_map.1 hfield
  exact .ofNat _

/-- The members that are written for a sizing set all of its fields. -/
theorem members_get {s : Sizing} (hs : ∀ f, s.get f ≤ Size.top) (fields : List Field) :
    Members (fields.map fun f => (some f.name, .ofNat (s.get f))) (fields.map fun f => (f, s.get f)) := by
  induction fields with
  | nil => exact .nil
  | cons f fields ih => exact .field (nat?_ofNat (hs f)) ih

theorem ofJson?_toJson {s : Sizing} (hs : ∀ f, s.get f ≤ Size.top) : ofJson? s.toJson = some s := by
  have hfields : (Field.all.map fun f => (f, s.get f)).map Prod.fst = Field.all := rfl
  have hnodup : ((Field.all.map fun f => (f, s.get f)).map Prod.fst).Nodup := by
    rw [hfields]
    exact Field.nodup_all
  have hjson : s.toJson = .object (Field.all.map fun f => (some f.name, .ofNat (s.get f))) := rfl
  rw [ofJson?_eq_some_iff, hjson]
  refine ⟨_, .object (members_get hs Field.all) hnodup, ?_⟩
  apply ext_get
  intro f
  rw [get_withAll_of_mem usual hnodup (List.mem_map_of_mem f.mem_all), fit_get]

/-- A sizing is read from what is written for it. -/
theorem ofText?_toJson {s : Sizing} (hs : ∀ f, s.get f ≤ Size.top) :
    (JsonValue.ofText? s.toJson.text).bind ofJson? = some s := by
  rw [s.isWritten_toJson.ofText?_text]
  exact ofJson?_toJson hs

end Sizing

/-- A sizing whose fields have been set to any sizes, in any order and any number of times, is read from what is
written for it, and so is every verbosity.  A text is read as a sizing exactly if it is a record that describes
settings, and then it is read as the usual sizing with these settings, in whatever order they are made.  So a step of
growth and an expansion that have been read are not zero, and the sizing is read again from what is written for it. -/
theorem configurations_survive :
    (∀ settings : List (Sizing.Field × Nat), (∀ setting ∈ settings, setting.2 ≤ Size.top) →
        (JsonValue.ofText? (Sizing.usual.withAll settings).toJson.text).bind Sizing.ofJson? =
          some (Sizing.usual.withAll settings)) ∧
      (∀ v : Verbosity, (JsonValue.ofText? v.toJson.text).bind Verbosity.ofJson? = some v) ∧
      ∀ text s, ((JsonValue.ofText? text).bind Sizing.ofJson? = some s ↔
          ∃ v settings, JsonValue.ofText? text = some v ∧ Sizing.Describes v settings ∧
            ∀ settings', settings'.Perm settings → Sizing.usual.withAll settings' = s) ∧
        ((JsonValue.ofText? text).bind Sizing.ofJson? = some s →
          0 < s.growth ∧ 0 < s.expansion ∧ (JsonValue.ofText? s.toJson.text).bind Sizing.ofJson? = some s) := by
  have hwritten : ∀ settings : List (Sizing.Field × Nat), (∀ setting ∈ settings, setting.2 ≤ Size.top) →
      (JsonValue.ofText? (Sizing.usual.withAll settings).toJson.text).bind Sizing.ofJson? =
        some (Sizing.usual.withAll settings) :=
    fun settings hsettings => Sizing.ofText?_toJson (Sizing.get_withAll_le Sizing.get_usual_le hsettings)
  refine ⟨hwritten, Verbosity.ofText?_toJson, fun text s => ⟨⟨?_, ?_⟩, ?_⟩⟩
  · intro h
    obtain ⟨v, hv, hs⟩ := Option.bind_eq_some_iff.1 h
    obtain ⟨settings, hdescribes, rfl⟩ := Sizing.ofJson?_eq_some_iff.1 hs
    refine ⟨v, settings, hv, hdescribes, fun settings' hperm => ?_⟩
    have hnodup' := (hperm.map Prod.fst).nodup_iff.2 hdescribes.nodup
    exact Sizing.withAll_congr _ hnodup' hdescribes.nodup fun _ => hperm.mem_iff
  · rintro ⟨v, settings, hv, hdescribes, hs⟩
    rw [hv]
    exact Sizing.ofJson?_eq_some_iff.2 ⟨settings, hdescribes, hs settings (.refl settings)⟩
  · intro h
    obtain ⟨v, -, hs⟩ := Option.bind_eq_some_iff.1 h
    obtain ⟨settings, hdescribes, rfl⟩ := Sizing.ofJson?_eq_some_iff.1 hs
    exact ⟨Sizing.growth_pos _, Sizing.expansion_pos _, hwritten settings hdescribes.le_top⟩

/-- A step of zero that is set, and one that is read behind another field and a member that sets nothing. -/
theorem configurations_survive_zero :
    (JsonValue.ofText? (Sizing.usual.withAll [(.growth, 0), (.limit, Size.top)]).toJson.text).bind Sizing.ofJson? =
        some (Sizing.usual.withAll [(.growth, 0), (.limit, Size.top)]) ∧
      let text := "\x7b\"max_buffer_len\": 7, \"note\": [1], \"growth_increment\": 0\x7d"
      let s := Sizing.usual.withAll [(.limit, 7), (.growth, 0)]
      (JsonValue.ofText? text).bind Sizing.ofJson? = some s ∧
        0 < s.growth ∧ 0 < s.expansion ∧ (JsonValue.ofText? s.toJson.text).bind Sizing.ofJson? = some s := by
  obtain ⟨hwritten, -, hread⟩ := configurations_survive
  have htokens : JsonToken.ofText? "\x7b\"max_buffer_len\": 7, \"note\": [1], \"growth_increment\": 0\x7d".toList =
      some [.openObject, .string (some "max_buffer_len"), .colon, .number ['7'], .comma, .string (some "note"),
        .colon, .openArray, .number ['1'], .closeArray, .comma, .string (some "growth_increment"), .colon,
        .number ['0'], .closeObject] := by decide +kernel
  have htext : (JsonValue.ofText? "\x7b\"max_buffer_len\": 7, \"note\": [1], \"growth_increment\": 0\x7d").bind
      Sizing.ofJson? = some (Sizing.usual.withAll [(.limit, 7), (.growth, 0)]) := by
    rw [JsonValue.ofText?, htokens]
    rfl
  exact ⟨hwritten _ (by decide), htext, (hread _ _).2 htext⟩

end SecureStream
