import Mathlib.Data.List.Nodup
import SecureStream.Proofs.Json.Fields
import SecureStream.Proofs.Sizing.Settings

/-!
# Records of a sizing

A record makes settings (`Sizing.Describes`): an object those of its members that have the name of a field, an array
those of the first fields.  It is read as the usual sizing with exactly these settings
(`Sizing.ofJson?_eq_some_iff`).

* (a) The reader takes the settings in the order of the fields, from a list of values some of which are missing
  (`Sizing.Reads`, `Sizing.ofJson?_eq_some_iff_reads`).
* (b) The values of an array are such a list (`Sizing.items_iff_reads`).  For the members of an object, one is found
  that makes the same settings in another order (`Sizing.exists_reads`, `Sizing.exists_members`).
-/

namespace SecureStream.Sizing

/-! ### What a record says -/

/-- The members of an object, and what is set by those that have the name of a field. -/
inductive Members : List (Option String × JsonValue) → List (Field × Nat) → Prop where
  | nil : Members [] []
  | field {f : Field} {v : JsonValue} {n : Nat} {members : List (Option String × JsonValue)}
    {settings : List (Field × Nat)} (hv : v.nat? Size.top = some n) (h : Members members settings) :
    Members ((some f.name, v) :: members) ((f, n) :: settings)
  | other {name : String} {v : JsonValue} {members : List (Option String × JsonValue)}
    {settings : List (Field × Nat)} (hname : ∀ f : Field, f.name ≠ name) (h : Members members settings) :
    Members ((some name, v) :: members) settings

/-- The items of an array, and what they set: each a field, in the order of the fields. -/
inductive Items : List Field → List JsonValue → List (Field × Nat) → Prop where
  | nil {fields : List Field} : Items fields [] []
  | cons {f : Field} {v : JsonValue} {n : Nat} {fields : List Field} {items : List JsonValue}
    {settings : List (Field × Nat)} (hv : v.nat? Size.top = some n) (h : Items fields items settings) :
    Items (f :: fields) (v :: items) ((f, n) :: settings)

/-- A record and the settings that it makes, in the order in which they are written. -/
inductive Describes : JsonValue → List (Field × Nat) → Prop where
  | array {items : List JsonValue} {settings : List (Field × Nat)} (h : Items Field.all items settings) :
    Describes (.array items) settings
  /-- No field is set twice. -/
  | object {members : List (Option String × JsonValue)} {settings : List (Field × Nat)}
    (h : Members members settings) (hnodup : (settings.map Prod.fst).Nodup) : Describes (.object members) settings

/-! ### Reading fields in order -/

/-- Values for fields, some of which are missing, and what they set. -/
inductive Reads : List Field → List (Option JsonValue) → List (Field × Nat) → Prop where
  | nil : Reads [] [] []
  | missing {f : Field} {fields : List Field} {options : List (Option JsonValue)} {settings : List (Field × Nat)}
    (h : Reads fields options settings) : Reads (f :: fields) (none :: options) settings
  | present {f : Field} {v : JsonValue} {n : Nat} {fields : List Field} {options : List (Option JsonValue)}
    {settings : List (Field × Nat)} (hv : v.nat? Size.top = some n) (h : Reads fields options settings) :
    Reads (f :: fields) (some v :: options) ((f, n) :: settings)

variable {fields : List Field} {options : List (Option JsonValue)} {settings : List (Field × Nat)}
  {members : List (Option String × JsonValue)} {items : List JsonValue} {s s' : Sizing} {v : JsonValue}

/-- Sets fields in order, those that are there. -/
def setFields : List Field → List (Option JsonValue) → Sizing → Option Sizing
  | f :: fields, option :: options, s => (setField f.set option s).bind (setFields fields options)
  | _, _, s => some s

theorem setFields_eq_some_iff (hlength : options.length = fields.length) :
    setFields fields options s = some s' ↔ ∃ settings, Reads fields options settings ∧ s.withAll settings = s' := by
  induction fields generalizing options s with
  | nil =>
    obtain rfl := List.length_eq_zero_iff.1 hlength
    constructor
    · rintro ⟨⟩
      exact ⟨[], .nil, rfl⟩
    · rintro ⟨_, ⟨⟩, rfl⟩
      rfl
  | cons f fields ih =>
    cases options with
    | nil => cases hlength
    | cons option options =>
      have hrest : options.length = fields.length := Nat.succ.inj hlength
      rw [setFields, Option.bind_eq_some_iff]
      cases option with
      | none =>
        constructor
        · rintro ⟨_, ⟨⟩, h⟩
          obtain ⟨settings, hreads, rfl⟩ := (ih hrest).1 h
          exact ⟨settings, .missing hreads, rfl⟩
        · rintro ⟨_, ⟨⟩ | ⟨hreads⟩, rfl⟩
          exact ⟨s, rfl, (ih hrest).2 ⟨_, hreads, rfl⟩⟩
      | some v =>
        constructor
        · rintro ⟨t, hset, h⟩
          obtain ⟨n, hn, rfl⟩ := Option.map_eq_some_iff.1 hset
          obtain ⟨settings, hreads, rfl⟩ := (ih hrest).1 h
          exact ⟨(f, n) :: settings, .present hn hreads, rfl⟩
        · rintro ⟨_, hreads, rfl⟩
          cases hreads with
          | @present _ _ n _ _ settings hn hreads =>
            exact ⟨f.set s n, by simp [setField, hn], (ih hrest).2 ⟨settings, hreads, rfl⟩⟩

theorem ofJson?_eq_setFields (hfields : v.fields? (Field.all.map Field.name) = some options) :
    ofJson? v = setFields Field.all options usual := by
  match options, JsonValue.length_of_fields? hfields with
  | [growth, handshakeRoom, headroom, expansion, limit], _ =>
    have hnames : fieldNames = Field.all.map Field.name := rfl
    rw [ofJson?, hnames, hfields]
    simp only [Field.all, setFields, Option.bind_eq_bind, Option.bind_some, Option.bind_fun_some]
    rfl

theorem ofJson?_eq_some_iff_reads :
    ofJson? v = some s ↔
      ∃ options settings, v.fields? (Field.all.map Field.name) = some options ∧
        Reads Field.all options settings ∧ usual.withAll settings = s := by
  have hset : ∀ {options}, v.fields? (Field.all.map Field.name) = some options →
      (ofJson? v = some s ↔ ∃ settings, Reads Field.all options settings ∧ usual.withAll settings = s) := by
    intro options hfields
    have hlength := JsonValue.length_of_fields? hfields
    rw [List.length_map] at hlength
    rw [ofJson?_eq_setFields hfields, setFields_eq_some_iff hlength]
  constructor
  · intro h
    obtain ⟨options, hfields, -⟩ := Option.bind_eq_some_iff.1 h
    obtain ⟨settings, hreads, hs⟩ := (hset hfields).1 h
    exact ⟨options, settings, hfields, hreads, hs⟩
  · rintro ⟨options, settings, hfields, hreads, hs⟩
    exact (hset hfields).2 ⟨settings, hreads, hs⟩

/-! ### Arrays -/

theorem reads_replicate_none (fields : List Field) :
    Reads fields (List.replicate fields.length none) settings ↔ settings = [] := by
  induction fields with
  | nil =>
    constructor
    · rintro ⟨⟩
      rfl
    · rintro rfl
      exact .nil
  | cons f fields ih =>
    rw [List.length_cons, List.replicate_succ]
    constructor
    · intro h
      cases h with
      | missing h => exact ih.1 h
    · intro h
      exact .missing (ih.2 h)

theorem items_iff_reads :
    Items fields items settings ↔
      items.length ≤ fields.length ∧
        Reads fields (items.map some ++ List.replicate (fields.length - items.length) none) settings := by
  induction items generalizing fields settings with
  | nil =>
    have hnone : Items fields [] settings ↔ settings = [] := by
      constructor
      · rintro ⟨⟩
        rfl
      · rintro rfl
        exact .nil
    rw [hnone, ← reads_replicate_none fields]
    simp
  | cons item items ih =>
    cases fields with
    | nil =>
      constructor
      · rintro ⟨⟩
      · rintro ⟨hlength, -⟩
        cases hlength
    | cons f fields =>
      rw [List.length_cons, List.length_cons, Nat.add_sub_add_right, Nat.succ_le_succ_iff, List.map_cons,
        List.cons_append]
      constructor
      · rintro (_ | ⟨hn, h⟩)
        obtain ⟨hlength, hreads⟩ := ih.1 h
        exact ⟨hlength, .present hn hreads⟩
      · rintro ⟨hlength, _ | _ | ⟨hn, hreads⟩⟩
        exact .cons hn (ih.2 ⟨hlength, hreads⟩)

theorem ofJson?_array_eq_some_iff :
    ofJson? (.array items) = some s ↔
      ∃ settings, Items Field.all items settings ∧ usual.withAll settings = s := by
  rw [ofJson?_eq_some_iff_reads]
  constructor
  · rintro ⟨options, settings, hfields, hreads, hs⟩
    obtain ⟨hlength, rfl⟩ := JsonValue.fields?_array_eq_some_iff.1 hfields
    rw [List.length_map] at hlength hreads
    exact ⟨settings, items_iff_reads.2 ⟨hlength, hreads⟩, hs⟩
  · rintro ⟨settings, hitems, hs⟩
    obtain ⟨hlength, hreads⟩ := items_iff_reads.1 hitems
    refine ⟨_, settings, JsonValue.fields?_array_eq_some_iff.2 ⟨?_, rfl⟩, ?_, hs⟩
    · rwa [List.length_map]
    · rwa [List.length_map]

theorem Items.le_top (h : Items fields items settings) {f : Field} {n : Nat} (hmem : (f, n) ∈ settings) :
    n ≤ Size.top := by
  induction h with
  | nil => cases hmem
  | cons hv h ih =>
    rcases List.mem_cons.1 hmem with heq | hmem
    · cases heq
      exact JsonValue.le_of_nat? hv
    · exact ih hmem

/-! ### Objects -/

open JsonValue (valuesOf valuesOf_cons_self valuesOf_cons_of_ne)

namespace Members

variable {f : Field} {n : Nat}

theorem isSome (h : Members members settings) : ∀ member ∈ members, member.1.isSome := by
  induction h with
  | nil => simp
  | field hv h ih => 
    intro member hmember
    rcases List.mem_cons.1 hmember with rfl | hmember
    · rfl
    · exact ih member hmember
  | other hname h ih =>
    intro member hmember
    rcases List.mem_cons.1 hmember with rfl | hmember
    · rfl
    · exact ih member hmember

/-- A field is set to the numbers that its values are. -/
theorem mem_iff (h : Members members settings) :
    (f, n) ∈ settings ↔ ∃ v ∈ valuesOf members f.name, v.nat? Size.top = some n := by
  induction h with
  | nil => simp [valuesOf]
  | @field g v m members settings hv h ih =>
    by_cases hg : g = f
    · subst hg
      rw [valuesOf_cons_self, List.mem_cons, ih]
      simp [hv, eq_comm]
    · have hname : g.name ≠ f.name := fun heq => hg (Field.name_injective heq)
      rw [valuesOf_cons_of_ne hname, List.mem_cons, ih]
      simp [Ne.symm hg]
  | other hname h ih => rw [valuesOf_cons_of_ne (Ne.symm (hname f)), ih]

theorem count_eq (h : Members members settings) (f : Field) :
    (settings.map Prod.fst).count f = (valuesOf members f.name).length := by
  induction h with
  | nil => simp [valuesOf]
  | @field g v m members settings hv h ih =>
    by_cases hg : g = f
    · subst hg
      rw [valuesOf_cons_self, List.map_cons, List.count_cons_self, List.length_cons, ih]
    · have hname : g.name ≠ f.name := fun heq => hg (Field.name_injective heq)
      rw [valuesOf_cons_of_ne hname, List.map_cons, List.count_cons_of_ne hg, ih]
  | other hname h ih => rw [valuesOf_cons_of_ne (Ne.symm (hname f)), ih]

/-- No field is set twice if none has two values. -/
theorem nodup_iff (h : Members members settings) :
    (settings.map Prod.fst).Nodup ↔ ∀ f : Field, (valuesOf members f.name).length ≤ 1 := by
  rw [List.nodup_iff_count_le_one]
  exact forall_congr' fun f => by rw [h.count_eq f]

theorem exists_nat (h : Members members settings) {v : JsonValue} (hv : v ∈ valuesOf members f.name) :
    ∃ n, v.nat? Size.top = some n := by
  induction h with
  | nil => simp [valuesOf] at hv
  | @field g w m members settings hw h ih =>
    by_cases hg : g = f
    · subst hg
      rw [valuesOf_cons_self] at hv
      rcases List.mem_cons.1 hv with rfl | hv
      · exact ⟨m, hw⟩
      · exact ih hv
    · rw [valuesOf_cons_of_ne (fun heq => hg (Field.name_injective heq))] at hv
      exact ih hv
  | other hname h ih =>
    rw [valuesOf_cons_of_ne (Ne.symm (hname f))] at hv
    exact ih hv

end Members

/-- The members of an object make settings if the names are names and the fields have numbers. -/
theorem exists_members (hnames : ∀ member ∈ members, member.1.isSome)
    (h : ∀ (f : Field) (v : JsonValue), (some f.name, v) ∈ members → ∃ n, v.nat? Size.top = some n) :
    ∃ settings, Members members settings := by
  induction members with
  | nil => exact ⟨[], .nil⟩
  | cons member members ih =>
    obtain ⟨name, v⟩ := member
    obtain ⟨name, rfl⟩ := Option.isSome_iff_exists.1 (hnames _ List.mem_cons_self)
    obtain ⟨settings, hmembers⟩ := ih (fun member hmember => hnames member (List.mem_cons_of_mem _ hmember))
      (fun f v hmember => h f v (List.mem_cons_of_mem _ hmember))
    by_cases hname : ∃ f : Field, f.name = name
    · obtain ⟨f, rfl⟩ := hname
      obtain ⟨n, hn⟩ := h f v List.mem_cons_self
      exact ⟨(f, n) :: settings, .field hn hmembers⟩
    · exact ⟨settings, .other (not_exists.1 hname) hmembers⟩


/-- Values that fields have at most once are read as settings. -/
theorem exists_reads (values : Field → List JsonValue) (hsingle : ∀ f, (values f).length ≤ 1)
    (hvalues : ∀ f, ∀ v ∈ values f, ∃ n, v.nat? Size.top = some n) (fields : List Field) :
    ∃ options settings, List.Forall₂ (fun f option => values f = option.toList) fields options ∧
      Reads fields options settings := by
  induction fields with
  | nil => exact ⟨[], [], .nil, .nil⟩
  | cons f fields ih =>
    obtain ⟨options, settings, hoptions, hreads⟩ := ih
    obtain ⟨option, hoption⟩ := JsonValue.exists_toList (hsingle f)
    cases option with
    | none => exact ⟨none :: options, settings, .cons hoption hoptions, .missing hreads⟩
    | some v =>
      obtain ⟨n, hn⟩ := hvalues f v (by simp [hoption])
      exact ⟨some v :: options, (f, n) :: settings, .cons hoption hoptions, .present hn hreads⟩

namespace Reads

variable {values : Field → List JsonValue} {f : Field} {n : Nat}

theorem sublist (h : Reads fields options settings) : (settings.map Prod.fst).Sublist fields := by
  induction h with
  | nil => exact .slnil
  | missing h ih => exact ih.cons _
  | present hv h ih => exact ih.cons_cons _

theorem mem_iff (h : Reads fields options settings)
    (hoptions : List.Forall₂ (fun f option => values f = option.toList) fields options) :
    (f, n) ∈ settings ↔ f ∈ fields ∧ ∃ v ∈ values f, v.nat? Size.top = some n := by
  induction h with
  | nil => simp
  | @missing g fields options settings h ih =>
    cases hoptions with
    | cons hg hoptions =>
      rw [ih hoptions, List.mem_cons]
      by_cases hf : f = g
      · subst hf
        simp [hg]
      · simp [hf]
  | @present g v m fields options settings hv h ih =>
    cases hoptions with
    | cons hg hoptions =>
      rw [List.mem_cons, ih hoptions, List.mem_cons]
      by_cases hf : f = g
      · subst hf
        simp [hg, hv, eq_comm]
      · simp [hf]

/-- Every value of a field is a number, and no field has two. -/
theorem exists_nat (h : Reads fields options settings)
    (hoptions : List.Forall₂ (fun f option => values f = option.toList) fields options) (hf : f ∈ fields) :
    (values f).length ≤ 1 ∧ ∀ v ∈ values f, ∃ n, v.nat? Size.top = some n := by
  induction h with
  | nil => cases hf
  | missing h ih =>
    cases hoptions with
    | cons hg hoptions =>
      rcases List.mem_cons.1 hf with rfl | hf
      · simp [hg]
      · exact ih hoptions hf
  | present hv h ih =>
    cases hoptions with
    | cons hg hoptions =>
      rcases List.mem_cons.1 hf with rfl | hf
      · simp [hg, hv]
      · exact ih hoptions hf

end Reads

theorem withAll_eq_of_reads (hmembers : Members members settings) (hnodup : (settings.map Prod.fst).Nodup)
    {settings' : List (Field × Nat)} (hreads : Reads Field.all options settings')
    (hoptions : List.Forall₂ (fun f option => valuesOf members f.name = option.toList) Field.all options) :
    usual.withAll settings = usual.withAll settings' := by
  apply withAll_congr usual hnodup (hreads.sublist.nodup Field.nodup_all)
  rintro ⟨f, n⟩
  rw [hmembers.mem_iff, hreads.mem_iff hoptions]
  simp [f.mem_all]

theorem ofJson?_object_eq_some_iff :
    ofJson? (.object members) = some s ↔
      ∃ settings, Members members settings ∧ (settings.map Prod.fst).Nodup ∧ usual.withAll settings = s := by
  constructor
  · intro h
    obtain ⟨options, settings', hfields, hreads, rfl⟩ := ofJson?_eq_some_iff_reads.1 h
    obtain ⟨hnames, hoptions⟩ := JsonValue.fields?_object_eq_some_iff.1 hfields
    rw [List.forall₂_map_left_iff] at hoptions
    have hvalues := fun f : Field => hreads.exists_nat hoptions f.mem_all
    obtain ⟨settings, hmembers⟩ :=
      exists_members hnames fun f v hmember => (hvalues f).2 v (JsonValue.mem_valuesOf.2 hmember)
    have hnodup := hmembers.nodup_iff.2 fun f => (hvalues f).1
    exact ⟨settings, hmembers, hnodup, withAll_eq_of_reads hmembers hnodup hreads hoptions⟩
  · rintro ⟨settings, hmembers, hnodup, rfl⟩
    obtain ⟨options, settings', hoptions, hreads⟩ := exists_reads (fun f => valuesOf members f.name)
      (hmembers.nodup_iff.1 hnodup) (fun f v hv => hmembers.exists_nat hv) Field.all
    rw [withAll_eq_of_reads hmembers hnodup hreads hoptions, ofJson?_eq_some_iff_reads]
    refine ⟨options, settings', ?_, hreads, rfl⟩
    rw [JsonValue.fields?_object_eq_some_iff, List.forall₂_map_left_iff]
    exact ⟨hmembers.isSome, hoptions⟩

/-! ### Records -/

/-- A record is read as the usual sizing with the settings that it makes. -/
theorem ofJson?_eq_some_iff :
    ofJson? v = some s ↔ ∃ settings, Describes v settings ∧ usual.withAll settings = s := by
  cases v with
  | array items =>
    rw [ofJson?_array_eq_some_iff]
    constructor
    · rintro ⟨settings, hitems, hs⟩
      exact ⟨settings, .array hitems, hs⟩
    · rintro ⟨settings, hitems, hs⟩
      cases hitems with
      | array hitems => exact ⟨settings, hitems, hs⟩
  | object members =>
    rw [ofJson?_object_eq_some_iff]
    constructor
    · rintro ⟨settings, hmembers, hnodup, hs⟩
      exact ⟨settings, .object hmembers hnodup, hs⟩
    · rintro ⟨settings, hobject, hs⟩
      cases hobject with
      | object hmembers hnodup => exact ⟨settings, hmembers, hnodup, hs⟩
  | null | bool | number | string =>
    constructor
    · intro h
      cases h
    · rintro ⟨settings, hother, -⟩
      cases hother

namespace Describes

theorem nodup (h : Describes v settings) : (settings.map Prod.fst).Nodup := by
  cases h with
  | array h => exact (items_iff_reads.1 h).2.sublist.nodup Field.nodup_all
  | object h hnodup => exact hnodup

/-- The numbers in a record are sizes. -/
theorem le_top (h : Describes v settings) : ∀ setting ∈ settings, setting.2 ≤ Size.top := by
  rintro ⟨f, n⟩ hmem
  cases h with
  | array h => exact h.le_top hmem
  | object h hnodup =>
    obtain ⟨v, -, hv⟩ := h.mem_iff.1 hmem
    exact JsonValue.le_of_nat? hv

end Describes

end SecureStream.Sizing
