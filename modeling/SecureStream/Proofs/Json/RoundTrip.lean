import SecureStream.Proofs.Json.Tokens

/-!
# Values that are read back

The text of a value is read as this value if its numbers are written by digits alone and its strings are made of
characters (`JsonValue.IsWritten.ofText?_text`).

* (a) The text of such a value has the tokens of the value (`JsonValue.IsWritten.hasTokens`).
* (b) The value is read from these tokens, which takes two steps for each of them at most
  (`JsonValue.IsWritten.isRead`).
-/

namespace SecureStream.JsonValue

/-- A value as it is written: with numbers that digits write, and with strings and names that are made of
characters. -/
inductive IsWritten : JsonValue → Prop where
  | null : IsWritten .null
  | bool (b : Bool) : IsWritten (.bool b)
  | ofNat (n : Nat) : IsWritten (.ofNat n)
  | string (s : String) : IsWritten (.string (some s))
  | array {items : List JsonValue} (h : ∀ item ∈ items, IsWritten item) : IsWritten (.array items)
  | object {members : List (Option String × JsonValue)} (hnames : ∀ member ∈ members, member.1.isSome)
    (h : ∀ member ∈ members, IsWritten member.2) : IsWritten (.object members)

mutual

/-- The tokens of a value. -/
def tokens : JsonValue → List JsonToken
  | .null => [.null]
  | .bool b => [.bool b]
  | .number literal => [.number literal]
  | .string s => [.string s]
  | .array items => .openArray :: itemTokens items ++ [.closeArray]
  | .object members => .openObject :: memberTokens members ++ [.closeObject]

def itemTokens : List JsonValue → List JsonToken
  | [] => []
  | [item] => item.tokens
  | item :: items => item.tokens ++ .comma :: itemTokens items

def memberTokens : List (Option String × JsonValue) → List JsonToken
  | [] => []
  | [(name, item)] => .string name :: .colon :: item.tokens
  | (name, item) :: members => .string name :: .colon :: item.tokens ++ .comma :: memberTokens members

end

section

variable {items : List JsonValue} {members : List (Option String × JsonValue)}

theorem itemTokens_cons (item : JsonValue) (h : items ≠ []) :
    itemTokens (item :: items) = item.tokens ++ .comma :: itemTokens items := by
  cases items with
  | nil => exact absurd rfl h
  | cons next items => rfl

theorem itemChars_cons (item : JsonValue) (h : items ≠ []) :
    itemChars (item :: items) = item.chars ++ ',' :: itemChars items := by
  cases items with
  | nil => exact absurd rfl h
  | cons next items => rfl

theorem memberTokens_cons (name : Option String) (item : JsonValue) (h : members ≠ []) :
    memberTokens ((name, item) :: members) =
      .string name :: .colon :: (item.tokens ++ .comma :: memberTokens members) := by
  cases members with
  | nil => exact absurd rfl h
  | cons next members => rfl

theorem memberChars_cons (name : Option String) (item : JsonValue) (h : members ≠ []) :
    memberChars ((name, item) :: members) =
      quoted name ++ ':' :: (item.chars ++ ',' :: memberChars members) := by
  cases members with
  | nil => exact absurd rfl h
  | cons next members => simp [memberChars]

end

/-! ### Tokens of the text -/

open JsonToken (EndsNumber ofText?_cons ofText?_toDigits ofText?_quoted)

/-- The text of a value has the tokens of the value, in front of all that does not go on with a number. -/
def HasTokens (v : JsonValue) : Prop :=
  ∀ rest, EndsNumber rest → JsonToken.ofText? (v.chars ++ rest) = (JsonToken.ofText? rest).map (v.tokens ++ ·)

theorem endsNumber_cons {c : Char} (h : c.isDigit = false ∧ c ≠ '.' ∧ c ≠ 'e' ∧ c ≠ 'E') (rest : List Char) :
    EndsNumber (c :: rest) := by
  rintro d ⟨⟩
  exact h

theorem ofText?_itemChars {items : List JsonValue} (h : ∀ item ∈ items, HasTokens item) {rest : List Char}
    (hrest : EndsNumber rest) :
    JsonToken.ofText? (itemChars items ++ rest) = (JsonToken.ofText? rest).map (itemTokens items ++ ·) := by
  induction items with
  | nil => simp [itemChars, itemTokens]
  | cons item items ih =>
    have hitem := h item List.mem_cons_self
    by_cases hne : items = []
    · subst hne
      exact hitem rest hrest
    · have hitems := ih fun item hmem => h item (List.mem_cons_of_mem _ hmem)
      rw [itemChars_cons item hne, itemTokens_cons item hne, List.append_assoc, List.cons_append,
        hitem _ (endsNumber_cons (by decide) _), ofText?_cons rfl rfl, hitems]
      simp [Function.comp_def]

theorem ofText?_memberChars {members : List (Option String × JsonValue)}
    (hnames : ∀ member ∈ members, member.1.isSome) (h : ∀ member ∈ members, HasTokens member.2) {rest : List Char}
    (hrest : EndsNumber rest) :
    JsonToken.ofText? (memberChars members ++ rest) =
      (JsonToken.ofText? rest).map (memberTokens members ++ ·) := by
  induction members with
  | nil => simp [memberChars, memberTokens]
  | cons member members ih =>
    obtain ⟨name, item⟩ := member
    have hitem : HasTokens item := h _ List.mem_cons_self
    obtain ⟨name, rfl⟩ := Option.isSome_iff_exists.1 (hnames _ List.mem_cons_self)
    by_cases hne : members = []
    · subst hne
      rw [memberChars, memberTokens, List.append_assoc, List.cons_append, ofText?_quoted, ofText?_cons rfl rfl,
        hitem rest hrest]
      simp [Function.comp_def]
    · have hmembers := ih (fun member hmem => hnames member (List.mem_cons_of_mem _ hmem))
        (fun member hmem => h member (List.mem_cons_of_mem _ hmem))
      rw [memberChars_cons _ item hne, memberTokens_cons _ item hne, List.append_assoc, List.cons_append,
        List.append_assoc, List.cons_append, ofText?_quoted, ofText?_cons rfl rfl,
        hitem _ (endsNumber_cons (by decide) _), ofText?_cons rfl rfl, hmembers]
      simp [Function.comp_def]

theorem IsWritten.hasTokens {v : JsonValue} (h : v.IsWritten) : v.HasTokens := by
  induction h with
  | null => exact fun rest _ => ofText?_cons rfl rfl
  | bool b =>
    intro rest _
    cases b with
    | true => exact ofText?_cons rfl rfl
    | false => exact ofText?_cons rfl rfl
  | ofNat n => exact fun rest hrest => ofText?_toDigits n hrest
  | string s => exact fun rest _ => ofText?_quoted s rest
  | array h ih =>
    intro rest hrest
    simp only [chars, tokens, List.append_assoc, List.cons_append, List.nil_append]
    rw [ofText?_cons rfl rfl, ofText?_itemChars ih (endsNumber_cons (by decide) _), ofText?_cons rfl rfl]
    simp [Function.comp_def]
  | object hnames h ih =>
    intro rest hrest
    simp only [chars, tokens, List.append_assoc, List.cons_append, List.nil_append]
    rw [ofText?_cons rfl rfl, ofText?_memberChars hnames ih (endsNumber_cons (by decide) _), ofText?_cons rfl rfl]
    simp [Function.comp_def]

/-! ### Reading the tokens -/

/-- A value is read from its tokens in a number of steps, whatever follows. -/
def IsRead (v : JsonValue) : Prop :=
  ∀ steps rest, 2 * v.tokens.length ≤ steps → read steps (v.tokens ++ rest) = some (v, rest)

/-- No value starts with the end of an array. -/
theorem head?_tokens_append (v : JsonValue) (rest : List JsonToken) :
    (v.tokens ++ rest).head? ≠ some .closeArray := by
  cases v with
  | null => simp [tokens]
  | bool b => simp [tokens]
  | number literal => simp [tokens]
  | string s => simp [tokens]
  | array items => simp [tokens]
  | object members => simp [tokens]

theorem head?_itemTokens_append {items : List JsonValue} (hne : items ≠ []) (rest : List JsonToken) :
    (itemTokens items ++ rest).head? ≠ some .closeArray := by
  cases items with
  | nil => exact absurd rfl hne
  | cons item items =>
    by_cases hitems : items = []
    · subst hitems
      exact item.head?_tokens_append rest
    · rw [itemTokens_cons item hitems, List.append_assoc]
      exact item.head?_tokens_append _

theorem read_openArray {tokens : List JsonToken} (h : tokens.head? ≠ some .closeArray) (steps : Nat) :
    read (steps + 1) (.openArray :: tokens) =
      (readItems steps tokens).map fun (items, rest) => (.array items, rest) := by
  unfold read
  split
  all_goals simp_all

theorem read_openObject {members : List (Option String × JsonValue)} (hne : members ≠ []) (steps : Nat)
    (rest : List JsonToken) :
    read (steps + 1) (.openObject :: (memberTokens members ++ rest)) =
      (readMembers steps (memberTokens members ++ rest)).map fun (members, rest) => (.object members, rest) := by
  rcases members with _ | ⟨⟨name, item⟩, members⟩
  · exact absurd rfl hne
  · by_cases hmembers : members = []
    · subst hmembers
      rfl
    · rw [memberTokens_cons name item hmembers]
      rfl

theorem readItems_itemTokens {items : List JsonValue} (hne : items ≠ []) (h : ∀ item ∈ items, IsRead item)
    {steps : Nat} (hsteps : 2 * (itemTokens items).length < steps) (rest : List JsonToken) :
    readItems steps (itemTokens items ++ .closeArray :: rest) = some (items, rest) := by
  induction items generalizing steps with
  | nil => exact absurd rfl hne
  | cons item items ih =>
    obtain ⟨steps, rfl⟩ : ∃ k, steps = k + 1 := ⟨steps - 1, by omega⟩
    have hitem := h item List.mem_cons_self
    by_cases hitems : items = []
    · subst hitems
      rw [itemTokens] at hsteps ⊢
      rw [readItems, hitem steps _ (by omega)]
    · rw [itemTokens_cons item hitems] at hsteps ⊢
      rw [List.length_append, List.length_cons] at hsteps
      have hlater : 2 * (itemTokens items).length < steps := by omega
      have hread := ih hitems (fun item hmem => h item (List.mem_cons_of_mem _ hmem)) hlater
      rw [List.append_assoc, List.cons_append, readItems, hitem steps _ (by omega)]
      simp only [hread, Option.map_some]

theorem readMembers_memberTokens {members : List (Option String × JsonValue)} (hne : members ≠ [])
    (h : ∀ member ∈ members, IsRead member.2) {steps : Nat} (hsteps : 2 * (memberTokens members).length < steps)
    (rest : List JsonToken) :
    readMembers steps (memberTokens members ++ .closeObject :: rest) = some (members, rest) := by
  induction members generalizing steps with
  | nil => exact absurd rfl hne
  | cons member members ih =>
    obtain ⟨name, item⟩ := member
    obtain ⟨steps, rfl⟩ : ∃ k, steps = k + 1 := ⟨steps - 1, by omega⟩
    have hitem : IsRead item := h _ List.mem_cons_self
    by_cases hmembers : members = []
    · subst hmembers
      rw [memberTokens] at hsteps ⊢
      rw [List.length_cons, List.length_cons] at hsteps
      rw [List.cons_append, List.cons_append, readMembers, hitem steps _ (by omega)]
    · rw [memberTokens_cons name item hmembers] at hsteps ⊢
      rw [List.length_cons, List.length_cons, List.length_append, List.length_cons] at hsteps
      have hlater : 2 * (memberTokens members).length < steps := by omega
      have hread := ih hmembers (fun member hmem => h member (List.mem_cons_of_mem _ hmem)) hlater
      rw [List.cons_append, List.cons_append, List.append_assoc, List.cons_append, readMembers,
        hitem steps _ (by omega)]
      simp only [hread, Option.map_some]

theorem IsWritten.isRead {v : JsonValue} (h : v.IsWritten) : v.IsRead := by
  induction h with
  | null | bool | ofNat | string =>
    intro steps rest hsteps
    cases steps with
    | zero => exact absurd (show 2 ≤ 0 from hsteps) (by decide)
    | succ steps => rfl
  | @array items h ih =>
    intro steps rest hsteps
    rw [tokens, List.length_append, List.length_cons, List.length_singleton] at hsteps
    obtain ⟨steps, rfl⟩ : ∃ k, steps = k + 1 := ⟨steps - 1, by omega⟩
    by_cases hne : items = []
    · subst hne
      rfl
    · have hitems : 2 * (itemTokens items).length < steps := by omega
      rw [tokens, List.append_assoc, List.cons_append, List.singleton_append,
        read_openArray (head?_itemTokens_append hne _), readItems_itemTokens hne ih hitems]
      rfl
  | @object members hnames h ih =>
    intro steps rest hsteps
    rw [tokens, List.length_append, List.length_cons, List.length_singleton] at hsteps
    obtain ⟨steps, rfl⟩ : ∃ k, steps = k + 1 := ⟨steps - 1, by omega⟩
    by_cases hne : members = []
    · subst hne
      rfl
    · have hmembers : 2 * (memberTokens members).length < steps := by omega
      rw [tokens, List.append_assoc, List.cons_append, List.singleton_append, read_openObject hne,
        readMembers_memberTokens hne ih hmembers]
      rfl

/-- The text of a value is read as this value. -/
theorem IsWritten.ofText?_text {v : JsonValue} (h : v.IsWritten) : ofText? v.text = some v := by
  have htokens := h.hasTokens [] (by rintro c ⟨⟩)
  have hread := h.isRead (2 * v.tokens.length + 1) [] (by omega)
  rw [List.append_nil] at htokens hread
  simp [ofText?, text, htokens, JsonToken.ofText?, hread]

theorem isWritten_ofFields {fields : List (String × JsonValue)} (h : ∀ field ∈ fields, IsWritten field.2) :
    (ofFields fields).IsWritten := by
  apply IsWritten.object
  · intro member hmember
    obtain ⟨field, -, rfl⟩ := List.mem_map.1 hmember
    rfl
  · intro member hmember
    obtain ⟨field, hfield, rfl⟩ := List.mem_map.1 hmember
    exact h field hfield

theorem nat?_ofNat {top n : Nat} (h : n ≤ top) : (ofNat n).nat? top = some n := Text.decimal?_toDigits h

end SecureStream.JsonValue
