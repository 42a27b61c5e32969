import Mathlib.Data.List.Basic
import SecureStream.Json.Value

/-!
# Tokens that are read back

What is written for a number, a string or a sign is read as this one token, whatever stands behind it.  Only behind a
number there must be something that does not go on with it (`JsonToken.EndsNumber`).

* (a) The digits of a number have its value (`Text.decimal?_toDigits`) and start with a zero for the number zero only
  (`Text.head?_toDigits`), so that they are read to their end (`JsonToken.ofText?_toDigits`).
* (b) Each character of a string is read from what is written for it (`JsonToken.pieces?_quotedChar`), and none of
  them belongs to the surrogates (`JsonToken.join?_pieceOf`), so that the string is read back
  (`JsonToken.ofText?_quoted`).
-/

namespace SecureStream

/-! ### Digits of a number -/

namespace Text

theorem all_isDigit_toDigits (n : Nat) : (Nat.toDigits 10 n).all Char.isDigit = true := by
  rw [List.all_eq_true]
  exact fun c hc => Nat.isDigit_of_mem_toDigits (by decide) (by decide) hc

theorem ofDigits_toDigits (n : Nat) : ofDigits (Nat.toDigits 10 n) = n := by
  have h : Nat.ofDigitChars 10 (Nat.toDigits 10 n) 0 = n := Nat.ofDigitChars_ten_toDigits
  rwa [Nat.ofDigitChars_eq_foldl] at h

theorem decimal?_toDigits {top n : Nat} (h : n ≤ top) : decimal? top (Nat.toDigits 10 n) = some n :=
  decimal?_eq_some_iff.2 ⟨Nat.toDigits_ne_nil, all_isDigit_toDigits n, ofDigits_toDigits n, h⟩

/-- Only zero is written with a zero in front. -/
theorem head?_toDigits {n : Nat} (h : 0 < n) : (Nat.toDigits 10 n).head? ≠ some '0' := by
  induction n using Nat.strongRecOn with
  | ind n ih =>
    by_cases hn : n < 10
    · rw [Nat.toDigits_of_lt_base hn]
      have hdigit : ∀ n < 10, 0 < n → n.digitChar ≠ '0' := by decide
      simpa using hdigit n hn h
    · rw [Nat.toDigits_of_base_le (by decide) (by omega), List.head?_append_of_ne_nil _ Nat.toDigits_ne_nil]
      exact ih (n / 10) (by omega) (by omega)

end Text

namespace JsonToken

/-! ### Numbers -/

/-- A text that does not go on with a number in front of it. -/
def EndsNumber (rest : List Char) : Prop :=
  ∀ c ∈ rest.head?, c.isDigit = false ∧ c ≠ '.' ∧ c ≠ 'e' ∧ c ≠ 'E'

variable {text rest digits : List Char} {c : Char}

theorem digits?_append (hne : digits ≠ []) (hdigits : digits.all Char.isDigit = true) (hrest : EndsNumber rest) :
    digits? (digits ++ rest) = some (digits, rest) := by
  have hall : ∀ c ∈ digits, c.isDigit = true := List.all_eq_true.1 hdigits
  have hstop : rest.takeWhile Char.isDigit = [] ∧ rest.dropWhile Char.isDigit = rest := by
    cases rest with
    | nil => simp
    | cons c rest =>
      have hc : c.isDigit = false := (hrest c rfl).1
      simp [hc]
  unfold digits?
  rw [List.takeWhile_append_of_pos hall, List.dropWhile_append_of_pos hall, hstop.1, hstop.2]
  simp [hne]

theorem fraction?_of_endsNumber (h : EndsNumber rest) : fraction? rest = some ([], rest) := by
  unfold fraction?
  split
  · exact absurd rfl (h '.' rfl).2.1
  · rfl

theorem exponent?_of_endsNumber (h : EndsNumber rest) : exponent? rest = some ([], rest) := by
  unfold exponent?
  split
  · next e rest =>
    obtain ⟨-, -, he, hE⟩ := h e rfl
    rw [if_neg (by simp [he, hE])]
  · rfl

theorem whole?_toDigits (n : Nat) (h : EndsNumber rest) :
    whole? (Nat.toDigits 10 n ++ rest) = some (Nat.toDigits 10 n, rest) := by
  rcases Nat.eq_zero_or_pos n with rfl | hn
  · rfl
  · unfold whole?
    split
    · next after heq =>
      have hhead := congrArg List.head? heq
      rw [List.head?_append_of_ne_nil _ Nat.toDigits_ne_nil] at hhead
      exact absurd hhead (Text.head?_toDigits hn)
    · exact digits?_append Nat.toDigits_ne_nil (Text.all_isDigit_toDigits n) h

theorem unsigned?_toDigits (n : Nat) (h : EndsNumber rest) :
    unsigned? (Nat.toDigits 10 n ++ rest) = some (Nat.toDigits 10 n, rest) := by
  unfold unsigned?
  rw [whole?_toDigits n h]
  simp [fraction?_of_endsNumber h, exponent?_of_endsNumber h]

theorem first?_of_isDigit (h : c.isDigit = true) :
    first? c text = (unsigned? (c :: text)).map fun (literal, rest) => (.number literal, rest) := by
  unfold first?
  split
  all_goals first | rfl | exact absurd h (by decide)

theorem not_isSpace_of_isDigit (h : c.isDigit = true) : isSpace c = false := by
  rw [Bool.eq_false_iff]
  intro hspace
  simp only [isSpace, Bool.or_eq_true, beq_iff_eq] at hspace
  rcases hspace with ((rfl | rfl) | rfl) | rfl
  all_goals exact absurd h (by decide)

/-! ### The first token of a text -/

theorem ofText?_cons {token : JsonToken} (hspace : isSpace c = false) (h : first? c text = some (token, rest)) :
    ofText? (c :: text) = (ofText? rest).map (token :: ·) := by
  rw [ofText?, hspace]
  split
  · contradiction
  · split
    · next heq =>
      rw [h] at heq
      cases heq
      rfl
    · next heq => simp [h] at heq

/-- The digits of a number are one token. -/
theorem ofText?_toDigits (n : Nat) (h : EndsNumber rest) :
    ofText? (Nat.toDigits 10 n ++ rest) = (ofText? rest).map (.number (Nat.toDigits 10 n) :: ·) := by
  have hunsigned := unsigned?_toDigits n h
  have hall := List.all_eq_true.1 (Text.all_isDigit_toDigits n)
  cases hdigits : Nat.toDigits 10 n with
  | nil => exact absurd hdigits Nat.toDigits_ne_nil
  | cons c digits =>
    have hc : c.isDigit = true := hall c (by simp [hdigits])
    rw [hdigits, List.cons_append] at hunsigned
    rw [List.cons_append]
    apply ofText?_cons (not_isSpace_of_isDigit hc)
    rw [first?_of_isDigit hc, hunsigned]
    rfl

/-! ### Strings -/

/-- The piece of a string that is read from what is written for a character. -/
def pieceOf (c : Char) : Piece :=
  if c.toNat < 0x20 ∧ c ∉ ['\x08', '\x0c', '\n', '\r', '\t'] then .unit c.toNat else .char c

theorem pieces?_unit {a b c d : Char} {n : Nat} (h : hexUnit? a b c d = some n) (rest : List Char) :
    pieces? ('\\' :: 'u' :: a :: b :: c :: d :: rest) =
      (pieces? rest).map fun (pieces, rest) => (.unit n :: pieces, rest) := by
  rw [pieces?, h]
  cases pieces? rest <;> rfl

theorem pieces?_escaped {e c : Char} (h : escaped? e = some c) (rest : List Char) :
    pieces? ('\\' :: e :: rest) = (pieces? rest).map fun (pieces, rest) => (.char c :: pieces, rest) := by
  have he : e ≠ 'u' := by
    rintro rfl
    cases h
  rw [pieces?, h]
  · cases pieces? rest <;> rfl
  · exact fun _ _ _ _ _ heq => absurd heq he

theorem pieces?_char {c : Char} (hquote : c ≠ '"') (hslash : c ≠ '\\') (h : ¬ c.toNat < 0x20) (rest : List Char) :
    pieces? (c :: rest) = (pieces? rest).map fun (pieces, rest) => (.char c :: pieces, rest) := by
  rw [pieces?]
  · rw [if_neg (by simp [h, hslash])]
    cases pieces? rest <;> rfl
  · exact hquote
  · exact fun _ _ _ _ _ heq => absurd heq hslash
  · exact fun _ _ heq => absurd heq hslash

theorem hexDigit?_digitChar {n : Nat} (h : n < 16) : hexDigit? n.digitChar = some n := by
  have hall : ∀ n < 16, hexDigit? n.digitChar = some n := by decide
  exact hall n h

theorem hexUnit?_of_lt {n : Nat} (h : n < 0x10) : hexUnit? '0' '0' '0' n.digitChar = some n := by
  have hzero : hexDigit? '0' = some 0 := by decide
  simp [hexUnit?, hzero, hexDigit?_digitChar h]

theorem hexUnit?_of_le {n : Nat} (hle : 0x10 ≤ n) (h : n < 0x20) :
    hexUnit? '0' '0' '1' (n - 0x10).digitChar = some n := by
  have hzero : hexDigit? '0' = some 0 := by decide
  have hone : hexDigit? '1' = some 1 := by decide
  have hdigit : hexDigit? (n - 0x10).digitChar = some (n - 0x10) := hexDigit?_digitChar (by omega)
  simp only [hexUnit?, hzero, hone, hdigit, Option.bind_eq_bind, Option.bind_some, Option.pure_def,
    Option.some.injEq]
  omega

theorem pieces?_quotedChar (c : Char) (rest : List Char) :
    pieces? (JsonValue.quotedChar c ++ rest) =
      (pieces? rest).map fun (pieces, rest) => (pieceOf c :: pieces, rest) := by
  unfold JsonValue.quotedChar
  split
  · exact pieces?_escaped rfl rest
  · exact pieces?_escaped rfl rest
  · exact pieces?_escaped rfl rest
  · exact pieces?_escaped rfl rest
  · exact pieces?_escaped rfl rest
  · exact pieces?_escaped rfl rest
  · exact pieces?_escaped rfl rest
  · next hquote hslash h₁ h₂ h₃ h₄ h₅ =>
    have hplain : c ∉ ['\x08', '\x0c', '\n', '\r', '\t'] := by
      simp only [List.mem_cons, List.not_mem_nil, or_false, not_or]
      exact ⟨h₁, h₂, h₃, h₄, h₅⟩
    by_cases hlow : c.toNat < 0x10
    · rw [if_pos hlow, pieceOf, if_pos ⟨by omega, hplain⟩]
      exact pieces?_unit (hexUnit?_of_lt hlow) rest
    · by_cases hcontrol : c.toNat < 0x20
      · rw [if_neg hlow, if_pos hcontrol, pieceOf, if_pos ⟨hcontrol, hplain⟩]
        exact pieces?_unit (hexUnit?_of_le (by omega) hcontrol) rest
      · rw [if_neg hlow, if_neg hcontrol, pieceOf, if_neg fun h => hcontrol h.1]
        exact pieces?_char hquote hslash hcontrol rest

theorem join?_unit {n : Nat} (h : n < 0xd800) (pieces : List Piece) :
    join? (.unit n :: pieces) = (join? pieces).map (Char.ofNat n :: ·) := by
  have hhigh : ¬ (0xd800 ≤ n ∧ n < 0xdc00) := by omega
  have hlow : ¬ (0xdc00 ≤ n ∧ n < 0xe000) := by omega
  have hnone : ¬ (0xd800 ≤ n ∧ n < 0xe000) := by omega
  rcases pieces with _ | ⟨c | m, pieces⟩
  · simp only [join?, if_neg hnone]
  · simp only [join?, if_neg hnone]
  · rw [join?, if_neg hhigh, if_neg hlow]

theorem join?_pieceOf (text : List Char) : join? (text.map pieceOf) = some text := by
  induction text with
  | nil => rfl
  | cons c text ih =>
    rw [List.map_cons, pieceOf]
    split
    · next h =>
      have hlt : c.toNat < 0xd800 := by omega
      rw [join?_unit hlt, ih, Char.ofNat_toNat]
      rfl
    · rw [join?, ih]
      rfl

theorem pieces?_quoted (text rest : List Char) :
    pieces? (text.flatMap JsonValue.quotedChar ++ '"' :: rest) = some (text.map pieceOf, rest) := by
  induction text with
  | nil => rfl
  | cons c text ih =>
    rw [List.flatMap_cons, List.append_assoc, pieces?_quotedChar, ih]
    rfl

/-- What is written for a string is one token. -/
theorem ofText?_quoted (s : String) (rest : List Char) :
    ofText? (JsonValue.quoted (some s) ++ rest) = (ofText? rest).map (.string (some s) :: ·) := by
  have hpieces := pieces?_quoted s.toList rest
  simp only [JsonValue.quoted, Option.getD_some, List.cons_append, List.append_assoc, List.nil_append]
  apply ofText?_cons (by decide)
  rw [first?, hpieces]
  simp [join?_pieceOf]

end JsonToken

end SecureStream
