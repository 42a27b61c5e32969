/-!
# Tokens of JSON texts

A JSON text is a sequence of tokens with blanks between them. Two values never stand side by side in a JSON text, so
it does not matter that a token may directly follow another one.

* `JsonToken.length_first?`: no token is empty, which is why reading the tokens of a text ends.
-/

namespace SecureStream

/-- A token of a JSON text. -/
inductive JsonToken where
  | openObject
  | closeObject
  | openArray
  | closeArray
  | colon
  | comma
  | null
  | bool (b : Bool)
  /-- A number as it is written. -/
  | number (literal : List Char)
  /-- A string, or nothing if its escapes make no characters. -/
  | string (s : Option String)
  deriving DecidableEq, Repr

namespace JsonToken

/-- The blanks between tokens. -/
def isSpace (c : Char) : Bool := c == ' ' || c == '\t' || c == '\n' || c == '\r'

/-- What a string is made of: characters, and 16-bit units given by number. -/
inductive Piece where
  | char (c : Char)
  | unit (n : Nat)
  deriving DecidableEq, Repr

def hexDigit? (c : Char) : Option Nat :=
  if '0' ≤ c ∧ c ≤ '9' then some (c.toNat - '0'.toNat)
  else if 'a' ≤ c ∧ c ≤ 'f' then some (c.toNat - 'a'.toNat + 10)
  else if 'A' ≤ c ∧ c ≤ 'F' then some (c.toNat - 'A'.toNat + 10)
  else none

/-- The number written by four hexadecimal digits. -/
def hexUnit? (a b c d : Char) : Option Nat := do
  return (((← hexDigit? a) * 16 + (← hexDigit? b)) * 16 + (← hexDigit? c)) * 16 + (← hexDigit? d)

/-- The character that a letter stands for behind a backslash. -/
def escaped? : Char → Option Char
  | '"' => some '"'
  | '\\' => some '\\'
  | '/' => some '/'
  | 'b' => some '\x08'
  | 'f' => some '\x0c'
  | 'n' => some '\n'
  | 'r' => some '\r'
  | 't' => some '\t'
  | _ => none

/-- The pieces of a string up to its closing quote, and what follows it. -/
def pieces? : List Char → Option (List Piece × List Char)
  | '"' :: rest => some ([], rest)
  | '\\' :: 'u' :: a :: b :: c :: d :: rest => do
    let n ← hexUnit? a b c d
    let (pieces, rest) ← pieces? rest
    return (.unit n :: pieces, rest)
  | '\\' :: e :: rest => do
    let c ← escaped? e
    let (pieces, rest) ← pieces? rest
    return (.char c :: pieces, rest)
  | c :: rest =>
    if c.toNat < 0x20 ∨ c = '\\' then none
    else do
      let (pieces, rest) ← pieces? rest
      return (.char c :: pieces, rest)
  | [] => none

/-- The characters that pieces make. A unit from the upper surrogates must be followed by one from the lower. -/
def join? : List Piece → Option (List Char)
  | [] => some []
  | .char c :: rest => (join? rest).map (c :: ·)
  | .unit n :: .unit m :: rest =>
    if 0xd800 ≤ n ∧ n < 0xdc00 then
      if 0xdc00 ≤ m ∧ m < 0xe000 then
        (join? rest).map (Char.ofNat (0x10000 + (n - 0xd800) * 0x400 + (m - 0xdc00)) :: ·)
      else none
    else if 0xdc00 ≤ n ∧ n < 0xe000 then none
    else (join? (.unit m :: rest)).map (Char.ofNat n :: ·)
  | .unit n :: rest => if 0xd800 ≤ n ∧ n < 0xe000 then none else (join? rest).map (Char.ofNat n :: ·)

/-- The digits at the front, if there are any, and what follows them. -/
def digits? (text : List Char) : Option (List Char × List Char) :=
  let digits := text.takeWhile Char.isDigit
  if digits.isEmpty then none else some (digits, text.dropWhile Char.isDigit)

/-- The whole part of a number: a zero, or digits that do not start with one. -/
def whole? : List Char → Option (List Char × List Char)
  | '0' :: rest => some (['0'], rest)
  | text => digits? text

/-- The fraction of a number, which may be missing. -/
def fraction? : List Char → Option (List Char × List Char)
  | '.' :: rest => (digits? rest).map fun (digits, rest) => ('.' :: digits, rest)
  | text => some ([], text)

/-- The exponent of a number, which may be missing. -/
def exponent? : List Char → Option (List Char × List Char)
  | e :: rest =>
    if e = 'e' ∨ e = 'E' then
      match rest with
      | s :: after =>
        if s = '+' ∨ s = '-' then (digits? after).map fun (digits, rest) => (e :: s :: digits, rest)
        else (digits? rest).map fun (digits, rest) => (e :: digits, rest)
      | [] => none
    else some ([], e :: rest)
  | [] => some ([], [])

/-- The number at the front, after its sign, and what follows it. -/
def unsigned? (text : List Char) : Option (List Char × List Char) := do
  let (whole, rest) ← whole? text
  let (fraction, rest) ← fraction? rest
  let (exponent, rest) ← exponent? rest
  return (whole ++ fraction ++ exponent, rest)

/-- What follows a word that stands at the front. -/
def word? : (word text : List Char) → Option (List Char)
  | [], text => some text
  | c :: word, d :: text => if c = d then word? word text else none
  | _ :: _, [] => none

/-- The token that starts with a character, and what follows it. -/
def first? (c : Char) (rest : List Char) : Option (JsonToken × List Char) :=
  match c with
  | '\x7b' => some (.openObject, rest)
  | '\x7d' => some (.closeObject, rest)
  | '[' => some (.openArray, rest)
  | ']' => some (.closeArray, rest)
  | ':' => some (.colon, rest)
  | ',' => some (.comma, rest)
  | '"' => (pieces? rest).map fun (pieces, rest) => (.string ((join? pieces).map String.ofList), rest)
  | 'n' => (word? ['u', 'l', 'l'] rest).map fun rest => (.null, rest)
  | 't' => (word? ['r', 'u', 'e'] rest).map fun rest => (.bool true, rest)
  | 'f' => (word? ['a', 'l', 's', 'e'] rest).map fun rest => (.bool false, rest)
  | '-' => (unsigned? rest).map fun (literal, rest) => (.number ('-' :: literal), rest)
  | _ => (unsigned? (c :: rest)).map fun (literal, rest) => (.number literal, rest)

private theorem length_pieces? {text rest : List Char} {pieces : List Piece} (h : pieces? text = some (pieces, rest)) :
    rest.length < text.length := by
  fun_induction pieces? text generalizing pieces with
  | case1 => simp_all
  | case2 a b c d text ih =>
    simp only [Option.bind_eq_bind, Option.bind_eq_some_iff] at h
    obtain ⟨_, -, ⟨_, _⟩, hrest, h⟩ := h
    cases h
    exact Nat.lt_trans (ih hrest) (by simp only [List.length_cons]; omega)
  | case3 e text _ ih =>
    simp only [Option.bind_eq_bind, Option.bind_eq_some_iff] at h
    obtain ⟨_, -, ⟨_, _⟩, hrest, h⟩ := h
    cases h
    exact Nat.lt_trans (ih hrest) (by simp only [List.length_cons]; omega)
  | case4 => cases h
  | case5 c text _ _ _ _ ih =>
    simp only [Option.bind_eq_bind, Option.bind_eq_some_iff] at h
    obtain ⟨⟨_, _⟩, hrest, h⟩ := h
    cases h
    exact Nat.lt_trans (ih hrest) (by simp)
  | case6 => cases h

private theorem length_digits? {text digits rest : List Char} (h : digits? text = some (digits, rest)) :
    rest.length < text.length := by
  unfold digits? at h
  dsimp only at h
  split at h
  · cases h
  · next hdigits =>
    cases h
    have hparts : text.takeWhile Char.isDigit ++ text.dropWhile Char.isDigit = text :=
      List.takeWhile_append_dropWhile
    have := congrArg List.length hparts
    have : 0 < (text.takeWhile Char.isDigit).length := List.length_pos_iff.mpr (by simpa using hdigits)
    simp only [List.length_append] at *
    omega

private theorem length_whole? {text digits rest : List Char} (h : whole? text = some (digits, rest)) :
    rest.length < text.length := by
  unfold whole? at h
  split at h
  · cases h
    exact Nat.lt_succ_self _
  · exact length_digits? h

private theorem length_fraction? {text digits rest : List Char} (h : fraction? text = some (digits, rest)) :
    rest.length ≤ text.length := by
  unfold fraction? at h
  split at h
  · obtain ⟨_, hdigits, heq⟩ := Option.map_eq_some_iff.mp h
    cases heq
    exact Nat.le_succ_of_le (Nat.le_of_lt (length_digits? hdigits))
  · cases h
    exact Nat.le_refl _

private theorem length_exponent? {text digits rest : List Char} (h : exponent? text = some (digits, rest)) :
    rest.length ≤ text.length := by
  unfold exponent? at h
  split at h
  · split at h
    · split at h
      · split at h
        · obtain ⟨_, hdigits, heq⟩ := Option.map_eq_some_iff.mp h
          cases heq
          exact Nat.le_succ_of_le (Nat.le_succ_of_le (Nat.le_of_lt (length_digits? hdigits)))
        · obtain ⟨_, hdigits, heq⟩ := Option.map_eq_some_iff.mp h
          cases heq
          exact Nat.le_succ_of_le (Nat.le_of_lt (length_digits? hdigits))
      · cases h
    · cases h
      exact Nat.le_refl _
  · cases h
    exact Nat.le_refl _

private theorem length_unsigned? {text literal rest : List Char} (h : unsigned? text = some (literal, rest)) :
    rest.length < text.length := by
  simp only [unsigned?, Option.bind_eq_bind, Option.bind_eq_some_iff] at h
  obtain ⟨⟨_, _⟩, hwhole, ⟨_, _⟩, hfraction, ⟨_, _⟩, hexponent, heq⟩ := h
  cases heq
  have h₁ := length_whole? hwhole
  have h₂ := length_fraction? hfraction
  have h₃ := length_exponent? hexponent
  dsimp only at *
  omega

private theorem length_word? {word text rest : List Char} (h : word? word text = some rest) :
    rest.length ≤ text.length := by
  induction word generalizing text with
  | nil => simp_all [word?]
  | cons c word ih =>
    cases text with
    | nil => cases h
    | cons d text =>
      simp only [word?] at h
      split at h
      · exact Nat.le_succ_of_le (ih h)
      · cases h

theorem length_first? {c : Char} {text rest : List Char} {token : JsonToken}
    (h : first? c text = some (token, rest)) : rest.length ≤ text.length := by
  unfold first? at h
  split at h
  all_goals first | (cases h; exact Nat.le_refl _) | (obtain ⟨_, hpart, heq⟩ := Option.map_eq_some_iff.mp h; cases heq)
  · exact Nat.le_of_lt (length_pieces? hpart)
  · exact length_word? hpart
  · exact length_word? hpart
  · exact length_word? hpart
  · exact Nat.le_of_lt (length_unsigned? hpart)
  · exact Nat.le_of_lt_succ (length_unsigned? hpart)

/-- The tokens of a text. -/
def ofText? : List Char → Option (List JsonToken)
  | [] => some []
  | c :: text =>
    if isSpace c then ofText? text
    else
      match _ : first? c text with
      | some (token, rest) => (ofText? rest).map (token :: ·)
      | none => none
termination_by text => text.length
decreasing_by
  · exact Nat.lt_succ_self _
  · exact Nat.lt_succ_of_le (length_first? ‹_›)

end JsonToken

end SecureStream
