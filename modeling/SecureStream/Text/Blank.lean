import SecureStream.Text.Range

/-!
# Blank characters

The 25 characters with the Unicode property `White_Space`, and texts without blank ends.

* `isBlank_of_isWhitespace`: the blank characters of ASCII are among them.
* `trim_eq_self`: trimming changes nothing in a text whose ends are not blank.
-/

namespace SecureStream.Text

/-- The first and the last character of each range of blank characters. -/
def blankRanges : List (Nat × Nat) :=
  [(0x9, 0xd), (0x20, 0x20), (0x85, 0x85), (0xa0, 0xa0), (0x1680, 0x1680), (0x2000, 0x200a), (0x2028, 0x2029),
    (0x202f, 0x202f), (0x205f, 0x205f), (0x3000, 0x3000)]

/-- A character with the property `White_Space`. -/
def isBlank (c : Char) : Bool := isInRanges blankRanges c

/-- A text without the blank characters at its two ends. -/
def trim (text : List Char) : List Char :=
  ((text.dropWhile isBlank).reverse.dropWhile isBlank).reverse

theorem isBlank_of_isWhitespace {c : Char} (h : c.isWhitespace) : isBlank c := by
  simp only [Char.isWhitespace, Bool.or_eq_true, decide_eq_true_eq] at h
  rcases h with ((rfl | rfl) | rfl) | rfl <;> decide

@[simp] theorem trim_nil : trim [] = [] := rfl

theorem trim_eq_self {text : List Char} (hfirst : ∀ c ∈ text.head?, ¬ isBlank c)
    (hlast : ∀ c ∈ text.getLast?, ¬ isBlank c) : trim text = text := by
  have keep : ∀ l : List Char, (∀ c ∈ l.head?, ¬ isBlank c) → l.dropWhile isBlank = l := by
    intro l h
    cases l with
    | nil => rfl
    | cons c l => simp [List.dropWhile, h c (by simp)]
  rw [trim, keep text hfirst, keep _ (by simpa using hlast), List.reverse_reverse]

end SecureStream.Text
