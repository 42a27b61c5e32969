import SecureStream.Text.Extending
import SecureStream.Text.Printable

/-!
# Text in quotes

Text stands in quotes so that all of it can be seen. A quote and a backslash follow a backslash, and so do the letters
that stand for a line feed, a carriage return, a tabulator and the character zero. Any other character that is not
printable, or belongs to the one before it, is written as its number. All others stand for themselves.

* `quotedChar_eq_self_iff`: which characters stand for themselves.
-/

namespace SecureStream.Text

/-- The number of a character, in hexadecimal digits between braces. -/
def numbered (c : Char) : List Char := '\\' :: 'u' :: '{' :: Nat.toDigits 16 c.toNat ++ ['}']

/-- A character is seen as it is. -/
def isPlain (c : Char) : Bool := isPrintable c && !isExtending c

/-- A character inside quotes. -/
def quotedChar : Char → List Char
  | '"' => ['\\', '"']
  | '\\' => ['\\', '\\']
  | '\n' => ['\\', 'n']
  | '\r' => ['\\', 'r']
  | '\t' => ['\\', 't']
  | '\x00' => ['\\', '0']
  | c => if isPlain c then [c] else numbered c

/-- A text in quotes. -/
def quoted (text : String) : String := String.ofList ('"' :: text.toList.flatMap quotedChar ++ ['"'])

theorem quotedChar_eq_self_iff {c : Char} : quotedChar c = [c] ↔ isPlain c ∧ c ≠ '"' ∧ c ≠ '\\' := by
  unfold quotedChar
  split
  · simp
  · simp
  · exact iff_of_false (by simp) (by decide +kernel)
  · exact iff_of_false (by simp) (by decide +kernel)
  · exact iff_of_false (by simp) (by decide +kernel)
  · exact iff_of_false (by simp) (by decide +kernel)
  · rename_i hquote hbackslash _ _ _ _
    by_cases h : isPlain c
    · simpa [h] using ⟨hquote, hbackslash⟩
    · simp [h, numbered]

end SecureStream.Text
