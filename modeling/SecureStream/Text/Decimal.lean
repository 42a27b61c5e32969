/-!
# Decimal numbers

A decimal number is written by the digits `0` to `9`, at least one of them. Zeros in front do not count. Reading one
stops as soon as it is above the largest number that is wanted.

* `decimal?_eq_some_iff`: the numbers that are read are those written by digits, up to the largest.
-/

namespace SecureStream.Text

/-- The number written by digits that write `n` and by one more digit behind them. -/
def withDigit (n : Nat) (digit : Char) : Nat := 10 * n + (digit.toNat - '0'.toNat)

/-- The number written by decimal digits. -/
def ofDigits (digits : List Char) : Nat := digits.foldl withDigit 0

/-- Reads on in a number that is not above `top`. -/
def digitsFrom? (top : Nat) (n : Nat) : List Char → Option Nat
  | [] => some n
  | c :: text => if c.isDigit && withDigit n c ≤ top then digitsFrom? top (withDigit n c) text else none

/-- The number written in a text of decimal digits, if it is not above `top`. -/
def decimal? (top : Nat) (text : List Char) : Option Nat :=
  if text.isEmpty then none else digitsFrom? top 0 text

private theorem le_foldl_withDigit (n : Nat) (digits : List Char) : n ≤ digits.foldl withDigit n := by
  induction digits generalizing n with
  | nil => exact Nat.le_refl n
  | cons c digits ih => exact Nat.le_trans (by simp only [withDigit]; omega) (ih (withDigit n c))

private theorem digitsFrom?_eq_some_iff {top n m : Nat} {text : List Char} (h : n ≤ top) :
    digitsFrom? top n text = some m ↔ text.all Char.isDigit ∧ text.foldl withDigit n = m ∧ m ≤ top := by
  induction text generalizing n with
  | nil => exact ⟨fun hm => by cases hm; exact ⟨rfl, rfl, h⟩, fun ⟨_, hm, _⟩ => congrArg some hm⟩
  | cons c text ih =>
    have hle := le_foldl_withDigit (withDigit n c) text
    simp only [digitsFrom?, Bool.and_eq_true, decide_eq_true_eq, List.all_cons, List.foldl_cons]
    split
    · next hc => rw [ih hc.2]; simp [hc.1]
    · next hc =>
      refine iff_of_false (by simp) ?_
      rintro ⟨hdigits, rfl, hm⟩
      exact hc ⟨hdigits.1, Nat.le_trans hle hm⟩

theorem decimal?_eq_some_iff {top n : Nat} {text : List Char} :
    decimal? top text = some n ↔ text ≠ [] ∧ text.all Char.isDigit ∧ ofDigits text = n ∧ n ≤ top := by
  unfold decimal?
  cases text with
  | nil => simp
  | cons c text =>
    rw [if_neg (by simp), digitsFrom?_eq_some_iff (Nat.zero_le top)]
    exact ⟨fun h => ⟨by simp, h⟩, fun h => h.2⟩

end SecureStream.Text
