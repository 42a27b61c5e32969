/-!
# Sizes

A size is a natural number that fits 64 bits. Sums and products of sizes stop at the largest size instead of
wrapping around, and one block of memory has at most `Size.maxBlock` bytes.

* `Size.add_eq`, `Size.mul_eq`: below the largest size, the sum and the product are the usual ones.
-/

namespace SecureStream.Size

/-- The largest size, `2 ^ 64 - 1`. -/
def top : Nat := 18446744073709551615

/-- The largest block of memory, `2 ^ 63 - 1` bytes. -/
def maxBlock : Nat := 9223372036854775807

/-- The sum of two sizes, at most `top`. -/
def add (a b : Nat) : Nat := min (a + b) top

/-- The product of two sizes, at most `top`. -/
def mul (a b : Nat) : Nat := min (a * b) top

theorem add_eq {a b : Nat} (h : a + b ≤ top) : add a b = a + b := Nat.min_eq_left h

theorem mul_eq {a b : Nat} (h : a * b ≤ top) : mul a b = a * b := Nat.min_eq_left h

end SecureStream.Size
