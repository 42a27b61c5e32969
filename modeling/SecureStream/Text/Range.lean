/-!
# Sets of characters

A set of characters is written as a list of ranges, each as its first and its last character.
-/

namespace SecureStream.Text

/-- A character of one of the ranges. -/
def isInRanges (ranges : List (Nat × Nat)) (c : Char) : Bool :=
  ranges.any fun (first, last) => first ≤ c.toNat && c.toNat ≤ last

theorem isInRanges_iff {ranges : List (Nat × Nat)} {c : Char} :
    isInRanges ranges c ↔ ∃ r ∈ ranges, r.1 ≤ c.toNat ∧ c.toNat ≤ r.2 := by
  simp [isInRanges]

theorem isInRanges_of_mem {ranges : List (Nat × Nat)} {c : Char} {first last : Nat} (h : (first, last) ∈ ranges)
    (hfirst : first ≤ c.toNat) (hlast : c.toNat ≤ last) : isInRanges ranges c :=
  isInRanges_iff.2 ⟨_, h, hfirst, hlast⟩

end SecureStream.Text
