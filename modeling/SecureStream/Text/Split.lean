/-!
# Cutting a text

* `split_append_cons`: cutting at a separator cuts the two sides on their own.
* `rest?_eq_some_iff`: what follows a start.
-/

namespace SecureStream.Text

/-- The parts of a text between the occurrences of a character; a text without any is a single part. -/
def split (separator : Char) : List Char → List (List Char)
  | [] => [[]]
  | c :: text =>
    if c = separator then [] :: split separator text
    else
      match split separator text with
      | [] => [[c]]
      | part :: parts => (c :: part) :: parts

theorem split_ne_nil (separator : Char) (text : List Char) : split separator text ≠ [] := by
  cases text with
  | nil => simp [split]
  | cons c text =>
    simp only [split]
    split
    · simp
    · split <;> simp

theorem split_append_cons (separator : Char) (s t : List Char) :
    split separator (s ++ separator :: t) = split separator s ++ split separator t := by
  induction s with
  | nil => simp [split]
  | cons c s ih =>
    simp only [List.cons_append, split, ih]
    split
    · rfl
    · cases h : split separator s with
      | nil => exact absurd h (split_ne_nil _ _)
      | cons part parts => rfl

/-- What follows `start` in a text that starts with it. -/
def rest? : (start text : List Char) → Option (List Char)
  | [], text => some text
  | c :: start, d :: text => if c = d then rest? start text else none
  | _ :: _, [] => none

theorem rest?_eq_some_iff {start text rest : List Char} : rest? start text = some rest ↔ text = start ++ rest := by
  induction start generalizing text with
  | nil => simp [rest?]
  | cons c start ih =>
    cases text with
    | nil => simp [rest?]
    | cons d text =>
      simp only [rest?, List.cons_append, List.cons.injEq]
      split
      · next h => simp [ih, h]
      · next h => simp [Ne.symm h]

end SecureStream.Text
