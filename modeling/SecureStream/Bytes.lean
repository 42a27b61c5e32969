/-!
# Bytes

Byte strings are lists of bytes. A number is written in `width` bytes with the most significant byte first.

* `Bytes.splitExact?_eq_some_iff`: cutting off `n` bytes succeeds exactly when there are `n`, and loses none.
* `Bytes.overwrite_append`, `Bytes.overwrite_overwrite`: writing over a part of a byte string, and going on behind it.
* `Bytes.ofBigEndian_append`: a number read in two parts.
* `Bytes.ofBigEndian_bigEndian`: writing a number that fits and reading it back gives the number.
-/

namespace SecureStream

abbrev Bytes := List UInt8

namespace Bytes

/-- There are at least `n` bytes. Only these are looked at. -/
def reaches : Nat → Bytes → Bool
  | 0, _ => true
  | n + 1, bytes => !(bytes.drop n).isEmpty

theorem reaches_iff {n : Nat} {bytes : Bytes} : reaches n bytes ↔ n ≤ bytes.length := by
  cases n with
  | zero => exact iff_of_true rfl (Nat.zero_le _)
  | succ n =>
    simp only [reaches, Bool.not_eq_true', List.isEmpty_eq_false_iff, ne_eq, List.drop_eq_nil_iff]
    omega

/-- The first `n` bytes and the rest, if there are `n` bytes. -/
def splitExact? (n : Nat) (bytes : Bytes) : Option (Bytes × Bytes) :=
  if reaches n bytes then some (bytes.take n, bytes.drop n) else none

theorem splitExact?_eq_some_iff {n : Nat} {bytes front rest : Bytes} :
    splitExact? n bytes = some (front, rest) ↔ front.length = n ∧ bytes = front ++ rest := by
  simp only [splitExact?, reaches_iff]
  constructor
  · intro h
    split at h
    · next hn =>
      obtain ⟨rfl, rfl⟩ := Prod.mk.inj (Option.some.inj h)
      exact ⟨List.length_take_of_le hn, (List.take_append_drop n bytes).symm⟩
    · exact absurd h (by simp)
  · rintro ⟨rfl, rfl⟩
    simp

theorem splitExact?_eq_none_iff {n : Nat} {bytes : Bytes} :
    splitExact? n bytes = none ↔ bytes.length < n := by
  simp only [splitExact?, reaches_iff]
  split <;> simp <;> omega

/-- Cuts a byte string into pieces of the given sizes, each at least 1, and what is left into one more. -/
def cut : (sizes : List Nat) → Bytes → List Bytes
  | [], bytes => if bytes.isEmpty then [] else [bytes]
  | n :: sizes, bytes =>
    if bytes.isEmpty then [] else bytes.take (max n 1) :: cut sizes (bytes.drop (max n 1))

/-- Cuts a byte string into pieces whose sizes repeat over and over, each at least 1. Without a size there is no way to
cut anything. -/
def cutRepeating? (sizes : List Nat) (bytes : Bytes) : Option (List Bytes) :=
  let round := sizes.foldl (fun total size => total + max size 1) 0
  if sizes.isEmpty && !bytes.isEmpty then none
  else some (cut (List.replicate (bytes.length / round + 1) sizes).flatten bytes)

/-- Writes over what stands from `start` on, as far as it fits. -/
def overwrite (whole : Bytes) (start : Nat) (bytes : Bytes) : Bytes :=
  whole.take start ++ bytes.take (whole.length - start) ++ whole.drop (start + bytes.length)

@[simp] theorem length_overwrite (whole : Bytes) (start : Nat) (bytes : Bytes) :
    (whole.overwrite start bytes).length = whole.length := by
  simp only [overwrite, List.length_append, List.length_take, List.length_drop]
  omega

/-- What is written behind a front leaves the front as it is. -/
theorem overwrite_append (front rest : Bytes) (offset : Nat) (bytes : Bytes) :
    (front ++ rest).overwrite (front.length + offset) bytes = front ++ rest.overwrite offset bytes := by
  simp only [overwrite, List.length_append, Nat.add_assoc, List.take_length_add_append, List.drop_length_add_append,
    Nat.add_sub_add_left, List.append_assoc]

theorem overwrite_of_fits {whole bytes : Bytes} {start : Nat} (h : start + bytes.length ≤ whole.length) :
    whole.overwrite start bytes = whole.take start ++ bytes ++ whole.drop (start + bytes.length) := by
  have hall : bytes.take (whole.length - start) = bytes := List.take_of_length_le (by omega)
  rw [overwrite, hall]

/-- What has been written stands in front of the place where it ends. -/
theorem take_overwrite {whole bytes : Bytes} {start : Nat} (h : start + bytes.length ≤ whole.length) :
    (whole.overwrite start bytes).take (start + bytes.length) = whole.take start ++ bytes := by
  have hlength : (whole.take start ++ bytes).length = start + bytes.length := by
    rw [List.length_append, List.length_take]
    omega
  rw [overwrite_of_fits h, ← hlength, List.take_left]

/-- Writing on behind what has just been written. -/
theorem overwrite_overwrite {whole a : Bytes} {start : Nat} (h : start + a.length ≤ whole.length) (b : Bytes) :
    (whole.overwrite start a).overwrite (start + a.length) b = whole.overwrite start (a ++ b) := by
  have hlength : (whole.take start ++ a).length = start + a.length := by
    rw [List.length_append, List.length_take]
    omega
  rw [overwrite_of_fits h, ← hlength, ← Nat.add_zero (whole.take start ++ a).length, overwrite_append, hlength]
  have hall : a.take (whole.length - start) = a := List.take_of_length_le (by omega)
  simp only [overwrite, List.take_zero, List.nil_append, Nat.sub_zero, Nat.zero_add, Nat.add_zero, Nat.sub_sub, hall,
    List.length_drop, List.drop_drop, List.take_append, List.length_append, List.append_assoc, Nat.add_assoc]

/-- The number written in a byte string, most significant byte first. -/
def ofBigEndian (bytes : Bytes) : Nat := bytes.foldl (fun n b => 256 * n + b.toNat) 0

/-- The numbers written in `width` bytes are those below `bound width`. -/
def bound : (width : Nat) → Nat
  | 0 => 1
  | width + 1 => 256 * bound width

/-- The number `n`, or what is left of it when it does not fit, in `width` bytes, most significant byte first. -/
def bigEndian : (width : Nat) → (n : Nat) → Bytes
  | 0, _ => []
  | width + 1, n => UInt8.ofNat (n / bound width) :: bigEndian width n

@[simp] theorem length_bigEndian (width n : Nat) : (bigEndian width n).length = width := by
  induction width with
  | zero => rfl
  | succ width ih => simp [bigEndian, ih]

private theorem foldl_bigEndian (bytes : Bytes) (n : Nat) :
    bytes.foldl (fun n b => 256 * n + b.toNat) n = n * bound bytes.length + ofBigEndian bytes := by
  induction bytes generalizing n with
  | nil => simp [ofBigEndian, bound]
  | cons b bytes ih =>
    simp only [ofBigEndian, List.foldl_cons, List.length_cons, bound]
    rw [ih, ih (256 * 0 + b.toNat)]
    grind

theorem ofBigEndian_append (a b : Bytes) :
    ofBigEndian (a ++ b) = ofBigEndian a * bound b.length + ofBigEndian b := by
  rw [ofBigEndian, List.foldl_append, foldl_bigEndian]
  rfl

theorem ofBigEndian_cons (b : UInt8) (bytes : Bytes) :
    ofBigEndian (b :: bytes) = b.toNat * bound bytes.length + ofBigEndian bytes := by
  rw [ofBigEndian, List.foldl_cons, foldl_bigEndian]
  simp

theorem ofBigEndian_lt (bytes : Bytes) : ofBigEndian bytes < bound bytes.length := by
  induction bytes with
  | nil => simp [ofBigEndian, bound]
  | cons b bytes ih =>
    rw [ofBigEndian_cons, List.length_cons, bound]
    have hb : b.toNat + 1 ≤ 256 := b.toNat_lt
    calc b.toNat * bound bytes.length + ofBigEndian bytes
        < (b.toNat + 1) * bound bytes.length := by rw [Nat.add_mul]; omega
      _ ≤ 256 * bound bytes.length := Nat.mul_le_mul_right _ hb

theorem bound_le {m n : Nat} (h : m ≤ n) : bound m ≤ bound n := by
  induction h with
  | refl => exact Nat.le_refl _
  | step _ ih => exact Nat.le_trans ih (Nat.le_mul_of_pos_left _ (by decide))

theorem ofBigEndian_bigEndian_mod (width n : Nat) : ofBigEndian (bigEndian width n) = n % bound width := by
  induction width with
  | zero => simp [bigEndian, ofBigEndian, bound, Nat.mod_one]
  | succ width ih =>
    have byte : (UInt8.ofNat (n / bound width)).toNat = n / bound width % 256 := by simp
    rw [bigEndian, ofBigEndian_cons, length_bigEndian, ih, byte, bound, Nat.mul_comm 256, Nat.mod_mul, Nat.mul_comm,
      Nat.add_comm]

theorem ofBigEndian_bigEndian {width n : Nat} (h : n < bound width) : ofBigEndian (bigEndian width n) = n := by
  rw [ofBigEndian_bigEndian_mod, Nat.mod_eq_of_lt h]

end Bytes

end SecureStream
