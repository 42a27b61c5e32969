import SecureStream.Bytes

/-!
# Reading a block piece by piece

A `BlockReader size` is a byte array decoder: it reads a block of `size` bytes from pieces of a stream. It takes bytes
from the front of each piece until the block is full, and none after that. One storage serves for one block after the
other: a reset puts the mark back to the beginning and erases nothing, so behind the mark there may stand bytes of an
earlier block.

* `BlockReader.feed_fst_held`, `BlockReader.feed_snd`: what a piece adds to the block, and what is left of it.
* `BlockReader.feed_append`: a piece may be cut anywhere.
-/

namespace SecureStream

/-- A block of `size` bytes, of which the first `filled` have been read. -/
@[ext]
structure BlockReader (size : Nat) where
  storage : Bytes
  filled : Nat
  length_storage : storage.length = size
  filled_le : filled ≤ size
  deriving Repr

namespace BlockReader

variable {size : Nat}

instance : DecidableEq (BlockReader size) := fun _ _ => decidable_of_iff _ BlockReader.ext_iff.symm

def empty : BlockReader size := ⟨List.replicate size 0, 0, List.length_replicate, Nat.zero_le _⟩

/-- The bytes that have been read. -/
def held (r : BlockReader size) : Bytes := r.storage.take r.filled

def isComplete (r : BlockReader size) : Bool := r.filled == size

def value? (r : BlockReader size) : Option Bytes := if r.isComplete then some r.storage else none

/-- The block as an array of fixed size. -/
def array? (r : BlockReader size) : Option (Vector UInt8 size) :=
  if r.isComplete then some ⟨r.storage.toArray, r.length_storage⟩ else none

/-- Reads from the front of a piece of the stream, and returns what it leaves of the piece. -/
def feed (r : BlockReader size) (bytes : Bytes) : BlockReader size × Bytes :=
  let count := min (size - r.filled) bytes.length
  (⟨r.storage.overwrite r.filled (bytes.take count), r.filled + count,
      (Bytes.length_overwrite _ _ _).trans r.length_storage, by have := r.filled_le; omega⟩,
    bytes.drop count)

/-- Makes the storage ready for another block. -/
def reset (r : BlockReader size) : BlockReader size := { r with filled := 0, filled_le := Nat.zero_le _ }

theorem storage_feed (r : BlockReader size) (bytes : Bytes) :
    (r.feed bytes).1.storage = r.storage.overwrite r.filled (bytes.take (size - r.filled)) := by
  rw [List.take_eq_take_min]
  rfl

theorem filled_feed (r : BlockReader size) (bytes : Bytes) :
    (r.feed bytes).1.filled = r.filled + (bytes.take (size - r.filled)).length := by
  rw [List.length_take]
  rfl

@[simp] theorem length_held (r : BlockReader size) : r.held.length = r.filled := by
  have := r.length_storage
  have := r.filled_le
  rw [held, List.length_take]
  omega

theorem held_le (r : BlockReader size) : r.held.length ≤ size := by
  rw [length_held]
  exact r.filled_le

@[simp] theorem feed_fst_held (r : BlockReader size) (bytes : Bytes) :
    (r.feed bytes).1.held = r.held ++ bytes.take (size - r.held.length) := by
  have hle := r.filled_le
  rw [length_held, held, storage_feed, filled_feed, Bytes.take_overwrite, held]
  rw [List.length_take, r.length_storage]
  omega

@[simp] theorem feed_snd (r : BlockReader size) (bytes : Bytes) :
    (r.feed bytes).2 = bytes.drop (size - r.held.length) := by
  rw [length_held, List.drop_eq_drop_min]
  rfl

theorem feed_append (r : BlockReader size) (a b : Bytes) :
    r.feed (a ++ b) = let (r', left) := r.feed a; if left.isEmpty then r'.feed b else (r', left ++ b) := by
  have hle := r.filled_le
  dsimp only
  split
  · next hempty =>
    -- the second piece is written behind the first one
    have hfits : a.length ≤ size - r.filled := by simpa using hempty
    have hall : a.take (size - r.filled) = a := List.take_of_length_le hfits
    have hroom : size - (r.filled + a.length) = size - r.filled - a.length := by omega
    refine Prod.ext (BlockReader.ext ?_ ?_) ?_
    · rw [storage_feed, storage_feed, storage_feed, filled_feed, hall, hroom, List.take_append, hall,
        Bytes.overwrite_overwrite]
      rw [r.length_storage]
      omega
    · simp only [filled_feed, hall, hroom, List.take_append, List.length_append, Nat.add_assoc]
    · rw [feed_snd, feed_snd, length_held, length_held, filled_feed, hall, hroom, List.drop_append,
        List.drop_of_length_le hfits, List.nil_append]
  · next hmore =>
    have hover : size - r.filled - a.length = 0 := by
      simp only [feed_snd, length_held, List.isEmpty_iff, List.drop_eq_nil_iff] at hmore
      omega
    refine Prod.ext (BlockReader.ext ?_ ?_) ?_
    · rw [storage_feed, storage_feed, List.take_append, hover, List.take_zero, List.append_nil]
    · rw [filled_feed, filled_feed, List.take_append, hover, List.take_zero, List.append_nil]
    · rw [feed_snd, feed_snd, length_held, List.drop_append, hover, List.drop_zero]

@[simp] theorem held_empty : (empty : BlockReader size).held = [] := List.take_zero

@[simp] theorem held_reset (r : BlockReader size) : r.reset.held = [] := List.take_zero

end BlockReader

end SecureStream
