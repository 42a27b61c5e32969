import SecureStream.Buffer.Pool
import SecureStream.Bytes

/-!
# Buffers for output

A `Scratch` is a record buffer: an engine writes its output to the free part of it, and the buffer is told afterwards
how many bytes count. Growing keeps everything that was written and adds one step of zeros. Clearing frees the whole
buffer but erases nothing, so the free part may hold old bytes. In the end a buffer is frozen to the bytes that count.

* `Scratch.bytes_advance`: the bytes that begin to count are those at the start of the free part.
* `Scratch.eq_of_grow`: growing adds one step and changes nothing else.
* `Scratch.tryGrow_of_error`: a buffer that cannot grow stays as it was.
* `Scratch.freeze_eq`: freezing loses no byte that counts, and adds none.
-/

namespace SecureStream

/-- A buffer whose filled part is followed by a free part. -/
structure Scratch where
  /-- The bytes that count. -/
  filled : Array UInt8
  /-- What was written to the start of the free part. Behind it are zeros only. -/
  beyond : Bytes
  capacity : Nat
  growth : Nat
  limit : Nat
  memory : Memory
  growth_pos : 0 < growth
  capacity_le : capacity ≤ limit
  used_le : filled.size + beyond.length ≤ capacity

namespace Scratch

/-- A buffer of zeros. -/
def ofCapacity? (capacity : Nat) (p : Pool) : Except BufferError Scratch :=
  if h : p.limit < capacity then .error (.overLimit capacity p.limit)
  else
    p.memory.reserve 0 capacity fun _ =>
      ⟨#[], [], capacity, p.growth, p.limit, p.memory, p.zero_lt_growth, Nat.le_of_not_lt h, Nat.zero_le _⟩

def size (b : Scratch) : Nat := b.filled.size

def room (b : Scratch) : Nat := b.capacity - b.filled.size

/-- The free part. -/
def spare (b : Scratch) : Bytes := b.beyond ++ List.replicate (b.room - b.beyond.length) 0

/-- The whole buffer. -/
def contents (b : Scratch) : Bytes := b.filled.toList ++ b.spare

def bytes (b : Scratch) : Bytes := b.filled.toList

/-- Writes to the start of the free part as much as fits. -/
def write (b : Scratch) (output : Bytes) : Scratch :=
  let written := output.take b.room
  { b with
    beyond := written ++ b.beyond.drop written.length
    used_le := by
      have := b.used_le
      simp only [written, room, List.length_append, List.length_take, List.length_drop]
      omega }

/-- Lets `n` more bytes count, or all there are. -/
def advance (b : Scratch) (n : Nat) : Scratch :=
  let count := min n b.room
  let moved := b.beyond.take count
  { b with
    filled := b.filled ++ (moved ++ List.replicate (count - moved.length) 0)
    beyond := b.beyond.drop count
    used_le := by
      have := b.used_le
      rw [← Array.length_toList, Array.toList_appendList]
      simp [count, moved, room]
      omega }

/-- The buffer with one more step of zeros. -/
def enlarged (b : Scratch) (hlimit : ¬ b.limit < Size.add b.capacity b.growth)
    (hblock : b.capacity + b.growth ≤ Size.maxBlock) : Scratch :=
  { b with
    capacity := b.capacity + b.growth
    capacity_le := by
      -- no block is so large that the sum of two sizes would stop at the largest
      rw [Size.add_eq (by simp only [Size.maxBlock, Size.top] at *; omega)] at hlimit
      exact Nat.le_of_not_lt hlimit
    used_le := Nat.le_trans b.used_le (Nat.le_add_right _ _) }

/-- Tries to add one step of zeros, and gives the buffer that there is afterwards, in any case. -/
def tryGrow (b : Scratch) : Except BufferError Unit × Scratch :=
  if h : b.limit < Size.add b.capacity b.growth then
    (.error (.overLimit (Size.add b.capacity b.growth) b.limit), b)
  else
    match b.memory.reserve b.capacity b.growth (b.enlarged h) with
    | .error e => (.error e, b)
    | .ok grown => (.ok (), grown)

/-- Adds one step of zeros, for one who gives a buffer up that cannot grow. -/
def grow (b : Scratch) : Except BufferError Scratch :=
  let (result, after) := b.tryGrow
  result.map fun _ => after

/-- Lets no byte count any more. -/
def clear (b : Scratch) : Scratch :=
  { b with
    filled := #[]
    -- what counted stays where it was
    beyond := b.filled.toList ++ b.beyond
    used_le := by
      have := b.used_le
      simpa using this }

/-- The buffer, cut off behind the bytes that count. -/
def truncated (b : Scratch) : Scratch :=
  { b with
    beyond := []
    capacity := b.filled.size
    capacity_le := Nat.le_trans (Nat.le_trans (Nat.le_add_right _ _) b.used_le) b.capacity_le
    used_le := Nat.le_refl _ }

/-- Gives the buffer up for a piece of output. -/
def freeze (b : Scratch) : Bytes := b.truncated.contents

def isEmpty (b : Scratch) : Bool := b.filled.isEmpty

/-- Takes over the output of one call of an engine, of which as many bytes count as the engine says. -/
def store (b : Scratch) (output : Bytes) (produced : Nat) : Scratch := (b.write output).advance produced

@[simp] theorem limit_store (b : Scratch) (output : Bytes) (produced : Nat) :
    (b.store output produced).limit = b.limit := rfl

@[simp] theorem capacity_store (b : Scratch) (output : Bytes) (produced : Nat) :
    (b.store output produced).capacity = b.capacity := rfl

@[simp] theorem limit_clear (b : Scratch) : b.clear.limit = b.limit := rfl

@[simp] theorem capacity_clear (b : Scratch) : b.clear.capacity = b.capacity := rfl

/-- Output of which no byte counts leaves the filled part as it is. -/
@[simp] theorem bytes_store_zero (b : Scratch) (output : Bytes) : (b.store output 0).bytes = b.bytes := by
  simp [store, advance, bytes, write]

theorem bytes_of_ofCapacity? {capacity : Nat} {p : Pool} {b : Scratch} (h : ofCapacity? capacity p = .ok b) :
    b.bytes = [] := by
  unfold ofCapacity? at h
  split at h
  · cases h
  · obtain ⟨-, -, rfl⟩ := Memory.reserve_eq_ok_iff.1 h
    rfl

@[simp] theorem length_spare (b : Scratch) : b.spare.length = b.room := by
  have := b.used_le
  simp [spare, room]
  omega

@[simp] theorem length_contents (b : Scratch) : b.contents.length = b.capacity := by
  have := b.used_le
  simp [contents, room]
  omega

@[simp] theorem bytes_advance (b : Scratch) (n : Nat) :
    (b.advance n).bytes = b.bytes ++ b.spare.take n := by
  have := b.used_le
  simp only [advance, bytes, Array.toList_appendList, spare, room, List.take_append, List.length_take,
    List.take_replicate]
  -- `b.beyond` is no longer than the free part, so taking `n` bytes of it never goes past that
  rw [show b.beyond.take n = b.beyond.take (min n (b.capacity - b.filled.size)) from ?_]
  · congr 3
    omega
  · have hshort : b.beyond.take (b.capacity - b.filled.size) = b.beyond := List.take_of_length_le (by omega)
    rw [← List.take_take, hshort]

/-- Freezing loses no byte that counts, and adds none. -/
@[simp] theorem freeze_eq (b : Scratch) : b.freeze = b.bytes := by
  have hroom : b.truncated.room = 0 := Nat.sub_self _
  rw [freeze, contents, spare, hroom]
  exact List.append_nil _

/-- Growing all at once: the limit is asked first, and then the memory. -/
theorem grow_eq_dite (b : Scratch) :
    b.grow =
      if h : b.limit < Size.add b.capacity b.growth then .error (.overLimit (Size.add b.capacity b.growth) b.limit)
      else b.memory.reserve b.capacity b.growth (b.enlarged h) := by
  unfold grow tryGrow
  dsimp only
  split
  · rfl
  · next h => cases b.memory.reserve b.capacity b.growth (b.enlarged h) <;> rfl

/-- A buffer that cannot grow stays as it was. -/
theorem tryGrow_of_error {b : Scratch} {e : BufferError} (h : b.grow = .error e) : b.tryGrow = (.error e, b) := by
  unfold grow at h
  rcases htry : b.tryGrow with ⟨e' | _, after⟩
  · rw [htry] at h
    cases h
    unfold tryGrow at htry
    split at htry
    · cases htry
      rfl
    · split at htry <;> cases htry
      rfl
  · rw [htry] at h
    cases h

theorem tryGrow_of_ok {b grown : Scratch} (h : b.grow = .ok grown) : b.tryGrow = (.ok (), grown) := by
  unfold grow at h
  rcases htry : b.tryGrow with ⟨e | _, after⟩
  · rw [htry] at h
    cases h
  · rw [htry] at h
    cases h
    rfl

theorem eq_of_grow {b grown : Scratch} (h : b.grow = .ok grown) :
    grown.filled = b.filled ∧ grown.beyond = b.beyond ∧ grown.capacity = b.capacity + b.growth ∧
      grown.growth = b.growth ∧ grown.limit = b.limit ∧ grown.memory = b.memory := by
  rw [grow_eq_dite] at h
  split at h
  · cases h
  · obtain ⟨-, -, rfl⟩ := Memory.reserve_eq_ok_iff.1 h
    exact ⟨rfl, rfl, rfl, rfl, rfl, rfl⟩

/-- The distance to the limit gets smaller with each step. -/
theorem limit_sub_lt_of_grow {b grown : Scratch} (h : b.grow = .ok grown) :
    grown.limit - grown.capacity < b.limit - b.capacity := by
  obtain ⟨-, -, hc, -, hl, -⟩ := eq_of_grow h
  have := grown.capacity_le
  have := b.growth_pos
  omega

end Scratch

end SecureStream
