import SecureStream.Buffer.Pool
import SecureStream.Bytes

/-!
# Buffers for input

A `Backlog` is an accumulation buffer: it holds the bytes of earlier reads until the rest of their record arrives. Its
capacity grows in whole steps, never shrinks, and never exceeds the limit.

* `Backlog.bytes_of_append`: appending puts the new bytes behind the old ones.
* `Backlog.tryAppend_of_error`: what cannot be appended leaves the buffer as it was.
-/

namespace SecureStream

/-- Bytes that wait for more. -/
@[ext] structure Backlog where
  bytes : Bytes
  capacity : Nat
  growth : Nat
  limit : Nat
  memory : Memory
  growth_pos : 0 < growth
  deriving Repr

namespace Backlog

instance : DecidableEq Backlog := fun _ _ => decidable_of_iff _ Backlog.ext_iff.symm

/-- A buffer that holds the given bytes and has one step of room to spare. -/
def ofBytes? (bytes : Bytes) (p : Pool) : Except BufferError Backlog :=
  let capacity := min (Size.add bytes.length p.growth) p.limit
  if p.limit < bytes.length then .error (.overLimit bytes.length p.limit)
  else p.memory.reserve 0 capacity fun _ => ⟨bytes, capacity, p.growth, p.limit, p.memory, p.zero_lt_growth⟩

/-- The capacity after the fewest steps that make room for `needed` bytes. -/
def grownCapacity (b : Backlog) (needed : Nat) : Nat :=
  -- the quotient rounded up
  let steps := (needed - b.capacity + (b.growth - 1)) / b.growth
  min (Size.add b.capacity (Size.mul steps b.growth)) b.limit

/-- Makes room for `needed` bytes, if there is less. The buffer comes back also when there is no memory for them. -/
def makeRoom (b : Backlog) (needed : Nat) : Except BufferError Unit × Backlog :=
  if b.capacity < needed then
    let held := b.bytes.length
    let capacity := b.grownCapacity needed
    -- a block is asked for behind the bytes that are held, not behind the old capacity
    match b.memory.reserve held (capacity - held) fun _ => capacity with
    | .error e => (.error e, b)
    | .ok capacity => (.ok (), { b with capacity })
  else (.ok (), b)

/-- Tries to put bytes behind the old ones, and gives the buffer that there is afterwards, in any case. -/
def tryAppend (b : Backlog) (bytes : Bytes) : Except BufferError Unit × Backlog :=
  let needed := Size.add b.bytes.length bytes.length
  if b.limit < needed then (.error (.overLimit needed b.limit), b)
  else
    match b.makeRoom needed with
    | (.error e, b) => (.error e, b)
    | (.ok (), b) => (.ok (), { b with bytes := b.bytes ++ bytes })

/-- Puts bytes behind the old ones, for one who gives a buffer up that refuses them. -/
def append (b : Backlog) (bytes : Bytes) : Except BufferError Backlog :=
  let (result, after) := b.tryAppend bytes
  result.map fun _ => after

/-- Drops the first `n` bytes. -/
def discard (b : Backlog) (n : Nat) : Backlog := { b with bytes := b.bytes.drop n }

/-- Appending all at once: the limit is asked first, and then the memory. -/
theorem append_eq_ite (b : Backlog) (bytes : Bytes) :
    b.append bytes =
      let held := b.bytes.length
      let needed := Size.add held bytes.length
      if b.limit < needed then .error (.overLimit needed b.limit)
      else if b.capacity < needed then
        let capacity := b.grownCapacity needed
        b.memory.reserve held (capacity - held) fun _ => { b with bytes := b.bytes ++ bytes, capacity }
      else .ok { b with bytes := b.bytes ++ bytes } := by
  dsimp only
  by_cases hlimit : b.limit < Size.add b.bytes.length bytes.length
  · rw [append, tryAppend, if_pos hlimit, if_pos hlimit]
    rfl
  · rw [append, tryAppend, if_neg hlimit, if_neg hlimit, makeRoom]
    by_cases hroom : b.capacity < Size.add b.bytes.length bytes.length
    · rw [if_pos hroom, if_pos hroom]
      dsimp only
      rw [← Memory.map_reserve (fun capacity : Nat => ({ b with bytes := b.bytes ++ bytes, capacity } : Backlog))
        b.memory _ _ fun _ => b.grownCapacity (Size.add b.bytes.length bytes.length)]
      cases b.memory.reserve _ _ _ <;> rfl
    · rw [if_neg hroom, if_neg hroom]
      rfl

theorem makeRoom_of_error {b after : Backlog} {needed : Nat} {e : BufferError}
    (h : b.makeRoom needed = (.error e, after)) : after = b := by
  unfold makeRoom at h
  dsimp only at h
  split at h
  · split at h
    · exact (congrArg Prod.snd h).symm
    · cases h
  · cases h

/-- What cannot be appended leaves the buffer as it was. -/
theorem tryAppend_of_error {b : Backlog} {bytes : Bytes} {e : BufferError} (h : b.append bytes = .error e) :
    b.tryAppend bytes = (.error e, b) := by
  unfold append at h
  rcases htry : b.tryAppend bytes with ⟨e' | _, after⟩
  · rw [htry] at h
    cases h
    unfold tryAppend at htry
    dsimp only at htry
    split at htry
    · cases htry
      rfl
    · split at htry
      · next hroom =>
        cases htry
        rw [makeRoom_of_error hroom]
      · cases htry
  · rw [htry] at h
    cases h

theorem tryAppend_of_ok {b after : Backlog} {bytes : Bytes} (h : b.append bytes = .ok after) :
    b.tryAppend bytes = (.ok (), after) := by
  unfold append at h
  rcases htry : b.tryAppend bytes with ⟨e | _, left⟩
  · rw [htry] at h
    cases h
  · rw [htry] at h
    cases h
    rfl

theorem bytes_of_append {b b' : Backlog} {bytes : Bytes} (h : b.append bytes = .ok b') :
    b'.bytes = b.bytes ++ bytes := by
  simp only [append_eq_ite] at h
  split at h
  · cases h
  · split at h
    · obtain ⟨-, -, rfl⟩ := Memory.reserve_eq_ok_iff.1 h
      rfl
    · cases h
      rfl

end Backlog

end SecureStream
