import SecureStream.Proofs.Buffer.Growth

/-!
# When a buffer is refused

A buffer is refused for one of two reasons, and the first one counts if both apply (`Pool.Refuses`): so many
bytes exceed the limit, or there is no block of memory for the buffer that would have to be made for them
(`Memory.Lacks`).  Whether a buffer is made or gets larger, these are exactly the cases in which it fails.

* `Scratch.ofCapacity?_eq_error_iff`, `Scratch.grow_eq_error_iff`: buffers for output.
* `Backlog.ofBytes?_eq_error_iff`, `Backlog.InRange.append_eq_error_iff`: buffers for input.

The capacity that a backlog gets is written here without the bounds of the arithmetic of sizes, which make no
difference as long as the limit is a size (`Backlog.ofBytes?_eq_ok`, `Backlog.InRange.eq_of_append`).
-/

namespace SecureStream

/-! ### Blocks of memory -/

namespace Memory

variable {m : Memory} {held requested : Nat} {e : BufferError}

/-- There is no block of so many bytes.  A memory that has blocks of all sizes lacks just those of more than
`Size.maxBlock` bytes. -/
def Lacks (m : Memory) (size : Nat) : Prop := Size.maxBlock < size ∨ m.largest < size

instance (m : Memory) (size : Nat) : Decidable (m.Lacks size) := inferInstanceAs (Decidable (_ ∨ _))

/-- Why there is none. -/
def shortage (size : Nat) : Shortage := if Size.maxBlock < size then .tooLarge else .exhausted

theorem reserve_eq_error_iff {α : Type} {make : held + requested ≤ Size.maxBlock → α} :
    m.reserve held requested make = .error e ↔
      m.Lacks (held + requested) ∧ e = .noMemory requested (shortage (held + requested)) := by
  unfold reserve
  by_cases hblock : Size.maxBlock < held + requested
  · rw [dif_pos hblock, shortage, if_pos hblock, Except.error.injEq]
    constructor
    · intro h
      exact ⟨.inl hblock, h.symm⟩
    · intro h
      exact h.2.symm
  · rw [dif_neg hblock, shortage, if_neg hblock]
    by_cases hlargest : m.largest < held + requested
    · rw [if_pos hlargest, Except.error.injEq]
      constructor
      · intro h
        exact ⟨.inr hlargest, h.symm⟩
      · intro h
        exact h.2.symm
    · rw [if_neg hlargest]
      constructor
      · intro h
        cases h
      · rintro ⟨hnone | hnone, -⟩
        · exact absurd hnone hblock
        · exact absurd hnone hlargest

/-- No block is so large that it would matter where the sum of two sizes stops. -/
theorem maxBlock_lt_add {a b : Nat} : Size.maxBlock < Size.add a b ↔ Size.maxBlock < a + b := by
  simp only [Size.add, Size.maxBlock, Size.top]
  omega

theorem shortage_add (a b : Nat) : shortage (Size.add a b) = shortage (a + b) := by
  simp only [shortage, maxBlock_lt_add]

theorem lacks_add {a b : Nat} : m.Lacks (Size.add a b) ↔ m.Lacks (a + b) := by
  simp only [Lacks, Size.add, Size.maxBlock, Size.top]
  omega

end Memory

namespace Pool

/-- A buffer for `needed` bytes is refused, which would be one of `capacity` bytes and `more` of them new. -/
inductive Refuses (p : Pool) (needed capacity more : Nat) : BufferError → Prop where
  | overLimit (h : p.limit < needed) : Refuses p needed capacity more (.overLimit needed p.limit)
  | noMemory (hlimit : needed ≤ p.limit) (hlacks : p.memory.Lacks capacity) :
    Refuses p needed capacity more (.noMemory more (Memory.shortage capacity))

variable {p : Pool} {needed capacity more : Nat} {e : BufferError}

theorem refuses_iff_of_lt (h : p.limit < needed) :
    p.Refuses needed capacity more e ↔ e = .overLimit needed p.limit := by
  constructor
  · rintro (_ | ⟨hle, -⟩)
    · rfl
    · omega
  · rintro rfl
    exact .overLimit h

theorem refuses_iff_of_le (h : needed ≤ p.limit) :
    p.Refuses needed capacity more e ↔
      p.memory.Lacks capacity ∧ e = .noMemory more (Memory.shortage capacity) := by
  constructor
  · rintro (hlt | ⟨-, hlacks⟩)
    · omega
    · exact ⟨hlacks, rfl⟩
  · rintro ⟨hlacks, rfl⟩
    exact .noMemory h hlacks

/-- The fewest steps after which so many bytes fit. -/
theorem stepsFor_le_iff {j : Nat} : p.stepsFor capacity needed ≤ j ↔ needed ≤ capacity + j * p.growth := by
  have hpos := p.zero_lt_growth
  rw [stepsFor, Nat.div_le_iff_le_mul_add_pred hpos, Nat.mul_comm j]
  omega

/-- The capacity with room for so many bytes that a buffer grows to from another one, in steps the last of which
stops at the limit. -/
def enlarged (p : Pool) (capacity needed : Nat) : Nat := min (p.reach capacity needed) p.limit

theorem enlarged_of_le (hcapacity : capacity ≤ p.limit) (h : needed ≤ capacity) :
    p.enlarged capacity needed = capacity := by
  rw [enlarged, p.reach_of_le h, Nat.min_eq_left hcapacity]

theorem le_enlarged (hcapacity : capacity ≤ p.limit) : capacity ≤ p.enlarged capacity needed :=
  Nat.le_min.2 ⟨p.le_reach capacity needed, hcapacity⟩

/-- Growing takes the fewest steps that are enough. -/
theorem exists_steps (hneeded : needed ≤ p.limit) :
    ∃ j, p.enlarged capacity needed = min (capacity + j * p.growth) p.limit ∧
      ∀ i, needed ≤ min (capacity + i * p.growth) p.limit ↔ j ≤ i := by
  refine ⟨p.stepsFor capacity needed, rfl, fun i => ?_⟩
  rw [stepsFor_le_iff, Nat.le_min]
  exact and_iff_left hneeded

end Pool

theorem Size.min_add {a b limit : Nat} (h : limit ≤ Size.top) : min (Size.add a b) limit = min (a + b) limit := by
  rw [Size.add, Nat.min_assoc, Nat.min_eq_right h]

/-! ### Buffers for output -/

namespace Scratch

variable {b : Scratch} {p : Pool} {capacity : Nat} {e : BufferError}

theorem ofCapacity?_eq_error_iff :
    ofCapacity? capacity p = .error e ↔ p.Refuses capacity capacity capacity e := by
  unfold ofCapacity?
  by_cases hlimit : p.limit < capacity
  · rw [dif_pos hlimit, Pool.refuses_iff_of_lt hlimit, Except.error.injEq]
    exact eq_comm
  · rw [dif_neg hlimit, Pool.refuses_iff_of_le (Nat.le_of_not_lt hlimit), Memory.reserve_eq_error_iff,
      Nat.zero_add]

theorem grow_eq_error_iff (hb : b.IsOf p) :
    b.grow = .error e ↔
      p.Refuses (Size.add b.capacity p.growth) (Size.add b.capacity p.growth) p.growth e := by
  rw [grow_eq_dite, ← hb.growth_eq]
  by_cases hlimit : p.limit < Size.add b.capacity b.growth
  · rw [dif_pos (hb.limit_eq ▸ hlimit), Pool.refuses_iff_of_lt hlimit, Except.error.injEq, hb.limit_eq]
    exact eq_comm
  · rw [dif_neg (hb.limit_eq ▸ hlimit), Pool.refuses_iff_of_le (Nat.le_of_not_lt hlimit),
      Memory.reserve_eq_error_iff, Memory.lacks_add, Memory.shortage_add, hb.memory_eq]

end Scratch

/-! ### Buffers for input -/

namespace Backlog

variable {b b' : Backlog} {p : Pool} {bytes : Bytes} {e : BufferError}

theorem ofBytes?_eq_error_iff (hlimit : p.limit ≤ Size.top) :
    ofBytes? bytes p = .error e ↔
      p.Refuses bytes.length (min (bytes.length + p.growth) p.limit) (min (bytes.length + p.growth) p.limit) e := by
  unfold ofBytes?
  dsimp only
  rw [Size.min_add hlimit]
  by_cases hover : p.limit < bytes.length
  · rw [if_pos hover, Pool.refuses_iff_of_lt hover, Except.error.injEq]
    exact eq_comm
  · rw [if_neg hover, Pool.refuses_iff_of_le (Nat.le_of_not_lt hover), Memory.reserve_eq_error_iff, Nat.zero_add]

theorem ofBytes?_eq_ok (hlimit : p.limit ≤ Size.top) (h : ofBytes? bytes p = .ok b) :
    b.bytes = bytes ∧ b.capacity = min (bytes.length + p.growth) p.limit := by
  unfold ofBytes? at h
  dsimp only at h
  rw [Size.min_add hlimit] at h
  split at h
  · cases h
  · obtain ⟨-, -, rfl⟩ := Memory.reserve_eq_ok_iff.1 h
    exact ⟨rfl, rfl⟩

/-- Within the limit no sum or product of sizes is cut off. -/
theorem IsOf.grownCapacity_eq (hb : b.IsOf p) (hlimit : p.limit ≤ Size.top) (needed : Nat) :
    b.grownCapacity needed = p.enlarged b.capacity needed := by
  have hsteps : ∀ n, min (Size.add b.capacity (Size.mul n p.growth)) p.limit =
      min (b.capacity + n * p.growth) p.limit := by
    intro n
    rw [Size.min_add hlimit, Size.mul]
    omega
  rw [grownCapacity, hb.growth_eq, hb.limit_eq, hsteps]
  rfl

namespace InRange

variable (h : b.InRange p) (hlimit : p.limit ≤ Size.top) (hbytes : bytes.length ≤ Size.maxBlock)

include h hlimit hbytes

/-- Appending, in the arithmetic of natural numbers. -/
private theorem append_eq :
    b.append bytes =
      let needed := b.bytes.length + bytes.length
      let grown := p.enlarged b.capacity needed
      if p.limit < needed then .error (.overLimit needed p.limit)
      else if b.capacity < needed then
        p.memory.reserve b.bytes.length (grown - b.bytes.length) fun _ =>
          { b with bytes := b.bytes ++ bytes, capacity := grown }
      else .ok { b with bytes := b.bytes ++ bytes } := by
  rw [append_eq_ite]
  dsimp only
  rw [Size.add_eq (h.length_add_le_top hbytes), h.isOf.grownCapacity_eq hlimit, h.isOf.limit_eq, h.isOf.memory_eq]

theorem append_eq_error_iff :
    b.append bytes = .error e ↔
      b.capacity < b.bytes.length + bytes.length ∧
        p.Refuses (b.bytes.length + bytes.length) (p.enlarged b.capacity (b.bytes.length + bytes.length))
          (p.enlarged b.capacity (b.bytes.length + bytes.length) - b.bytes.length) e := by
  have hlength := h.isOf.length_le
  have hcapacity := h.isOf.capacity_le
  have hgrown : b.capacity ≤ p.enlarged b.capacity (b.bytes.length + bytes.length) := Pool.le_enlarged hcapacity
  rw [h.append_eq hlimit hbytes]
  dsimp only
  by_cases hover : p.limit < b.bytes.length + bytes.length
  · rw [if_pos hover, Pool.refuses_iff_of_lt hover, Except.error.injEq, and_iff_right (by omega)]
    exact eq_comm
  · rw [if_neg hover, Pool.refuses_iff_of_le (Nat.le_of_not_lt hover)]
    by_cases hgrows : b.capacity < b.bytes.length + bytes.length
    · -- the block behind the bytes that are held makes up the new capacity
      rw [if_pos hgrows, Memory.reserve_eq_error_iff, Nat.add_sub_of_le (Nat.le_trans hlength hgrown),
        and_iff_right hgrows]
    · rw [if_neg hgrows]
      exact iff_of_false (by simp) (fun hlt => hgrows hlt.1)

theorem eq_of_append (happend : b.append bytes = .ok b') :
    b' = { b with
      bytes := b.bytes ++ bytes
      capacity := p.enlarged b.capacity (b.bytes.length + bytes.length) } := by
  rw [h.append_eq hlimit hbytes] at happend
  dsimp only at happend
  split at happend
  · cases happend
  · split at happend
    · obtain ⟨-, -, rfl⟩ := Memory.reserve_eq_ok_iff.1 happend
      rfl
    · next hfits =>
      cases happend
      rw [Pool.enlarged_of_le h.isOf.capacity_le (Nat.le_of_not_lt hfits)]

end InRange

end Backlog

end SecureStream
