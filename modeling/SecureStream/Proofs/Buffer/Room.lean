import SecureStream.Buffer.Backlog
import SecureStream.Buffer.Scratch

/-!
# Room in buffers

When is there room for so many bytes?  A pool is ample (`Pool.IsAmple`) when its memory has every block up
to the limit.  Then a buffer can be had at every size within the limit (`Scratch.exists_ofCapacity?`), it can
grow by one step as long as that stays within the limit (`Scratch.exists_grow`), and a backlog takes whatever
stays within it (`Backlog.IsOf.exists_append`).
-/

namespace SecureStream

/-- Every block of memory up to the limit can be had. -/
def Pool.IsAmple (p : Pool) : Prop := p.limit ≤ Size.maxBlock ∧ p.limit ≤ p.memory.largest

theorem Memory.reserve_eq_ok {α : Type} {m : Memory} {held requested : Nat}
    {make : held + requested ≤ Size.maxBlock → α}
    (hblock : held + requested ≤ Size.maxBlock) (hlargest : held + requested ≤ m.largest) :
    m.reserve held requested make = .ok (make hblock) :=
  Memory.reserve_eq_ok_iff.2 ⟨hlargest, hblock, rfl⟩

namespace Scratch

structure IsOf (b : Scratch) (p : Pool) : Prop where
  growth_eq : b.growth = p.growth
  limit_eq : b.limit = p.limit
  memory_eq : b.memory = p.memory

theorem isOf_of_ofCapacity? {capacity : Nat} {p : Pool} {b : Scratch} (h : ofCapacity? capacity p = .ok b) :
    b.IsOf p ∧ b.size = 0 ∧ b.capacity = capacity := by
  unfold ofCapacity? at h
  split at h
  · cases h
  · obtain ⟨-, -, rfl⟩ := Memory.reserve_eq_ok_iff.1 h
    exact ⟨⟨rfl, rfl, rfl⟩, rfl, rfl⟩

theorem IsOf.store {b : Scratch} {p : Pool} (h : b.IsOf p) (output : Bytes) (produced : Nat) :
    (b.store output produced).IsOf p := ⟨h.growth_eq, h.limit_eq, h.memory_eq⟩

theorem IsOf.clear {b : Scratch} {p : Pool} (h : b.IsOf p) : b.clear.IsOf p :=
  ⟨h.growth_eq, h.limit_eq, h.memory_eq⟩

theorem exists_ofCapacity? {capacity : Nat} {p : Pool} (hp : p.IsAmple) (h : capacity ≤ p.limit) :
    ∃ b, ofCapacity? capacity p = .ok b := by
  unfold ofCapacity?
  rw [dif_neg (by omega), Memory.reserve_eq_ok (by have := hp.1; omega) (by have := hp.2; omega)]
  exact ⟨_, rfl⟩

theorem length_bytes (b : Scratch) : b.bytes.length = b.size := rfl

theorem isEmpty_iff {b : Scratch} : b.isEmpty ↔ b.bytes = [] := by
  simp [isEmpty, bytes]

/-- Output that fits is put behind the bytes that count. -/
theorem bytes_store {b : Scratch} {output : Bytes} (h : output.length ≤ b.room) :
    (b.store output output.length).bytes = b.bytes ++ output := by
  rw [store, bytes_advance]
  have hwritten : (b.write output).spare.take output.length = output := by
    simp only [spare, write, List.take_of_length_le h, List.append_assoc]
    exact List.take_left
  rw [hwritten]
  rfl

theorem room_eq (b : Scratch) : b.room = b.capacity - b.size := rfl

theorem size_le (b : Scratch) : b.size ≤ b.capacity := Nat.le_trans (Nat.le_add_right _ _) b.used_le

theorem size_advance (b : Scratch) (n : Nat) : (b.advance n).size = b.size + min n b.room := by
  have hlength := congrArg List.length (b.bytes_advance n)
  rwa [List.length_append, List.length_take, length_spare, length_bytes, length_bytes] at hlength

theorem size_store (b : Scratch) (output : Bytes) (produced : Nat) :
    (b.store output produced).size = min (b.size + produced) b.capacity := by
  have hsize : (b.store output produced).size = b.size + min produced b.room :=
    (b.write output).size_advance produced
  have hle := b.size_le
  rw [room_eq] at hsize
  omega

/-- What growing keeps and what it adds. -/
theorem IsOf.of_grow {b grown : Scratch} {p : Pool} (hb : b.IsOf p) (h : b.grow = .ok grown) :
    grown.IsOf p ∧ grown.bytes = b.bytes ∧ grown.room = b.room + p.growth := by
  obtain ⟨hfilled, -, hcapacity, hgrowth, hlimit, hmemory⟩ := eq_of_grow h
  have hused := b.used_le
  refine ⟨⟨hgrowth.trans hb.growth_eq, hlimit.trans hb.limit_eq, hmemory.trans hb.memory_eq⟩, ?_, ?_⟩
  · rw [bytes, hfilled, bytes]
  · rw [room, room, hfilled, hcapacity, hb.growth_eq]
    omega

theorem exists_grow {b : Scratch} {p : Pool} (hp : p.IsAmple) (hb : b.IsOf p)
    (h : b.capacity + p.growth ≤ p.limit) :
    ∃ grown, b.grow = .ok grown := by
  have hblock := hp.1
  have hlargest := hp.2
  have hgrowth := hb.growth_eq
  have hadd : Size.add b.capacity b.growth = b.capacity + b.growth :=
    Size.add_eq (by simp only [Size.maxBlock, Size.top] at *; omega)
  rw [grow_eq_dite, dif_neg (by rw [hadd, hb.limit_eq]; omega),
    Memory.reserve_eq_ok (by omega) (by rw [hb.memory_eq]; omega)]
  exact ⟨_, rfl⟩

/-- The buffer, grown until so many bytes fit into its free part. -/
def growFor (b : Scratch) (size : Nat) : Except BufferError Scratch :=
  if size ≤ b.room then .ok b
  else
    match _ : b.grow with
    | .error e => .error e
    | .ok grown => grown.growFor size
termination_by b.limit - b.capacity
decreasing_by exact limit_sub_lt_of_grow ‹_›

theorem growFor_eq_ok {b b' : Scratch} {size : Nat} (h : b.growFor size = .ok b') :
    b'.bytes = b.bytes ∧ size ≤ b'.room ∧ b.capacity ≤ b'.capacity := by
  fun_induction growFor b size with
  | case1 b hfits =>
    cases h
    exact ⟨rfl, hfits, Nat.le_refl _⟩
  | case2 => cases h
  | case3 b _ grown hgrow ih =>
    obtain ⟨hbytes, hroom, hcapacity⟩ := ih h
    obtain ⟨hfilled, -, hgrown, -⟩ := eq_of_grow hgrow
    refine ⟨?_, hroom, by omega⟩
    rw [hbytes, bytes, hfilled, bytes]

theorem IsOf.of_growFor {b b' : Scratch} {p : Pool} {size : Nat} (hb : b.IsOf p)
    (h : b.growFor size = .ok b') :
    b'.IsOf p := by
  fun_induction growFor b size with
  | case1 =>
    cases h
    exact hb
  | case2 => cases h
  | case3 b _ grown hgrow ih => exact ih (hb.of_grow hgrow).1 h

theorem room_lt_of_growFor {b : Scratch} {size : Nat} {e : BufferError} (h : b.growFor size = .error e) :
    b.room < size := by
  unfold growFor at h
  split at h
  · cases h
  · omega

end Scratch

/-! ### Backlogs -/

namespace Backlog

/-- The buffer is made from the pool, and what it holds fits. -/
structure IsOf (b : Backlog) (p : Pool) : Prop where
  growth_eq : b.growth = p.growth
  limit_eq : b.limit = p.limit
  memory_eq : b.memory = p.memory
  length_le : b.bytes.length ≤ b.capacity
  capacity_le : b.capacity ≤ p.limit

theorem isOf_of_ofBytes? {bytes : Bytes} {p : Pool} {b : Backlog} (h : ofBytes? bytes p = .ok b) :
    b.IsOf p ∧ b.bytes = bytes := by
  unfold ofBytes? at h
  dsimp only at h
  split at h
  · cases h
  · next hlimit =>
    obtain ⟨-, hblock, rfl⟩ := Memory.reserve_eq_ok_iff.1 h
    refine ⟨⟨rfl, rfl, rfl, ?_, Nat.min_le_right _ _⟩, rfl⟩
    show bytes.length ≤ min (Size.add bytes.length p.growth) p.limit
    simp only [Size.add, Size.maxBlock, Size.top] at *
    omega

theorem exists_ofBytes? {bytes : Bytes} {p : Pool} (hp : p.IsAmple) (h : bytes.length ≤ p.limit) :
    ∃ b, ofBytes? bytes p = .ok b := by
  have hblock := hp.1
  have hlargest := hp.2
  unfold ofBytes?
  dsimp only
  rw [if_neg (by omega), Memory.reserve_eq_ok (by omega) (by omega)]
  exact ⟨_, rfl⟩

/-- Growing makes room for as many bytes as are needed, if the limit allows them. -/
theorem le_grownCapacity (b : Backlog) {needed : Nat} (hlimit : needed ≤ b.limit) (htop : needed ≤ Size.top) :
    needed ≤ b.grownCapacity needed := by
  have hpos := b.growth_pos
  have hsteps : needed - b.capacity ≤ (needed - b.capacity + (b.growth - 1)) / b.growth * b.growth := by
    have hmod := Nat.mod_lt (needed - b.capacity + (b.growth - 1)) hpos
    have hdiv := Nat.div_add_mod (needed - b.capacity + (b.growth - 1)) b.growth
    rw [Nat.mul_comm] at hdiv
    omega
  simp only [grownCapacity, Size.add, Size.mul, Size.top] at *
  omega

/-- A backlog takes whatever stays within the limit. -/
theorem IsOf.exists_append {b : Backlog} {p : Pool} (hp : p.IsAmple) (hb : b.IsOf p) {bytes : Bytes}
    (h : b.bytes.length + bytes.length ≤ p.limit) :
    ∃ b', b.append bytes = .ok b' ∧ b'.IsOf p ∧ b'.bytes = b.bytes ++ bytes := by
  have hblock := hp.1
  have hlargest := hp.2
  have hlength := hb.length_le
  have hcapacity := hb.capacity_le
  have hlimit := hb.limit_eq
  have htop : b.bytes.length + bytes.length ≤ Size.top := by
    simp only [Size.maxBlock, Size.top] at *
    omega
  have hneeded : Size.add b.bytes.length bytes.length = b.bytes.length + bytes.length := Size.add_eq htop
  rw [append_eq_ite]
  dsimp only
  rw [hneeded, if_neg (by omega)]
  split
  · have hroom := le_grownCapacity b (by omega) htop
    have hgrown : b.grownCapacity (b.bytes.length + bytes.length) ≤ p.limit := by
      rw [← hlimit]
      exact Nat.min_le_right _ _
    rw [Memory.reserve_eq_ok (by omega) (by rw [hb.memory_eq]; omega)]
    refine ⟨_, rfl, ⟨hb.growth_eq, hb.limit_eq, hb.memory_eq, ?_, hgrown⟩, rfl⟩
    rw [List.length_append]
    exact hroom
  · refine ⟨_, rfl, ⟨hb.growth_eq, hb.limit_eq, hb.memory_eq, ?_, hcapacity⟩, rfl⟩
    show (b.bytes ++ bytes).length ≤ b.capacity
    rw [List.length_append]
    omega

/-- A backlog may hold any bytes that are not longer than those it holds. -/
theorem IsOf.withBytes {b : Backlog} {p : Pool} (hb : b.IsOf p)
    {bytes : Bytes} (h : bytes.length ≤ b.bytes.length) :
    IsOf { b with bytes } p :=
  ⟨hb.growth_eq, hb.limit_eq, hb.memory_eq, Nat.le_trans h hb.length_le, hb.capacity_le⟩

/-! ### Whatever there is of memory -/

variable {b b' : Backlog} {p : Pool}

/-- The bytes that wait fit into their buffer, and the buffer keeps the limit and lies in one block. -/
structure InRange (b : Backlog) (p : Pool) : Prop where
  isOf : b.IsOf p
  block : b.capacity ≤ Size.maxBlock

theorem inRange_of_ofBytes? {bytes : Bytes} (h : ofBytes? bytes p = .ok b) : b.InRange p := by
  refine ⟨(isOf_of_ofBytes? h).1, ?_⟩
  unfold ofBytes? at h
  dsimp only at h
  split at h
  · cases h
  · obtain ⟨-, hblock, rfl⟩ := Memory.reserve_eq_ok_iff.1 h
    rw [Nat.zero_add] at hblock
    exact hblock

namespace InRange

variable (h : b.InRange p)

include h

/-- The capacity never gets smaller, so the bytes that are held can be taken from it. -/
theorem length_le_grownCapacity (needed : Nat) : b.bytes.length ≤ b.grownCapacity needed := by
  have hlength := h.isOf.length_le
  have hcapacity := h.isOf.capacity_le
  have hblock := h.block
  have hlimit := h.isOf.limit_eq
  simp only [grownCapacity, Size.add, Size.maxBlock, Size.top] at *
  omega

theorem withBytes {bytes : Bytes} (hle : bytes.length ≤ b.bytes.length) :
    InRange { b with bytes } p := ⟨h.isOf.withBytes hle, h.block⟩

/-- What is held and what lies in another block are together no more than a size. -/
theorem length_add_le_top {bytes : Bytes} (hbytes : bytes.length ≤ Size.maxBlock) :
    b.bytes.length + bytes.length ≤ Size.top := by
  have hlength := h.isOf.length_le
  have hblock := h.block
  simp only [Size.maxBlock, Size.top] at *
  omega

theorem append {bytes : Bytes} (hbytes : bytes.length ≤ Size.maxBlock) (happend : b.append bytes = .ok b') :
    b'.InRange p := by
  have hlength := h.isOf.length_le
  have hblock := h.block
  have htop := h.length_add_le_top hbytes
  have hneeded : Size.add b.bytes.length bytes.length = b.bytes.length + bytes.length := Size.add_eq htop
  have hbytes' := bytes_of_append happend
  rw [append_eq_ite] at happend
  dsimp only at happend
  rw [hneeded] at happend
  split at happend
  · cases happend
  · next hlimit =>
    have hroom := b.le_grownCapacity (Nat.le_of_not_lt hlimit) htop
    split at happend
    · obtain ⟨-, hblock', rfl⟩ := Memory.reserve_eq_ok_iff.1 happend
      have hgrown : b.grownCapacity (b.bytes.length + bytes.length) ≤ p.limit := by
        rw [← h.isOf.limit_eq]
        exact Nat.min_le_right _ _
      refine ⟨⟨h.isOf.growth_eq, h.isOf.limit_eq, h.isOf.memory_eq, ?_, hgrown⟩, ?_⟩
      · rw [hbytes', List.length_append]
        exact hroom
      · show b.grownCapacity (b.bytes.length + bytes.length) ≤ Size.maxBlock
        omega
    · next hfits =>
      cases happend
      refine ⟨⟨h.isOf.growth_eq, h.isOf.limit_eq, h.isOf.memory_eq, ?_, h.isOf.capacity_le⟩, h.block⟩
      show (b.bytes ++ bytes).length ≤ b.capacity
      rw [List.length_append]
      omega

end InRange

end Backlog

end SecureStream
