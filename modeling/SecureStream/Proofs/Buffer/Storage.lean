import SecureStream.Proofs.Buffer.Refusals

/-!
# A scratch buffer is a storage with a mark

The whole of a scratch buffer is one storage, and a mark in it tells how many of its bytes count.  A `Watch` is a
scratch buffer together with the storage and the mark that one expects of it.  Four things are done with it, in any
order and as often as one likes: bytes are written behind the mark, the mark is moved on, one step of zeros is added
at the end, and the mark is put back to the beginning.

The invariant is that the bytes that count are those before the mark and the free part is what follows it
(`Watch.Stands`).  Its step lemma needs to know of every operation what it does to these two parts
(`Scratch.spare_writeAt`, `Scratch.spare_advance`, and so on).
-/

namespace SecureStream

namespace Scratch

variable {b grown : Scratch} {p : Pool}

/-! ### The two parts of a buffer -/

theorem contents_eq (b : Scratch) : b.contents = b.bytes ++ b.spare := rfl

/-- A new buffer is all zeros. -/
theorem contents_of_ofCapacity? {capacity : Nat} (h : ofCapacity? capacity p = .ok b) :
    b.contents = List.replicate capacity 0 := by
  unfold ofCapacity? at h
  split at h
  · cases h
  · obtain ⟨-, -, rfl⟩ := Memory.reserve_eq_ok_iff.1 h
    rfl

/-- What was written lies in the free part, so more than that part cannot be dropped from it. -/
private theorem drop_beyond (b : Scratch) (n : Nat) : b.beyond.drop (min n b.room) = b.beyond.drop n := by
  have hused := b.used_le
  rcases Nat.le_total n b.room with hle | hle
  · rw [Nat.min_eq_left hle]
  · have hlength : b.beyond.length ≤ b.room := by
      rw [room]
      omega
    rw [Nat.min_eq_right hle, List.drop_of_length_le hlength, List.drop_of_length_le (Nat.le_trans hlength hle)]

/-- Behind what is written the free part is as it was. -/
theorem spare_write (b : Scratch) (output : Bytes) :
    (b.write output).spare = output.take b.room ++ b.spare.drop output.length := by
  have hkept : b.beyond.drop (output.take b.room).length = b.beyond.drop output.length := by
    rw [List.length_take, Nat.min_comm, drop_beyond]
  have hzeros : b.room - ((output.take b.room).length + (b.beyond.drop output.length).length) =
      b.room - b.beyond.length - (output.length - b.beyond.length) := by
    rw [List.length_take, List.length_drop]
    omega
  show output.take b.room ++ b.beyond.drop (output.take b.room).length ++
      List.replicate (b.room - (output.take b.room ++ b.beyond.drop (output.take b.room).length).length) 0 = _
  rw [hkept, List.length_append, hzeros, spare, List.drop_append, List.drop_replicate, List.append_assoc]

theorem spare_advance (b : Scratch) (n : Nat) : (b.advance n).spare = b.spare.drop n := by
  have hroom : (b.advance n).room = b.room - min n b.room := by
    rw [room_eq, size_advance, ← Nat.sub_sub]
    rfl
  have hzeros : b.room - min n b.room - (b.beyond.drop n).length =
      b.room - b.beyond.length - (n - b.beyond.length) := by
    rw [List.length_drop]
    omega
  show b.beyond.drop (min n b.room) ++
      List.replicate ((b.advance n).room - (b.beyond.drop (min n b.room)).length) 0 = _
  rw [hroom, drop_beyond, hzeros, spare, List.drop_append, List.drop_replicate]

@[simp] theorem bytes_clear (b : Scratch) : b.clear.bytes = [] := rfl

theorem spare_clear (b : Scratch) : b.clear.spare = b.bytes ++ b.spare := by
  show b.bytes ++ b.beyond ++ List.replicate (b.capacity - (b.bytes ++ b.beyond).length) 0 = _
  rw [List.length_append, length_bytes, spare, room_eq, Nat.sub_sub, List.append_assoc]

theorem spare_of_grow (h : b.grow = .ok grown) : grown.spare = b.spare ++ List.replicate b.growth 0 := by
  obtain ⟨hfilled, hbeyond, hcapacity, -, -, -⟩ := eq_of_grow h
  have hused := b.used_le
  have hzeros : grown.room - b.beyond.length = b.room - b.beyond.length + b.growth := by
    rw [room, room, hfilled, hcapacity]
    omega
  rw [spare, spare, hbeyond, hzeros, List.append_assoc, List.replicate_append_replicate]

/-- Writes to the free part, `offset` bytes behind its start, as much as fits there. -/
def writeAt (b : Scratch) (offset : Nat) (bytes : Bytes) : Scratch := b.write (b.spare.take offset ++ bytes)

theorem spare_writeAt (b : Scratch) (offset : Nat) (bytes : Bytes) :
    (b.writeAt offset bytes).spare = b.spare.overwrite offset bytes := by
  have hfront : (b.spare.take offset).length = min offset b.room := by rw [List.length_take, length_spare]
  have hleft : b.room - min offset b.room = b.room - offset := by omega
  have hback : b.spare.drop (min offset b.room + bytes.length) = b.spare.drop (offset + bytes.length) := by
    rcases Nat.le_total offset b.room with hle | hle
    · rw [Nat.min_eq_left hle]
    · rw [List.drop_of_length_le, List.drop_of_length_le]
      all_goals
        rw [length_spare]
        omega
  rw [writeAt, spare_write, List.length_append, hfront, hback, Bytes.overwrite, List.take_append, hfront, hleft,
    length_spare, List.take_of_length_le (Nat.le_trans (Nat.le_of_eq hfront) (Nat.min_le_right _ _))]

/-! ### Buffers at work -/

/-- What is done with a scratch buffer. -/
inductive Action where
  | write (offset : Nat) (bytes : Bytes)
  | advance (n : Nat)
  | grow
  | clear

/-- A scratch buffer at work. -/
structure Watch where
  scratch : Scratch
  /-- The bytes that should stand in it, from its beginning to its end. -/
  storage : Bytes
  /-- How many of them should count. -/
  mark : Nat
  /-- How many times it has grown. -/
  steps : Nat

namespace Watch

def start (b : Scratch) : Watch := ⟨b, List.replicate b.capacity 0, 0, 0⟩

def act (watch : Watch) : Action → Watch
  | .write offset bytes =>
    { watch with
      scratch := watch.scratch.writeAt offset bytes
      storage := watch.storage.overwrite (watch.mark + offset) bytes }
  | .advance n =>
    { watch with
      scratch := watch.scratch.advance n
      mark := min (watch.mark + n) watch.storage.length }
  | .grow =>
    match watch.scratch.tryGrow with
    | (.error _, scratch) => { watch with scratch }
    | (.ok (), scratch) =>
      { watch with
        scratch
        storage := watch.storage ++ List.replicate watch.scratch.growth 0
        steps := watch.steps + 1 }
  | .clear => { watch with scratch := watch.scratch.clear, mark := 0 }

def actAll (watch : Watch) (actions : List Action) : Watch := actions.foldl act watch

/-- The buffer was made from the pool with a certain capacity, and it holds what is expected. -/
structure Stands (watch : Watch) (p : Pool) (capacity : Nat) : Prop where
  isOf : watch.scratch.IsOf p
  storage_eq : watch.scratch.bytes ++ watch.scratch.spare = watch.storage
  size_eq : watch.scratch.size = watch.mark
  capacity_eq : watch.scratch.capacity = capacity + watch.steps * p.growth

variable {watch : Watch} {capacity : Nat}

theorem act_grow_of_error {e : BufferError} (h : watch.scratch.grow = .error e) : watch.act .grow = watch := by
  rw [act, tryGrow_of_error h]

theorem stands_start (h : ofCapacity? capacity p = .ok b) : (start b).Stands p capacity := by
  obtain ⟨hof, hsize, hcapacity⟩ := isOf_of_ofCapacity? h
  refine ⟨hof, ?_, hsize, ?_⟩
  · show b.contents = List.replicate b.capacity 0
    rw [contents_of_ofCapacity? h, hcapacity]
  · show b.capacity = capacity + 0 * p.growth
    rw [hcapacity, Nat.zero_mul, Nat.add_zero]

namespace Stands

variable (h : watch.Stands p capacity)

include h

theorem length_storage : watch.storage.length = watch.scratch.capacity := by
  rw [← h.storage_eq, ← contents_eq, length_contents]

theorem bytes_eq : watch.scratch.bytes = watch.storage.take watch.mark := by
  rw [← h.storage_eq, ← h.size_eq, ← length_bytes, List.take_left]

theorem spare_eq : watch.scratch.spare = watch.storage.drop watch.mark := by
  rw [← h.storage_eq, ← h.size_eq, ← length_bytes, List.drop_left]

theorem act (action : Action) : (watch.act action).Stands p capacity := by
  cases action with
  | write offset bytes =>
    refine ⟨⟨h.isOf.growth_eq, h.isOf.limit_eq, h.isOf.memory_eq⟩, ?_, h.size_eq, h.capacity_eq⟩
    show watch.scratch.bytes ++ (watch.scratch.writeAt offset bytes).spare = _
    rw [spare_writeAt, ← Bytes.overwrite_append, h.storage_eq, length_bytes, h.size_eq]
    rfl
  | advance n =>
    refine ⟨⟨h.isOf.growth_eq, h.isOf.limit_eq, h.isOf.memory_eq⟩, ?_, ?_, h.capacity_eq⟩
    · show (watch.scratch.advance n).bytes ++ (watch.scratch.advance n).spare = watch.storage
      rw [bytes_advance, spare_advance, List.append_assoc, List.take_append_drop, h.storage_eq]
    · have hle := watch.scratch.size_le
      show (watch.scratch.advance n).size = min (watch.mark + n) watch.storage.length
      rw [size_advance, h.length_storage, ← h.size_eq, room_eq]
      omega
  | grow =>
    rcases hgrow : watch.scratch.grow with e | grown
    · rw [act_grow_of_error hgrow]
      exact h
    · obtain ⟨hof, hbytes, -⟩ := h.isOf.of_grow hgrow
      obtain ⟨-, -, hcapacity, -⟩ := eq_of_grow hgrow
      rw [Watch.act, tryGrow_of_ok hgrow]
      refine ⟨hof, ?_, ?_, ?_⟩
      · show grown.bytes ++ grown.spare = _
        rw [hbytes, spare_of_grow hgrow, ← List.append_assoc, h.storage_eq]
      · show grown.size = watch.mark
        rw [← length_bytes, hbytes, length_bytes, h.size_eq]
      · show grown.capacity = capacity + (watch.steps + 1) * p.growth
        rw [hcapacity, h.capacity_eq, h.isOf.growth_eq, Nat.succ_mul, Nat.add_assoc]
  | clear =>
    refine ⟨h.isOf.clear, ?_, rfl, h.capacity_eq⟩
    show watch.scratch.clear.bytes ++ watch.scratch.clear.spare = watch.storage
    rw [bytes_clear, spare_clear, List.nil_append, h.storage_eq]

theorem actAll (actions : List Action) : (watch.actAll actions).Stands p capacity := by
  induction actions generalizing watch with
  | nil => exact h
  | cons action actions ih => exact ih (h.act action)

end Stands

end Watch

/-- Whatever is done with a scratch buffer, its filled part and its free part make up one storage, and the mark lies
between them: so what is written goes behind the mark only, growing puts one step of zeros behind everything, and the
mark moves without any byte being touched, up to the capacity at most.  The capacity is that at first and one step
for each time it has grown.  Making a buffer and growing fail just when the capacity that is asked for, which is a
size, exceeds the limit, or else when it exceeds every block of memory, and the buffer that a failed growth gives
back is the old one.  Freezing gives the bytes before the mark. -/
theorem stands_for_storage (capacity : Nat) (p : Pool) :
    (∀ e, ofCapacity? capacity p = .error e ↔ p.Refuses capacity capacity capacity e) ∧
      ∀ b, ofCapacity? capacity p = .ok b → ∀ actions,
        let watch := (Watch.start b).actAll actions
        let now := watch.scratch
        let asked := Size.add now.capacity p.growth
        now.bytes ++ now.spare = watch.storage ∧ now.bytes = watch.storage.take watch.mark ∧
          now.spare = watch.storage.drop watch.mark ∧ now.size = watch.mark ∧ now.size ≤ now.capacity ∧
          now.capacity = watch.storage.length ∧ now.capacity = capacity + watch.steps * p.growth ∧
          now.capacity ≤ p.limit ∧ (∀ e, now.grow = .error e ↔ p.Refuses asked asked p.growth e) ∧
          (∀ e, now.grow = .error e → now.tryGrow = (.error e, now) ∧ watch.act .grow = watch) ∧
          (∀ grown, now.grow = .ok grown → now.tryGrow = (.ok (), grown) ∧
            grown.bytes = now.bytes ∧ grown.spare = now.spare ++ List.replicate p.growth 0) ∧
          now.freeze = watch.storage.take watch.mark := by
  refine ⟨fun e => ofCapacity?_eq_error_iff, fun b hb actions => ?_⟩
  intro watch now asked
  have h : watch.Stands p capacity := (Watch.stands_start hb).actAll actions
  refine ⟨h.storage_eq, h.bytes_eq, h.spare_eq, h.size_eq, now.size_le, h.length_storage.symm, h.capacity_eq,
    h.isOf.capacity_le, fun e => grow_eq_error_iff h.isOf,
    fun e he => ⟨tryGrow_of_error he, Watch.act_grow_of_error he⟩, fun grown hgrown => ?_,
    now.freeze_eq.trans h.bytes_eq⟩
  refine ⟨tryGrow_of_ok hgrown, (h.isOf.of_grow hgrown).2.1, ?_⟩
  rw [spare_of_grow hgrown, h.isOf.growth_eq]

/-- Three bytes that grow in steps of four up to eleven.  Two bytes are written and count, then one is written behind
a gap, and all are counted.  When the mark has been put back and another step made, the buffer is full size: one
step more would be too many, and the buffer stays as it is.  Of its storage the first six bytes are frozen. -/
theorem stands_for_storage_full :
    let p : Pool := ⟨⟨4, 1024, 50, 3, 11, by decide, by decide⟩, ⟨1000⟩⟩
    let b : Scratch := ⟨#[], [], 3, 4, 11, ⟨1000⟩, by decide, by decide, by decide⟩
    let actions : List Action :=
      [.write 0 [1, 2], .advance 2, .grow, .write 2 [3], .advance 18446744073709551615, .clear, .grow, .advance 6]
    let watch := (Watch.start b).actAll actions
    ofCapacity? 3 p = .ok b ∧ watch.storage = [1, 2, 0, 0, 3, 0, 0, 0, 0, 0, 0] ∧
      watch.scratch.bytes = [1, 2, 0, 0, 3, 0] ∧ watch.scratch.spare = [0, 0, 0, 0, 0] ∧
      watch.scratch.capacity = 3 + 2 * 4 ∧ watch.scratch.tryGrow = (.error (.overLimit 15 11), watch.scratch) ∧
      watch.scratch.freeze = [1, 2, 0, 0, 3, 0] := by
  intro p b actions
  have hb : ofCapacity? 3 p = .ok b := rfl
  have hstorage : ((Watch.start b).actAll actions).storage = [1, 2, 0, 0, 3, 0, 0, 0, 0, 0, 0] := by decide +kernel
  have hmark : ((Watch.start b).actAll actions).mark = 6 := by decide +kernel
  have hsteps : ((Watch.start b).actAll actions).steps = 2 := by decide +kernel
  obtain ⟨-, hrun⟩ := stands_for_storage 3 p
  obtain ⟨-, hbytes, hspare, -, -, -, hcapacity, -, hfails, hkept, -, hfreeze⟩ := hrun b hb actions
  rw [hsteps] at hcapacity
  rw [hstorage, hmark] at hbytes hspare hfreeze
  rw [hcapacity] at hfails
  have hover := (hfails (.overLimit 15 11)).2 (.overLimit (by decide))
  exact ⟨hb, hstorage, hbytes, hspare, hcapacity, (hkept _ hover).1, hfreeze⟩

end Scratch

end SecureStream
