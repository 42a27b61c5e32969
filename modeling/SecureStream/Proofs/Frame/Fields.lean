import Mathlib.Algebra.GroupWithZero.Nat
import SecureStream.Proofs.Frame.HeaderReading

/-!
# Readers of single fields

A field of a header is a number or a block of bytes.  The readers of both have the same operations
(`FieldReader`), and a `Watch` is such a reader together with the bytes that it has accepted since the last reset.
These bytes are read off the buffers, as those that are gone from them afterwards.

* (a) The segments of a buffer are read as if they were one piece (`FieldReader.feedAll_eq`), because a piece may be
  cut anywhere.
* (b) The invariant is that the reader stands for the bytes that it has accepted.  One step keeps it if feeding takes
  just the bytes that the field still lacks (`FieldReader.Tracks`), and then so does a run (`Tracks.actAll`).
* (c) A number stands for its bytes through `NumberReader.HasRead`, a block through the part of its storage in front
  of the mark.  What stands behind the mark plays no part in (b), so bytes of earlier blocks may be there.
-/

namespace SecureStream

theorem Bytes.bound_eq_pow (n : Nat) : bound n = 256 ^ n := by
  induction n with
  | zero => rfl
  | succ n ih => rw [bound, ih, Nat.pow_succ, Nat.mul_comm]

/-- What the readers of numbers and of blocks have in common. -/
structure FieldReader (R V : Type) where
  feed : R → Bytes → R × Bytes
  /-- What feeding reports. -/
  isComplete : R → Bool
  value? : R → Option V
  reset : R → R
  feed_nil : ∀ r, feed r [] = (r, [])
  feed_append : ∀ r a b, feed r (a ++ b) =
    let (r', left) := feed r a; if left.isEmpty then feed r' b else (r', left ++ b)

namespace FieldReader

def numbers : FieldReader NumberReader UInt32 where
  feed := NumberReader.feed
  isComplete := NumberReader.isComplete
  value? := NumberReader.value?
  reset := NumberReader.reset
  feed_nil _ := rfl
  feed_append := NumberReader.feed_append

def blocks (size : Nat) : FieldReader (BlockReader size) Bytes where
  feed := BlockReader.feed
  isComplete := BlockReader.isComplete
  value? := BlockReader.value?
  reset := BlockReader.reset
  feed_nil r := by
    refine Prod.ext (BlockReader.ext ?_ ?_) ?_
    · simp [BlockReader.storage_feed, Bytes.overwrite]
    · simp [BlockReader.filled_feed]
    · simp
  feed_append := BlockReader.feed_append

variable {R V : Type} (f : FieldReader R V)

/-! ### Buffers -/

/-- Reads from the front of a buffer, segment by segment, and returns what it leaves of the segments. -/
def feedAll (r : R) : List Bytes → R × List Bytes
  | [] => (r, [])
  | segment :: segments =>
    let (r, left) := f.feed r segment
    if left.isEmpty then feedAll r segments else (r, left :: segments)

/-- The segments of a buffer are read as if they were one piece. -/
theorem feedAll_eq (r : R) (segments : List Bytes) :
    (f.feedAll r segments).1 = (f.feed r segments.flatten).1 ∧
      (f.feedAll r segments).2.flatten = (f.feed r segments.flatten).2 := by
  induction segments generalizing r with
  | nil =>
    rw [List.flatten_nil, f.feed_nil]
    exact ⟨rfl, rfl⟩
  | cons segment segments ih =>
    rw [feedAll, List.flatten_cons, f.feed_append]
    dsimp only
    split
    · exact ih _
    · exact ⟨rfl, rfl⟩

/-! ### Readers at work -/

/-- What is done with a reader. -/
inductive Action where
  | feed (segments : List Bytes)
  | reset

/-- A reader at work. -/
structure Watch (R : Type) where
  reader : R
  /-- The bytes accepted since the last reset. -/
  accepted : Bytes

def act (watch : Watch R) : Action → Watch R
  | .feed segments =>
    let (reader, left) := f.feedAll watch.reader segments
    -- the bytes that are gone from the buffer
    let accepted := segments.flatten.take (segments.flatten.length - left.flatten.length)
    ⟨reader, watch.accepted ++ accepted⟩
  | .reset => ⟨f.reset watch.reader, []⟩

def actAll (watch : Watch R) (actions : List Action) : Watch R := actions.foldl f.act watch

/-- A relation of readers to the bytes that they stand for is kept by everything that is done with a reader, and
feeding takes from a piece just the bytes that a field of this size still lacks. -/
structure Tracks (size : Nat) (HasRead : R → Bytes → Prop) : Prop where
  length_le : ∀ {r w}, HasRead r w → w.length ≤ size
  feed : ∀ {r w}, HasRead r w → ∀ bytes, HasRead (f.feed r bytes).1 (w ++ bytes.take (size - w.length)) ∧
    (f.feed r bytes).2 = bytes.drop (size - w.length)
  reset : ∀ {r w}, HasRead r w → HasRead (f.reset r) []
  isComplete_iff : ∀ {r w}, HasRead r w → (f.isComplete r ↔ w.length = size)
  isSome_value?_iff : ∀ {r w}, HasRead r w → ((f.value? r).isSome ↔ w.length = size)

/-- A reader of a field follows the bytes that it has accepted: from a buffer it takes just those bytes, from the
front, that the field still lacks, and it is complete and has a value when it lacks none. -/
structure Follows (size : Nat) (watch : Watch R) : Prop where
  length_le : watch.accepted.length ≤ size
  left_eq : ∀ segments : List Bytes, (f.feedAll watch.reader segments).2.flatten =
    segments.flatten.drop (min (size - watch.accepted.length) segments.flatten.length)
  accepted_feed : ∀ segments : List Bytes, (f.act watch (.feed segments)).accepted =
    watch.accepted ++ segments.flatten.take (min (size - watch.accepted.length) segments.flatten.length)
  isComplete_feed : ∀ segments : List Bytes, f.isComplete (f.feedAll watch.reader segments).1 ↔
    (f.act watch (.feed segments)).accepted.length = size
  isComplete_iff : f.isComplete watch.reader ↔ watch.accepted.length = size
  isSome_value?_iff : (f.value? watch.reader).isSome ↔ watch.accepted.length = size

namespace Tracks

variable {f} {size : Nat} {HasRead : R → Bytes → Prop} (h : f.Tracks size HasRead) {watch : Watch R}

include h

theorem left_feedAll {r : R} {w : Bytes} (hr : HasRead r w) (segments : List Bytes) :
    (f.feedAll r segments).2.flatten = segments.flatten.drop (min (size - w.length) segments.flatten.length) := by
  rw [(f.feedAll_eq r segments).2, (h.feed hr segments.flatten).2, ← List.drop_eq_drop_min]

theorem accepted_feed (hwatch : HasRead watch.reader watch.accepted) (segments : List Bytes) :
    (f.act watch (.feed segments)).accepted =
      watch.accepted ++ segments.flatten.take (min (size - watch.accepted.length) segments.flatten.length) := by
  have hgone : segments.flatten.length - (f.feedAll watch.reader segments).2.flatten.length =
      min (size - watch.accepted.length) segments.flatten.length := by
    rw [h.left_feedAll hwatch, List.length_drop]
    omega
  show watch.accepted ++ segments.flatten.take (_ - (f.feedAll watch.reader segments).2.flatten.length) = _
  rw [hgone]

theorem act (hwatch : HasRead watch.reader watch.accepted) (action : Action) :
    HasRead (f.act watch action).reader (f.act watch action).accepted := by
  cases action with
  | feed segments =>
    have hfed := (h.feed hwatch segments.flatten).1
    rw [← (f.feedAll_eq watch.reader segments).1, List.take_eq_take_min, ← h.accepted_feed hwatch] at hfed
    exact hfed
  | reset => exact h.reset hwatch

theorem actAll (hwatch : HasRead watch.reader watch.accepted) (actions : List Action) :
    HasRead (f.actAll watch actions).reader (f.actAll watch actions).accepted := by
  induction actions generalizing watch with
  | nil => exact hwatch
  | cons action actions ih => exact ih (h.act hwatch action)

theorem follows (hwatch : HasRead watch.reader watch.accepted) : f.Follows size watch where
  length_le := h.length_le hwatch
  left_eq := h.left_feedAll hwatch
  accepted_feed := h.accepted_feed hwatch
  isComplete_feed segments := h.isComplete_iff (h.act hwatch (.feed segments))
  isComplete_iff := h.isComplete_iff hwatch
  isSome_value?_iff := h.isSome_value?_iff hwatch

end Tracks

end FieldReader

/-! ### Numbers -/

namespace NumberReader

variable {r : NumberReader} {w : Bytes}

/-- A reader takes the bytes of a piece one by one. -/
theorem feed_fst_eq_foldl (r : NumberReader) (bytes : Bytes) :
    (r.feed bytes).1 = (bytes.take r.remaining).foldl push r := by
  induction bytes generalizing r with
  | nil => simp [feed]
  | cons b bytes ih =>
    rw [feed]
    by_cases hr : r.isComplete
    · have hzero : r.remaining = 0 := by simpa [isComplete] using hr
      rw [if_pos hr, hzero]
      rfl
    · have hsucc : r.remaining = (r.push b).remaining + 1 := by
        simp only [isComplete, beq_iff_eq] at hr
        simp only [push]
        omega
      rw [if_neg hr, hsucc, List.take_succ_cons, List.foldl_cons]
      exact ih _

theorem HasRead.remaining_eq (h : r.HasRead w) : r.remaining = r.width - w.length := by
  have := h.remaining_add
  omega

theorem HasRead.isSome_value?_iff (h : r.HasRead w) : r.value?.isSome ↔ w.length = r.width := by
  rw [← h.isComplete_iff, value?]
  by_cases hr : r.isComplete <;> simp [hr]

theorem soFar_of_value? {n : UInt32} (h : r.value? = some n) : r.soFar = n := by
  unfold value? at h
  split at h
  · exact Option.some.inj h
  · cases h

/-- From a buffer a reader takes the bytes that it lacks, one by one. -/
theorem HasRead.feedAll_fst (h : r.HasRead w) (segments : List Bytes) :
    (FieldReader.numbers.feedAll r segments).1 =
      (segments.flatten.take (r.width - w.length)).foldl NumberReader.push r := by
  rw [(FieldReader.numbers.feedAll_eq r segments).1, ← h.remaining_eq]
  exact r.feed_fst_eq_foldl segments.flatten

/-- A reader that still lacks a byte shifts no bit out of its number. -/
theorem HasRead.toNat_shift_foldl (h : r.HasRead w) {bytes : Bytes} (hfits : bytes.length < r.remaining) :
    ((bytes.foldl NumberReader.push r).soFar <<< 8).toNat = 256 * (bytes.foldl NumberReader.push r).soFar.toNat := by
  have hall : bytes.take r.remaining = bytes := List.take_of_length_le (Nat.le_of_lt hfits)
  have hadd := h.remaining_add
  obtain ⟨hread, hwidth, -⟩ := h.feed bytes
  rw [feed_fst_eq_foldl, hall] at hread hwidth
  have hpart : ¬ (bytes.foldl NumberReader.push r).isComplete := by
    rw [hread.isComplete_iff, hwidth, List.length_append]
    omega
  exact toNat_shift (hread.soFar_lt hpart)

/-- No byte that is taken shifts a bit out of the number in front of it. -/
theorem HasRead.toNat_shift_taken (h : r.HasRead w) {bytes front back : Bytes} {b : UInt8}
    (htaken : bytes.take (r.width - w.length) = front ++ b :: back) :
    ((front.foldl NumberReader.push r).soFar <<< 8).toNat = 256 * (front.foldl NumberReader.push r).soFar.toNat := by
  have hlength : (front ++ b :: back).length ≤ r.remaining := by
    rw [← htaken, ← h.remaining_eq, List.length_take]
    exact Nat.min_le_left _ _
  rw [List.length_append, List.length_cons] at hlength
  have hshort : front.length < r.remaining := by omega
  exact h.toNat_shift_foldl hshort

theorem tracks (width : Nat) : FieldReader.numbers.Tracks width fun r w => r.width = width ∧ r.HasRead w where
  length_le := by
    rintro r w ⟨rfl, h⟩
    have := h.remaining_add
    omega
  feed := by
    rintro r w ⟨rfl, h⟩ bytes
    obtain ⟨hread, hwidth, hleft⟩ := h.feed bytes
    rw [h.remaining_eq] at hread hleft
    exact ⟨⟨hwidth, hread⟩, hleft⟩
  reset := by
    rintro r w ⟨rfl, -⟩
    exact ⟨rfl, hasRead_ofWidth r.width_pos r.width_le⟩
  isComplete_iff := by
    rintro r w ⟨rfl, h⟩
    exact h.isComplete_iff
  isSome_value?_iff := by
    rintro r w ⟨rfl, h⟩
    exact h.isSome_value?_iff

end NumberReader

/-! ### Blocks -/

namespace BlockReader

variable {size : Nat} {r : BlockReader size}

theorem isComplete_iff : r.isComplete ↔ r.held.length = size := by
  rw [isComplete, beq_iff_eq, length_held]

/-- A block that has been read in full is the whole storage. -/
theorem held_of_isComplete (h : r.isComplete) : r.held = r.storage := by
  have hfull : r.filled = size := by simpa [isComplete] using h
  rw [held, hfull]
  exact List.take_of_length_le (Nat.le_of_eq r.length_storage)

theorem value?_eq : r.value? = if r.held.length = size then some r.held else none := by
  by_cases h : r.isComplete
  · rw [value?, if_pos h, if_pos (isComplete_iff.1 h), held_of_isComplete h]
  · rw [value?, if_neg h, if_neg (mt isComplete_iff.2 h)]

theorem array?_eq : r.array?.map Vector.toList = r.value? := by
  unfold array? value?
  split <;> rfl

theorem tracks (size : Nat) : (FieldReader.blocks size).Tracks size fun r w => r.held = w where
  length_le := by
    rintro r w rfl
    exact r.held_le
  feed := by
    rintro r w rfl bytes
    exact ⟨r.feed_fst_held bytes, r.feed_snd bytes⟩
  reset := by
    rintro r w rfl
    exact r.held_reset
  isComplete_iff := by
    rintro r w rfl
    exact isComplete_iff
  isSome_value?_iff := by
    rintro r w rfl
    show r.value?.isSome ↔ _
    rw [value?_eq]
    by_cases h : r.held.length = size <;> simp [h]

end BlockReader

/-- Whatever is done with the reader of a field, it follows the bytes `w` that it has accepted since the last reset.
A number lacks as many bytes as `w` is shorter than its width.  What it has read so far is the number that `w`
writes, which is below `256 ^ w.length`, and each byte of a buffer that it takes is put behind a number that is
shifted without losing a bit.  A block holds `w` and nothing else, even if its storage has served other blocks, and
its value and its array are `w` when `w` fills the storage. -/
theorem fields_follow_accepted (actions : List FieldReader.Action) :
    (∀ width (hpos : 0 < width) (hle : width ≤ 4),
      let start := NumberReader.ofWidth width hpos hle
      let watch := FieldReader.numbers.actAll ⟨start, []⟩ actions
      let now := watch.reader
      let w := watch.accepted
      NumberReader.ofWidth? width = .ok start ∧ FieldReader.numbers.Follows width watch ∧
        now.remaining = width - w.length ∧ now.soFar.toNat = Bytes.ofBigEndian w ∧
        Bytes.ofBigEndian w < 256 ^ w.length ∧ (∀ n, now.value? = some n → n.toNat = Bytes.ofBigEndian w) ∧
        ∀ segments : List Bytes,
          let taken := segments.flatten.take (width - w.length)
          (FieldReader.numbers.feedAll now segments).1 = taken.foldl NumberReader.push now ∧
            ∀ front b back, taken = front ++ b :: back →
              let before := (front.foldl NumberReader.push now).soFar
              let shifted := before <<< 8
              shifted.toNat = 256 * before.toNat) ∧
      ∀ size,
        let watch := (FieldReader.blocks size).actAll ⟨.empty, []⟩ actions
        let now := watch.reader
        let w := watch.accepted
        (FieldReader.blocks size).Follows size watch ∧ now.held = w ∧
          now.value? = (if w.length = size then some w else none) ∧
          now.array?.map Vector.toList = (if w.length = size then some w else none) := by
  refine ⟨fun width hpos hle => ?_, fun size => ?_⟩
  · intro start watch now w
    have htracks := NumberReader.tracks width
    have hstart : start.width = width ∧ start.HasRead [] := ⟨rfl, NumberReader.hasRead_ofWidth hpos hle⟩
    have hwatch : now.width = width ∧ now.HasRead w := htracks.actAll hstart actions
    obtain ⟨hwidth, hread⟩ := hwatch
    have hremaining : now.remaining = width - w.length := hread.remaining_eq.trans (by rw [hwidth])
    refine ⟨dif_pos ⟨hpos, hle⟩, htracks.follows ⟨hwidth, hread⟩, hremaining, hread.toNat_soFar, ?_, ?_, ?_⟩
    · rw [← Bytes.bound_eq_pow]
      exact Bytes.ofBigEndian_lt w
    · intro n hn
      rw [← NumberReader.soFar_of_value? hn]
      exact hread.toNat_soFar
    · intro segments taken
      have htaken : taken = segments.flatten.take (now.width - w.length) := by rw [hwidth]
      refine ⟨htaken ▸ hread.feedAll_fst segments, fun front b back hfront => ?_⟩
      exact hread.toNat_shift_taken (htaken.symm.trans hfront)
  · intro watch now w
    have htracks := BlockReader.tracks size
    have hheld : now.held = w := htracks.actAll BlockReader.held_empty actions
    have hvalue : now.value? = if w.length = size then some w else none := by rw [BlockReader.value?_eq, hheld]
    exact ⟨htracks.follows hheld, hheld, hvalue, BlockReader.array?_eq.trans hvalue⟩

/-- A number and a block of four bytes each, which are reset when they are complete and then read two bytes of the
next field.  The old bytes are still in the storage of the block, but not in what it holds.  From three more bytes
in two segments each of them takes two. -/
theorem fields_follow_accepted_reset_reread :
    let actions : List FieldReader.Action := [.feed [[1, 2, 3], [4, 5]], .reset, .feed [[], [9, 8]]]
    let number := FieldReader.numbers.actAll ⟨.ofWidth 4 (by decide) (by decide), []⟩ actions
    let block := (FieldReader.blocks 4).actAll ⟨.empty, []⟩ actions
    let next : FieldReader.Action := .feed [[7], [6, 5]]
    number.accepted = [9, 8] ∧ number.reader.remaining = 4 - 2 ∧
      number.reader.soFar.toNat = Bytes.ofBigEndian [9, 8] ∧ number.reader.value? = none ∧
      (FieldReader.numbers.act number next).accepted = [9, 8] ++ [7, 6] ∧
      block.reader.storage = [9, 8, 3, 4] ∧ block.reader.held = [9, 8] ∧ block.reader.value? = none ∧
      ((FieldReader.blocks 4).act block next).accepted = [9, 8] ++ [7, 6] := by
  intro actions number block next
  have hnumber : number.accepted = [9, 8] := by decide
  have hblock : block.accepted = [9, 8] := by decide
  obtain ⟨hnumbers, hblocks⟩ := fields_follow_accepted actions
  obtain ⟨-, hfollows, hremaining, hsoFar, -⟩ := hnumbers 4 (by decide) (by decide)
  obtain ⟨hfollows', hheld, hvalue, -⟩ := hblocks 4
  have hpart : number.accepted.length ≠ 4 := by rw [hnumber]; decide
  have hpart' : block.accepted.length ≠ 4 := by rw [hblock]; decide
  refine ⟨hnumber, hremaining.trans ?_, hsoFar.trans (congrArg _ hnumber), ?_, ?_, by decide, hheld.trans hblock,
    hvalue.trans (if_neg hpart'), ?_⟩
  · exact congrArg (4 - ·.length) hnumber
  · exact Option.not_isSome_iff_eq_none.1 (mt hfollows.isSome_value?_iff.1 hpart)
  · rw [hfollows.accepted_feed, show FieldReader.Watch.accepted _ = _ from hnumber]
    rfl
  · rw [hfollows'.accepted_feed, show FieldReader.Watch.accepted _ = _ from hblock]
    rfl

end SecureStream
