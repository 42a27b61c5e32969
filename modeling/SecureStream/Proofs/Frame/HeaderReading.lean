import SecureStream.Frame.HeaderReader

/-!
# What a header reader has read

A reader keeps numbers and not the bytes from which they came.  `HasRead r w` says that `r` is a reader that
has taken exactly the bytes `w` since it was fresh.  Feeding a reader takes from a piece just the bytes that
are missing, and no more, so the pieces may be cut anywhere (`NumberReader.HasRead.feed`,
`HeaderReader.HasRead.feed`). A reader is complete exactly when it has read nine bytes, and what it gives
then is the header that `Header.read?` finds in them.

The block in the middle of a header is read into a storage of its own, with zeros behind what has been read
(`BlockReader.IsClean`), so the bytes that were read determine this storage, too.
-/

namespace SecureStream

/-! ### Headers as nine bytes -/

namespace Header

/-- The header that stands in nine bytes: three are the length, one each are kind and flags, and four are the
stream id, of which the top bit does not count. -/
def ofParts (a b c kind flags s t u v : UInt8) : Header where
  length := 65536 * a.toNat + 256 * b.toNat + c.toNat
  kind := kind
  flags := flags
  streamId := 16777216 * (s.toNat % 128) + 65536 * t.toNat + 256 * u.toNat + v.toNat
  length_le := by
    have ha := a.toNat_lt
    have hb := b.toNat_lt
    have hc := c.toNat_lt
    simp only [longestPayload]
    omega
  streamId_lt := by
    have ht := t.toNat_lt
    have hu := u.toNat_lt
    have hv := v.toNat_lt
    simp only [streamIds]
    omega

/-- The header at the front of a stream, if its nine bytes are there, and what follows it. -/
def read? : Bytes → Option (Header × Bytes)
  | a :: b :: c :: kind :: flags :: s :: t :: u :: v :: rest => some (ofParts a b c kind flags s t u v, rest)
  | _ => none

/-- A header made of its fields when they have been read one after the other. -/
theorem ofFields_eq_ofParts (a b c kind flags s t u v : UInt8) :
    ofFields (Bytes.ofBigEndian [a, b, c]) kind flags (Bytes.ofBigEndian [s, t, u, v]) =
      ofParts a b c kind flags s t u v := by
  have ha := a.toNat_lt
  have hb := b.toNat_lt
  have hc := c.toNat_lt
  have ht := t.toNat_lt
  have hu := u.toNat_lt
  have hv := v.toNat_lt
  simp only [ofFields, ofLength, ofParts, Header.mk.injEq, true_and, Bytes.ofBigEndian, List.foldl_cons,
    List.foldl_nil, longestPayload, streamIds]
  constructor <;> omega

theorem read?_eq_some {bytes rest : Bytes} {h : Header} (hread : read? bytes = some (h, rest)) :
    ∃ front, front.length = size ∧ bytes = front ++ rest ∧ ∀ more,
      read? (front ++ more) = some (h, more) := by
  unfold read? at hread
  split at hread
  · next a b c kind flags s t u v _ =>
    obtain ⟨rfl, rfl⟩ := Prod.mk.inj (Option.some.inj hread)
    exact ⟨[a, b, c, kind, flags, s, t, u, v], rfl, rfl, fun _ => rfl⟩
  · cases hread

theorem length_of_read? {bytes rest : Bytes} {h : Header} (hread : read? bytes = some (h, rest)) :
    bytes.length = size + rest.length := by
  obtain ⟨front, hfront, rfl, -⟩ := read?_eq_some hread
  rw [List.length_append, hfront]

theorem read?_eq_none_iff {bytes : Bytes} : read? bytes = none ↔ bytes.length < size := by
  constructor
  · intro h
    rcases bytes with _ | ⟨_, _ | ⟨_, _ | ⟨_, _ | ⟨_, _ | ⟨_, _ | ⟨_, _ | ⟨_, _ | ⟨_, _ | ⟨_, _⟩⟩⟩⟩⟩⟩⟩⟩⟩
    case cons.cons.cons.cons.cons.cons.cons.cons.cons => cases h
    all_goals simp [size]
  · intro h
    cases hread : read? bytes with
    | none => rfl
    | some found =>
      have := length_of_read? hread
      omega

end Header

/-! ### Numbers -/

namespace NumberReader

/-- The number was read from exactly the bytes `w`. -/
structure HasRead (r : NumberReader) (w : Bytes) : Prop where
  remaining_add : r.remaining + w.length = r.width
  toNat_soFar : r.soFar.toNat = Bytes.ofBigEndian w

theorem hasRead_ofWidth {width : Nat} (hpos : 0 < width) (hle : width ≤ 4) :
    (ofWidth width hpos hle).HasRead [] :=
  ⟨rfl, rfl⟩

theorem HasRead.isComplete_iff {r : NumberReader} {w : Bytes} (h : r.HasRead w) :
    r.isComplete ↔ w.length = r.width := by
  have := h.remaining_add
  simp only [isComplete, beq_iff_eq]
  omega

theorem HasRead.isFresh_iff {r : NumberReader} {w : Bytes} (h : r.HasRead w) : r.isFresh ↔ w = [] := by
  have := h.remaining_add
  simp only [isFresh, beq_iff_eq, ← List.length_eq_zero_iff]
  omega

/-- A number with a free byte in front loses no bit when it is shifted by a byte. -/
theorem toNat_shift {n : UInt32} (h : n.toNat < 16777216) : (n <<< 8).toNat = 256 * n.toNat := by
  rw [UInt32.toNat_shiftLeft, show (8 : UInt32).toNat % 32 = 8 from rfl, Nat.shiftLeft_eq, Nat.mul_comm]
  exact Nat.mod_eq_of_lt (by omega)

/-- A byte behind a number that leaves room for it. -/
private theorem toNat_shift_or {n : UInt32} (b : UInt8) (h : n.toNat < 16777216) :
    (n <<< 8 ||| b.toUInt32).toNat = 256 * n.toNat + b.toNat := by
  have hb := b.toNat_lt
  have hshift : 256 * n.toNat = n.toNat <<< 8 := by rw [Nat.shiftLeft_eq, Nat.mul_comm]
  rw [UInt32.toNat_or, toNat_shift h, UInt8.toNat_toUInt32, hshift, ← Nat.shiftLeft_add_eq_or_of_lt (by omega)]

/-- A number that is not complete leaves room for one more byte. -/
theorem HasRead.soFar_lt {r : NumberReader} {w : Bytes} (h : r.HasRead w) (hr : ¬ r.isComplete) :
    r.soFar.toNat < 16777216 := by
  have hlength := h.remaining_add
  have hwidth := r.width_le
  have hmissing : r.remaining ≠ 0 := by simpa [isComplete] using hr
  have hlt := Bytes.ofBigEndian_lt w
  have hbound : Bytes.bound w.length ≤ 16777216 := Bytes.bound_le (n := 3) (by omega)
  rw [h.toNat_soFar]
  omega

theorem HasRead.push {r : NumberReader} {w : Bytes} (h : r.HasRead w) (b : UInt8) (hr : ¬ r.isComplete) :
    (r.push b).HasRead (w ++ [b]) := by
  have hlength := h.remaining_add
  have hmissing : r.remaining ≠ 0 := by simpa [isComplete] using hr
  refine ⟨?_, ?_⟩
  · simp only [NumberReader.push, List.length_append, List.length_singleton]
    omega
  · simp only [NumberReader.push]
    rw [toNat_shift_or b (h.soFar_lt hr), h.toNat_soFar, Bytes.ofBigEndian_append]
    simp only [Bytes.ofBigEndian, List.foldl, List.length_singleton, Bytes.bound]
    omega

theorem HasRead.feed {r : NumberReader} {w : Bytes} (h : r.HasRead w) (bytes : Bytes) :
    (r.feed bytes).1.HasRead (w ++ bytes.take r.remaining) ∧ (r.feed bytes).1.width = r.width ∧
      (r.feed bytes).2 = bytes.drop r.remaining := by
  -- byte by byte until the number is complete, after which nothing is taken
  induction bytes generalizing r w with
  | nil => simpa [NumberReader.feed] using h
  | cons b bytes ih =>
    rw [NumberReader.feed]
    by_cases hr : r.isComplete
    · have hzero : r.remaining = 0 := by simpa [isComplete] using hr
      simpa [hr, hzero] using h
    · have hsucc : r.remaining = (r.push b).remaining + 1 := by
        simp only [isComplete, beq_iff_eq] at hr
        simp only [NumberReader.push]
        omega
      obtain ⟨hread, hwidth, hleft⟩ := ih (h.push b hr)
      rw [if_neg hr, hsucc, List.take_succ_cons, List.drop_succ_cons]
      refine ⟨?_, hwidth, hleft⟩
      rw [List.append_assoc] at hread
      exact hread

end NumberReader

/-! ### Blocks -/

namespace BlockReader

variable {size : Nat} {r r' : BlockReader size}

/-- Behind the mark there is nothing but zeros: no block has been read before this one. -/
def IsClean (r : BlockReader size) : Prop := r.storage = r.held ++ List.replicate (size - r.filled) 0

theorem isClean_empty : (empty : BlockReader size).IsClean := rfl

private theorem overwrite_zeros {n : Nat} {bytes : Bytes} (h : bytes.length ≤ n) :
    Bytes.overwrite (List.replicate n 0) 0 bytes = bytes ++ List.replicate (n - bytes.length) 0 := by
  rw [Bytes.overwrite_of_fits (by simpa using h), Nat.zero_add, List.take_zero, List.nil_append, List.drop_replicate]

theorem IsClean.feed (h : r.IsClean) (bytes : Bytes) : (r.feed bytes).1.IsClean := by
  have hfits : (bytes.take (size - r.filled)).length ≤ size - r.filled := by
    rw [List.length_take]
    exact Nat.min_le_left _ _
  -- what is read takes the place of as many zeros
  have hwritten := Bytes.overwrite_append r.held (List.replicate (size - r.filled) 0) 0 (bytes.take (size - r.filled))
  rw [← show r.storage = _ from h, Nat.add_zero, length_held, overwrite_zeros hfits] at hwritten
  rw [IsClean, storage_feed, feed_fst_held, filled_feed, length_held, hwritten, Nat.sub_sub, List.append_assoc]

/-- What has been read determines a clean reader. -/
theorem IsClean.unique (h : r.IsClean) (h' : r'.IsClean) (hheld : r.held = r'.held) : r = r' := by
  have hfilled : r.filled = r'.filled := by rw [← length_held, ← length_held, hheld]
  refine BlockReader.ext ?_ hfilled
  rw [h, h', hheld, hfilled]

end BlockReader

/-! ### Headers -/

namespace HeaderReader

/-- The reader has taken exactly the bytes `w` since it was fresh: whole fields, and a part of the field it
is in. -/
def HasRead : HeaderReader → Bytes → Prop
  | .inLength number, w => number.width = 3 ∧ number.HasRead w ∧ w.length < 3
  | .inKindFlags length block, w =>
    ∃ u, w = u ++ block.held ∧ u.length = 3 ∧ length = Bytes.ofBigEndian u ∧ block.held.length < 2 ∧ block.IsClean
  | .inStreamId length kind flags number, w =>
    ∃ u v, w = u ++ kind :: flags :: v ∧ u.length = 3 ∧ length = Bytes.ofBigEndian u ∧ number.width = 4 ∧
      number.HasRead v ∧ v.length < 4
  | .complete header, w => Header.read? w = some (header, [])

theorem hasRead_start : start.HasRead [] := ⟨rfl, NumberReader.hasRead_ofWidth _ _, by decide⟩

/-- The header that a reader completes is the one that stands in the bytes that it has read. -/
private theorem read?_parts {u v : Bytes} (hu : u.length = 3) (hv : v.length = 4) (kind flags : UInt8) :
    Header.read? (u ++ kind :: flags :: v) =
      some (Header.ofFields (Bytes.ofBigEndian u) kind flags (Bytes.ofBigEndian v), []) := by
  match u, v, hu, hv with
  | [a, b, c], [s, t, u, v], _, _ =>
    rw [Header.ofFields_eq_ofParts]
    rfl

private theorem hasRead_feedStreamId (kind flags : UInt8) {number : NumberReader} {u v : Bytes}
    (hu : u.length = 3) (hwidth : number.width = 4) (hv : number.HasRead v) (bytes : Bytes) :
    (feedStreamId (Bytes.ofBigEndian u) kind flags number bytes).1.HasRead
        (u ++ kind :: flags :: (v ++ bytes.take (4 - v.length))) ∧
      (feedStreamId (Bytes.ofBigEndian u) kind flags number bytes).2 = bytes.drop (4 - v.length) := by
  obtain ⟨hread, hsame, hleft⟩ := hv.feed bytes
  have hmissing : number.remaining = 4 - v.length := by have := hv.remaining_add; omega
  rw [hmissing] at hread hleft
  have hcomplete := hread.isComplete_iff
  rw [hsame, hwidth] at hcomplete
  unfold feedStreamId
  dsimp only
  split
  · next h =>
    refine ⟨?_, hleft⟩
    show Header.read? _ = some (_, [])
    rw [read?_parts hu (hcomplete.1 h), hread.toNat_soFar]
  · next h =>
    refine ⟨⟨u, _, rfl, hu, rfl, hsame.trans hwidth, hread, ?_⟩, hleft⟩
    have hshort : (v ++ bytes.take (4 - v.length)).length ≠ 4 := fun hfull => h (hcomplete.2 hfull)
    have := hread.remaining_add
    omega

private theorem hasRead_feedKindFlags {block : BlockReader 2} (hclean : block.IsClean) {u : Bytes}
    (hu : u.length = 3) (bytes : Bytes) :
    (feedKindFlags (Bytes.ofBigEndian u) block bytes).1.HasRead
        (u ++ (block.held ++ bytes.take (6 - block.held.length))) ∧
      (feedKindFlags (Bytes.ofBigEndian u) block bytes).2 = bytes.drop (6 - block.held.length) := by
  have hle := block.held_le
  have hlength := (block.feed bytes).1.held_le
  simp only [BlockReader.feed_fst_held] at hlength
  unfold feedKindFlags
  dsimp only
  rw [BlockReader.feed_fst_held, BlockReader.feed_snd]
  split
  · next kind flags hheld =>
    obtain ⟨hread, hleft⟩ := hasRead_feedStreamId kind flags (v := []) hu rfl
      (NumberReader.hasRead_ofWidth (by decide) (by decide)) (bytes.drop (2 - block.held.length))
    have hsum : 6 - block.held.length = (2 - block.held.length) + 4 := by omega
    rw [hsum, List.take_add, ← List.append_assoc block.held, hheld]
    refine ⟨hread, ?_⟩
    rw [hleft, List.drop_drop]
    rfl
  · next hshort =>
    have hne : (block.held ++ bytes.take (2 - block.held.length)).length ≠ 2 := by
      intro htwo
      match h : block.held ++ bytes.take (2 - block.held.length), htwo with
      | [kind, flags], _ => exact hshort kind flags h
    have hall : ∀ n, 2 - block.held.length ≤ n → bytes.take n = bytes ∧ bytes.drop n = [] := by
      intro n hn
      simp only [List.length_append, List.length_take] at hne hlength
      exact ⟨List.take_of_length_le (by omega), List.drop_of_length_le (by omega)⟩
    rw [(hall _ (Nat.le_refl _)).2, (hall (6 - block.held.length) (by omega)).2, (hall (6 - _) (by omega)).1]
    refine ⟨⟨u, ?_, hu, rfl, ?_, hclean.feed bytes⟩, rfl⟩
    · rw [BlockReader.feed_fst_held, (hall _ (Nat.le_refl _)).1]
    · rw [BlockReader.feed_fst_held]
      omega

private theorem hasRead_feedLength {number : NumberReader} {w : Bytes} (hwidth : number.width = 3)
    (hw : number.HasRead w) (bytes : Bytes) :
    (feedLength number bytes).1.HasRead (w ++ bytes.take (9 - w.length)) ∧
      (feedLength number bytes).2 = bytes.drop (9 - w.length) := by
  obtain ⟨hread, hsame, hleft⟩ := hw.feed bytes
  have hmissing : number.remaining = 3 - w.length := by have := hw.remaining_add; omega
  have hle : w.length ≤ 3 := by have := hw.remaining_add; omega
  rw [hmissing] at hread hleft
  have hcomplete := hread.isComplete_iff
  rw [hsame, hwidth] at hcomplete
  have hnext := hread.remaining_add
  unfold feedLength
  dsimp only
  split
  · next h =>
    have hfull := hcomplete.1 h
    obtain ⟨hrest, hdrop⟩ := hasRead_feedKindFlags BlockReader.isClean_empty hfull (bytes.drop (3 - w.length))
    have hsum : 9 - w.length = (3 - w.length) + 6 := by omega
    rw [hleft, hread.toNat_soFar, hsum, List.take_add, ← List.append_assoc]
    refine ⟨hrest, ?_⟩
    rw [hdrop, List.drop_drop]
    rfl
  · next h =>
    have hne : (w ++ bytes.take (3 - w.length)).length ≠ 3 := fun hfull => h (hcomplete.2 hfull)
    have hall : ∀ n, 3 - w.length ≤ n → bytes.take n = bytes ∧ bytes.drop n = [] := by
      intro n hn
      simp only [List.length_append, List.length_take] at hne
      exact ⟨List.take_of_length_le (by omega), List.drop_of_length_le (by omega)⟩
    rw [(hall _ (Nat.le_refl _)).1] at hread hnext hne
    rw [hleft, (hall _ (Nat.le_refl _)).2,
      (hall (9 - w.length) (by omega)).2, (hall (9 - w.length) (by omega)).1]
    exact ⟨⟨hsame.trans hwidth, hread, by omega⟩, rfl⟩

/-- A reader never has more than the nine bytes of a header. -/
theorem HasRead.length_le {r : HeaderReader} {w : Bytes} (h : r.HasRead w) : w.length ≤ Header.size := by
  cases r with
  | inLength number =>
    have := h.2.2
    simp only [Header.size]
    omega
  | inKindFlags length block =>
    obtain ⟨u, rfl, hu, -, hblock, -⟩ := h
    simp only [List.length_append, Header.size]
    omega
  | inStreamId length kind flags number =>
    obtain ⟨u, v, rfl, hu, -, -, -, hv⟩ := h
    simp only [List.length_append, List.length_cons, Header.size]
    omega
  | complete header => exact Nat.le_of_eq (Header.length_of_read? h)

/-- Feeding takes from the front of a piece exactly the bytes that are missing. -/
theorem HasRead.feed {r : HeaderReader} {w : Bytes} (h : r.HasRead w) (bytes : Bytes) :
    (r.feed bytes).1.HasRead (w ++ bytes.take (Header.size - w.length)) ∧
      (r.feed bytes).2 = bytes.drop (Header.size - w.length) := by
  cases r with
  | inLength number => exact hasRead_feedLength h.1 h.2.1 bytes
  | inKindFlags length block =>
    obtain ⟨u, rfl, hu, rfl, hblock, hclean⟩ := h
    have hmissing : Header.size - (u ++ block.held).length = 6 - block.held.length := by
      simp only [List.length_append, Header.size]
      omega
    rw [hmissing, List.append_assoc]
    exact hasRead_feedKindFlags hclean hu bytes
  | inStreamId length kind flags number =>
    obtain ⟨u, v, rfl, hu, rfl, hwidth, hread, -⟩ := h
    have hmissing : Header.size - (u ++ kind :: flags :: v).length = 4 - v.length := by
      simp only [List.length_append, List.length_cons, Header.size]
      omega
    rw [hmissing, List.append_assoc]
    exact hasRead_feedStreamId kind flags hu hwidth hread bytes
  | complete header =>
    have hfull : w.length = Header.size := Header.length_of_read? h
    rw [hfull, Nat.sub_self, List.take_zero, List.append_nil]
    exact ⟨h, rfl⟩

theorem HasRead.header?_eq {r : HeaderReader} {w : Bytes} (h : r.HasRead w) :
    r.header? = (Header.read? w).map Prod.fst := by
  have hshort : w.length < Header.size → Header.read? w = none := Header.read?_eq_none_iff.2
  cases r with
  | inLength number =>
    rw [hshort (Nat.lt_of_lt_of_le h.2.2 (by decide))]
    rfl
  | inKindFlags length block =>
    obtain ⟨u, rfl, hu, -, hblock, -⟩ := h
    rw [hshort (by simp only [List.length_append, Header.size]; omega)]
    rfl
  | inStreamId length kind flags number =>
    obtain ⟨u, v, rfl, hu, -, -, -, hv⟩ := h
    rw [hshort (by simp only [List.length_append, List.length_cons, Header.size]; omega)]
    rfl
  | complete header => rw [show Header.read? w = some (header, []) from h]; rfl

def taken : HeaderReader → Nat
  | .inLength number => number.width - number.remaining
  | .inKindFlags _ block => 3 + block.held.length
  | .inStreamId _ _ _ number => 5 + (number.width - number.remaining)
  | .complete _ => Header.size

theorem HasRead.taken_eq {r : HeaderReader} {w : Bytes} (h : r.HasRead w) : r.taken = w.length := by
  cases r with
  | inLength number =>
    have := h.2.1.remaining_add
    simp only [taken]
    omega
  | inKindFlags length block =>
    obtain ⟨u, rfl, hu, -⟩ := h
    simp only [taken, List.length_append]
    omega
  | inStreamId length kind flags number =>
    obtain ⟨u, v, rfl, hu, -, -, hread, -⟩ := h
    have := hread.remaining_add
    simp only [taken, List.length_append, List.length_cons]
    omega
  | complete header => exact (Header.length_of_read? h).symm

theorem HasRead.isIdle_iff {r : HeaderReader} {w : Bytes} (h : r.HasRead w) : r.isIdle ↔ w = [] := by
  cases r with
  | inLength number => exact h.2.1.isFresh_iff
  | inKindFlags length block =>
    obtain ⟨u, rfl, hu, -⟩ := h
    have hne : u ≠ [] := List.ne_nil_of_length_pos (by omega)
    simp [isIdle, hne]
  | inStreamId length kind flags number =>
    obtain ⟨u, v, rfl, -, -, -, -, -⟩ := h
    simp [isIdle]
  | complete header =>
    have hne : w ≠ [] := by
      rintro rfl
      cases h
    simp [isIdle, hne]

end HeaderReader

end SecureStream
