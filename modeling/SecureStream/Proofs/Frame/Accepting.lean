import Mathlib.Algebra.GroupWithZero.Nat
import SecureStream.Proofs.Frame.RoundTrip

/-!
# Header readers under any schedule

A `Watch` is a header reader together with the bytes that it has accepted since it was last fresh.  Three
things change it, in any order and as often as one likes: it reads from a buffer, it is reset, and its header
is taken out.  Asking it for its header, or whether it is idle or complete, changes nothing.

A buffer is a list of segments, any of which may be empty.  A reader goes through them in order
(`HeaderReader.feedAll`), and it makes no difference where one segment ends and the next begins
(`HasRead.feedAll_eq`).

What has been accepted is read off the buffers, as the bytes that are missing from them afterwards.  The
invariant is that the reader `HasRead` these bytes (`Watch.HasRead.actAll`), and they alone determine the
reader (`HasRead.unique`).
-/

namespace SecureStream

/-! ### The fields of a header in its nine bytes -/

namespace Header

/-- Where the fields of a header stand in the bytes that it is read from. -/
theorem fields_of_read? {w : Bytes} {h : Header} (hread : read? w = some (h, [])) :
    h.length = Bytes.ofBigEndian (w.take 3) ∧ w[3]? = some h.kind ∧ w[4]? = some h.flags ∧
      h.streamId = Bytes.ofBigEndian (w.drop 5) % streamIds := by
  unfold read? at hread
  split at hread
  · next a b c kind flags s t u v rest =>
    obtain ⟨rfl, rfl⟩ := Prod.mk.inj (Option.some.inj hread)
    rw [← ofFields_eq_ofParts]
    exact ⟨Nat.mod_eq_of_lt (Bytes.ofBigEndian_lt [a, b, c]), rfl, rfl, rfl⟩
  · cases hread

theorem toBytes_of_read?_nil {w : Bytes} {h : Header} (hread : read? w = some (h, [])) :
    h.toBytes = Frame.clearReserved w := by
  obtain ⟨front, rfl, hcleared⟩ := toBytes_of_read? hread
  simpa using (hcleared []).symm

theorem read?_toBytes (h : Header) : read? h.toBytes = some (h, []) := by
  simpa using h.read?_toBytes_append []

end Header

namespace HeaderReader

variable {r r' : HeaderReader} {w : Bytes}

/-! ### The bytes that were accepted determine the reader -/

private theorem number_unique {m n : NumberReader} (hwidth : m.width = n.width) (hm : m.HasRead w)
    (hn : n.HasRead w) : m = n := by
  have hremaining : m.remaining = n.remaining := by
    have := hm.remaining_add
    have := hn.remaining_add
    omega
  have hnumber : m.soFar = n.soFar := UInt32.toNat_inj.1 (hm.toNat_soFar.trans hn.toNat_soFar.symm)
  cases m
  cases n
  simp only at hwidth hremaining hnumber
  subst hwidth hremaining hnumber
  rfl

/-- The bytes of a header in front of the field that the reader is in. -/
private def before : HeaderReader → Nat
  | .inLength _ => 0
  | .inKindFlags _ _ => 3
  | .inStreamId _ _ _ _ => 5
  | .complete _ => 9

/-- The number of bytes says which field the reader is in. -/
private theorem HasRead.before_eq (h : r.HasRead w) :
    r.before = if w.length < 3 then 0 else if w.length < 5 then 3 else if w.length < 9 then 5 else 9 := by
  cases r with
  | inLength number => rw [if_pos h.2.2, before]
  | inKindFlags length block =>
    obtain ⟨u, rfl, hu, -, hblock, -⟩ := h
    rw [List.length_append, if_neg (by omega), if_pos (by omega), before]
  | inStreamId length kind flags number =>
    obtain ⟨u, v, rfl, hu, -, -, -, hv⟩ := h
    simp only [List.length_append, List.length_cons]
    rw [if_neg (by omega), if_neg (by omega), if_pos (by omega), before]
  | complete header =>
    have hfull : w.length = 9 := Header.length_of_read? h
    rw [if_neg (by omega), if_neg (by omega), if_neg (by omega), before]

theorem HasRead.unique (h : r.HasRead w) (h' : r'.HasRead w) : r = r' := by
  have hfield := h.before_eq.trans h'.before_eq.symm
  cases r <;> cases r' <;> cases hfield
  case inLength.inLength m n => rw [number_unique (h.1.trans h'.1.symm) h.2.1 h'.2.1]
  case inKindFlags.inKindFlags length block length' block' =>
    obtain ⟨u, rfl, hu, rfl, -, hclean⟩ := h
    obtain ⟨u', hsame, hu', rfl, -, hclean'⟩ := h'
    obtain ⟨rfl, hheld⟩ := List.append_inj hsame (hu.trans hu'.symm)
    rw [hclean.unique hclean' hheld]
  case inStreamId.inStreamId length kind flags m length' kind' flags' n =>
    obtain ⟨u, v, rfl, hu, rfl, hwidth, hm, -⟩ := h
    obtain ⟨u', v', hsame, hu', rfl, hwidth', hn, -⟩ := h'
    obtain ⟨rfl, hrest⟩ := List.append_inj hsame (hu.trans hu'.symm)
    cases hrest
    rw [number_unique (hwidth.trans hwidth'.symm) hm hn]
  case complete.complete header header' =>
    have hsame : some (header, ([] : Bytes)) = some (header', []) :=
      (show Header.read? w = _ from h).symm.trans h'
    cases hsame
    rfl

theorem HasRead.isComplete_iff (h : r.HasRead w) : r.isComplete ↔ w.length = Header.size := by
  have hle := h.length_le
  rw [isComplete, h.header?_eq, Option.isSome_map, Option.isSome_iff_ne_none, ne_eq, Header.read?_eq_none_iff]
  omega

theorem HasRead.read?_of_header? (h : r.HasRead w) {header : Header} (hheader : r.header? = some header) :
    Header.read? w = some (header, []) := by
  cases r <;> cases hheader
  exact h

theorem take_fst : r.take.1 = r.header? := by
  unfold take
  cases r.header? <;> rfl

/-! ### Buffers -/

/-- Reads from the front of a buffer, segment by segment, and returns what it leaves of the segments. -/
def feedAll (r : HeaderReader) : List Bytes → HeaderReader × List Bytes
  | [] => (r, [])
  | segment :: segments =>
    let (r, left) := r.feed segment
    if left.isEmpty then r.feedAll segments else (r, left :: segments)

theorem HasRead.feedAll (h : r.HasRead w) (segments : List Bytes) :
    (r.feedAll segments).1.HasRead (w ++ segments.flatten.take (Header.size - w.length)) ∧
      (r.feedAll segments).2.flatten = segments.flatten.drop (Header.size - w.length) := by
  induction segments generalizing r w with
  | nil => simpa [HeaderReader.feedAll] using h
  | cons segment segments ih =>
    obtain ⟨hfed, hleft⟩ := h.feed segment
    rw [HeaderReader.feedAll, List.flatten_cons, List.take_append, List.drop_append, ← List.append_assoc]
    dsimp only
    rw [hleft]
    split
    · next hempty =>
      -- the segment is used up, and the next one is asked for what is still missing
      obtain ⟨hrest, hkept⟩ := ih hfed
      have hused : segment.length ≤ Header.size - w.length := by simpa using hempty
      rw [List.length_append, List.length_take, Nat.min_eq_right hused, ← Nat.sub_sub] at hrest hkept
      refine ⟨hrest, ?_⟩
      rw [hkept, List.drop_of_length_le hused, List.nil_append]
    · next hmore =>
      have hover : Header.size - w.length - segment.length = 0 := by
        simp only [List.isEmpty_iff, List.drop_eq_nil_iff] at hmore
        omega
      rw [hover, List.take_zero, List.append_nil, List.drop_zero, List.flatten_cons]
      exact ⟨hfed, rfl⟩

/-- The segments of a buffer are read as if they were one piece. -/
theorem HasRead.feedAll_eq (h : r.HasRead w) (segments : List Bytes) :
    (r.feedAll segments).1 = (r.feed segments.flatten).1 ∧
      (r.feedAll segments).2.flatten = (r.feed segments.flatten).2 := by
  obtain ⟨hread, hleft⟩ := h.feedAll segments
  obtain ⟨hread', hleft'⟩ := h.feed segments.flatten
  exact ⟨hread.unique hread', hleft.trans hleft'.symm⟩

/-! ### Readers at work -/

/-- What is done with a reader. -/
inductive Action where
  | feed (segments : List Bytes)
  | reset
  | take

/-- A header reader at work. -/
structure Watch where
  reader : HeaderReader
  /-- The bytes accepted since the last reset, or since a header was last taken out. -/
  accepted : Bytes

namespace Watch

def start : Watch := ⟨.start, []⟩

def act (watch : Watch) : Action → Watch
  | .feed segments =>
    let (reader, left) := watch.reader.feedAll segments
    -- the bytes that are gone from the buffer
    let accepted := segments.flatten.take (segments.flatten.length - left.flatten.length)
    ⟨reader, watch.accepted ++ accepted⟩
  | .reset => start
  | .take =>
    let (taken, reader) := watch.reader.take
    ⟨reader, if taken.isSome then [] else watch.accepted⟩

def actAll (watch : Watch) (actions : List Action) : Watch := actions.foldl act watch

/-- What was accepted is what the reader has read. -/
def HasRead (watch : Watch) : Prop := watch.reader.HasRead watch.accepted

variable {watch : Watch}

theorem act_take_of_some {header : Header} (h : watch.reader.header? = some header) :
    watch.act .take = start := by
  simp only [act, HeaderReader.take, h]
  rfl

theorem act_take_of_none (h : watch.reader.header? = none) : watch.act .take = watch := by
  simp only [act, HeaderReader.take, h]
  rfl

theorem hasRead_start : start.HasRead := HeaderReader.hasRead_start

theorem HasRead.accepted_feed (h : watch.HasRead) (segments : List Bytes) :
    (watch.act (.feed segments)).accepted =
      watch.accepted ++ segments.flatten.take (Header.size - watch.accepted.length) := by
  have hgone : segments.flatten.length - (watch.reader.feedAll segments).2.flatten.length =
      min (Header.size - watch.accepted.length) segments.flatten.length := by
    rw [(HeaderReader.HasRead.feedAll h segments).2, List.length_drop]
    omega
  show watch.accepted ++ segments.flatten.take (_ - (watch.reader.feedAll segments).2.flatten.length) = _
  rw [hgone, ← List.take_eq_take_min]

theorem HasRead.act (h : watch.HasRead) (action : Action) : (watch.act action).HasRead := by
  cases action with
  | feed segments =>
    show ((watch.reader.feedAll segments).1).HasRead (watch.act (.feed segments)).accepted
    rw [h.accepted_feed]
    exact (HeaderReader.HasRead.feedAll h segments).1
  | reset => exact hasRead_start
  | take =>
    unfold Watch.act HeaderReader.take
    cases watch.reader.header? with
    | some header => exact hasRead_start
    | none => exact h

theorem HasRead.actAll (h : watch.HasRead) (actions : List Action) : (watch.actAll actions).HasRead := by
  induction actions generalizing watch with
  | nil => exact h
  | cons action actions ih => exact ih (h.act action)

/-- Pieces that make up no more than what is missing of a header are accepted in full. -/
theorem HasRead.accepted_feeds (h : watch.HasRead) {buffers : List (List Bytes)}
    (hfits : watch.accepted.length + buffers.flatten.flatten.length ≤ Header.size) :
    (watch.actAll (buffers.map .feed)).accepted = watch.accepted ++ buffers.flatten.flatten := by
  induction buffers generalizing watch with
  | nil => exact (List.append_nil _).symm
  | cons segments buffers ih =>
    simp only [List.flatten_cons, List.flatten_append, List.length_append] at hfits
    have hall : (watch.act (.feed segments)).accepted = watch.accepted ++ segments.flatten := by
      rw [h.accepted_feed, List.take_of_length_le (by omega)]
    show ((watch.act (.feed segments)).actAll (buffers.map .feed)).accepted = _
    rw [ih (h.act _) (by rw [hall, List.length_append]; omega), hall, List.append_assoc, List.flatten_cons,
      List.flatten_append]

end Watch

/-- Whatever is done with a reader, it behaves as the bytes that it has accepted say.  From a buffer it takes
just the bytes that a header still lacks, it is complete when it lacks none, and then it gives the header that
these bytes stand for.  Taking gives this header and makes the reader fresh, and does nothing when there is
none.  Conversely, a fresh reader that gets the bytes of a header, in any pieces, gives that header. -/
theorem follows_accepted (actions : List Action) :
    let watch := Watch.start.actAll actions
    let w := watch.accepted
    w.length ≤ Header.size ∧ (∀ segments : List Bytes,
      let fed := watch.reader.feedAll segments
      let taken := min (Header.size - w.length) segments.flatten.length
      (fed.1, fed.2.flatten) = watch.reader.feed segments.flatten ∧
        fed.2.flatten = segments.flatten.drop taken ∧
        (watch.act (.feed segments)).accepted = w ++ segments.flatten.take taken ∧
        (fed.1.isComplete ↔ w.length + taken = Header.size)) ∧
      (watch.reader.isComplete ↔ w.length = Header.size) ∧
      (watch.reader.header?.isSome ↔ w.length = Header.size) ∧
      (∀ header, watch.reader.header? = some header →
        header.length = Bytes.ofBigEndian (w.take 3) ∧ w[3]? = some header.kind ∧
          w[4]? = some header.flags ∧ header.streamId = Bytes.ofBigEndian (w.drop 5) % streamIds ∧
          header.toBytes = Frame.clearReserved w) ∧
      (watch.reader.isIdle ↔ w = []) ∧
      watch.reader.take.1 = watch.reader.header? ∧
      watch.act .take = (if w.length = Header.size then Watch.start else watch) ∧
      ∀ length kind flags streamId header, Header.new? length kind flags streamId = .ok header →
        ∀ buffers : List (List Bytes), w = [] → buffers.flatten.flatten = header.toBytes →
          (watch.actAll (buffers.map .feed)).reader.header? = some header := by
  intro watch w
  have h : watch.HasRead := Watch.hasRead_start.actAll actions
  have hle : w.length ≤ Header.size := HasRead.length_le h
  have hcomplete : watch.reader.isComplete ↔ w.length = Header.size := HasRead.isComplete_iff h
  refine ⟨hle, fun segments => ?_, hcomplete, hcomplete, fun header hheader => ?_, HasRead.isIdle_iff h,
    take_fst, ?_, fun _ _ _ _ header _ buffers hfresh hbytes => ?_⟩
  · obtain ⟨hsame, hkept⟩ := HasRead.feedAll_eq h segments
    have hleft := (HasRead.feedAll h segments).2
    have haccepted := h.accepted_feed segments
    have hread := HasRead.isComplete_iff (h.act (.feed segments))
    rw [List.drop_eq_drop_min] at hleft
    rw [haccepted, List.length_append, List.length_take] at hread
    rw [List.take_eq_take_min] at haccepted
    exact ⟨Prod.ext hsame hkept, hleft, haccepted, hread⟩
  · have hread := HasRead.read?_of_header? h hheader
    obtain ⟨hlength, hkind, hflags, hstream⟩ := Header.fields_of_read? hread
    exact ⟨hlength, hkind, hflags, hstream, Header.toBytes_of_read?_nil hread⟩
  · split
    · next hfull =>
      obtain ⟨header, hheader⟩ := Option.isSome_iff_exists.1 (hcomplete.2 hfull)
      exact Watch.act_take_of_some hheader
    · next hpart =>
      have hnone : watch.reader.header? = none := by
        simpa [isComplete] using mt hcomplete.1 hpart
      exact Watch.act_take_of_none hnone
  · have hall : (watch.actAll (buffers.map .feed)).accepted = header.toBytes := by
      rw [h.accepted_feeds, show watch.accepted = [] from hfresh, List.nil_append, hbytes]
      rw [show watch.accepted = [] from hfresh, hbytes, Header.length_toBytes]
      exact Nat.le_of_eq (Nat.zero_add _)
    rw [HasRead.header?_eq (h.actAll (buffers.map .feed)), hall, Header.read?_toBytes]
    rfl

/-- A reader that is reset inside a header, and then reads one in which the reserved bit is set, up to the
payload behind it.  When the header has been taken out, the same header is read from the bytes that it is
written with. -/
theorem follows_accepted_reset_split :
    let actions : List Action :=
      [.feed [[9, 9]], .reset, .feed [[0], [], [0, 2, 7]], .take, .feed [[1, 128, 0], [0, 5, 10]]]
    let buffers : List (List Bytes) := [[[0, 0], [2]], [[7, 1, 0, 0, 0, 5]]]
    let watch := Watch.start.actAll actions
    let header : Header := ⟨2, 7, 1, 5, by decide, by decide⟩
    watch.accepted = [0, 0, 2, 7, 1, 128, 0, 0, 5] ∧ watch.reader.header? = some header ∧
      header.toBytes = Frame.clearReserved watch.accepted ∧
      (watch.act .take).accepted = [] ∧
      ((watch.act .take).actAll (buffers.map .feed)).reader.header? = some header := by
  intro actions buffers watch header
  have haccepted : watch.accepted = [0, 0, 2, 7, 1, 128, 0, 0, 5] := by decide
  have hheader : watch.reader.header? = some header := by decide
  obtain ⟨-, -, -, -, hfields, -, -, htake, -⟩ := follows_accepted actions
  have htaken : watch.act .take = Watch.start := htake.trans (if_pos (congrArg List.length haccepted))
  obtain ⟨-, -, -, -, -, -, -, -, hback⟩ := follows_accepted (actions ++ [.take])
  have hfresh : (watch.act .take).accepted = [] := by rw [htaken]; rfl
  exact ⟨haccepted, hheader, (hfields header hheader).2.2.2.2, hfresh,
    hback 2 7 1 5 header rfl buffers hfresh (by decide)⟩

end HeaderReader

end SecureStream
