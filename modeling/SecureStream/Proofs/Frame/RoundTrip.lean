import Mathlib.Algebra.GroupWithZero.Nat
import SecureStream.Proofs.Frame.Draining

/-!
# Writing frames and reading them undo each other

A framer writes the frames within its limit, each as its header and its payload, and refuses the longer ones,
which leave no trace in the stream (`Framer.putAll_eq`).

What a fresh framer finds in a stream does not depend on the pieces in which the stream arrives:

* (a) it finds the frames `frames`, nothing else, and ends between two frames, exactly when the stream spells
  them (`Framer.reads_iff`);
* (b) it finds a refused header behind the frames that precede it in the stream (`Framer.findings_of_error`);
* (c) a stream that spells frames is the concatenation of their wires, and writing a frame gives its wire
  again with the reserved bit cleared (`Frame.exists_wires`).
-/

namespace SecureStream

/-! ### Numbers and headers that have been read -/

namespace Bytes

theorem bigEndian_add_mul (width n k : Nat) : bigEndian width (n + k * bound width) = bigEndian width n := by
  induction width generalizing k with
  | zero => rfl
  | succ width ih =>
    have hpos : 0 < bound width := Nat.lt_of_lt_of_le (by decide : 0 < bound 0) (bound_le (Nat.zero_le _))
    have hsplit : n + k * bound (width + 1) = n + k * 256 * bound width := by rw [bound, Nat.mul_assoc]
    have hbyte : UInt8.ofNat (n / bound width + k * 256) = UInt8.ofNat (n / bound width) := by
      apply UInt8.toNat_inj.1
      simp only [UInt8.toNat_ofNat']
      omega
    rw [hsplit, bigEndian, bigEndian, ih, Nat.add_mul_div_right _ _ hpos, hbyte]

theorem bigEndian_ofBigEndian (bytes : Bytes) : bigEndian bytes.length (ofBigEndian bytes) = bytes := by
  induction bytes with
  | nil => rfl
  | cons b bytes ih =>
    have hlt := ofBigEndian_lt bytes
    have hpos : 0 < bound bytes.length := by omega
    have hbyte : (ofBigEndian bytes + b.toNat * bound bytes.length) / bound bytes.length = b.toNat := by
      rw [Nat.add_mul_div_right _ _ hpos, Nat.div_eq_of_lt hlt, Nat.zero_add]
    rw [ofBigEndian_cons, Nat.add_comm, List.length_cons, bigEndian, hbyte, bigEndian_add_mul, ih,
      UInt8.ofNat_toNat]

end Bytes

namespace Frame

/-- The bytes of a frame with the reserved bit, the top bit of the sixth byte, cleared. -/
def clearReserved (wire : Bytes) : Bytes := wire.modify 5 (· &&& 0x7f)

end Frame

namespace Header

private theorem toNat_and_mask (b : UInt8) : (b &&& 0x7f).toNat = b.toNat % 128 := by
  rw [UInt8.toNat_and]
  exact Nat.and_two_pow_sub_one_eq_mod b.toNat 7

theorem toBytes_ofParts (a b c kind flags s t u v : UInt8) :
    (ofParts a b c kind flags s t u v).toBytes = [a, b, c, kind, flags, s &&& 0x7f, t, u, v] := by
  have hlength : Bytes.ofBigEndian [a, b, c] % (longestPayload + 1) = Bytes.ofBigEndian [a, b, c] :=
    Nat.mod_eq_of_lt (Bytes.ofBigEndian_lt [a, b, c])
  have hstream : Bytes.ofBigEndian [s, t, u, v] % streamIds = Bytes.ofBigEndian [s &&& 0x7f, t, u, v] := by
    have hmask := toNat_and_mask s
    have ht := t.toNat_lt
    have hu := u.toNat_lt
    have hv := v.toNat_lt
    simp only [Bytes.ofBigEndian, List.foldl_cons, List.foldl_nil, streamIds, hmask]
    omega
  have hthree := Bytes.bigEndian_ofBigEndian [a, b, c]
  have hfour := Bytes.bigEndian_ofBigEndian [s &&& 0x7f, t, u, v]
  simp only [List.length_cons, List.length_nil, Nat.zero_add, Nat.reduceAdd] at hthree hfour
  rw [← ofFields_eq_ofParts]
  show Bytes.bigEndian 3 (Bytes.ofBigEndian [a, b, c] % (longestPayload + 1)) ++
    kind :: flags :: Bytes.bigEndian 4 (Bytes.ofBigEndian [s, t, u, v] % streamIds) = _
  rw [hlength, hstream, hthree, hfour]
  rfl

/-- A header that was read is written with the bytes that it was read from, and the reserved bit cleared. -/
theorem toBytes_of_read? {stream rest : Bytes} {h : Header} (hread : read? stream = some (h, rest)) :
    ∃ front, stream = front ++ rest ∧
      ∀ payload, Frame.clearReserved (front ++ payload) = h.toBytes ++ payload := by
  unfold read? at hread
  split at hread
  · next a b c kind flags s t u v _ =>
    obtain ⟨rfl, rfl⟩ := Prod.mk.inj (Option.some.inj hread)
    refine ⟨[a, b, c, kind, flags, s, t, u, v], rfl, fun payload => ?_⟩
    rw [toBytes_ofParts]
    rfl
  · cases hread

end Header

/-! ### Streams that spell frames -/

namespace Frame

variable {limit : Nat}

/-- A stream that spells frames is the concatenation of their wires.  All of them are within the limit. -/
theorem exists_wires {bytes : Bytes} {frames : List Frame}
    (h : (grammar limit).Spells bytes (frames.map .ok)) :
    (∀ f ∈ frames, f.header.length ≤ limit) ∧
      ∃ wires : List Bytes, wires.flatten = bytes ∧ wires.map clearReserved = frames.map toBytes := by
  induction frames generalizing bytes with
  | nil =>
    cases hfirst : (grammar limit).first? bytes with
    | none =>
      rw [Grammar.Spells, Grammar.parse_of_none hfirst] at h
      obtain ⟨-, rfl⟩ := Prod.mk.inj h
      exact ⟨fun _ hmem => absurd hmem List.not_mem_nil, [], rfl, rfl⟩
    | some found =>
      rw [Grammar.Spells, Grammar.parse_of_some hfirst] at h
      cases (Prod.mk.inj h).1
  | cons f frames ih =>
    rcases first?_cases limit bytes with ⟨-, hfirst⟩ | ⟨header, rest, -, -, hfirst⟩ |
        ⟨_, _, _, _, _, hfirst⟩ | ⟨frame, left, hread, hlimit, hfirst⟩
    · rw [Grammar.Spells, Grammar.parse_of_none hfirst] at h
      cases (Prod.mk.inj h).1
    · rw [Grammar.Spells, Grammar.parse_of_some hfirst] at h
      cases (Prod.mk.inj h).1
    · rw [Grammar.Spells, Grammar.parse_of_none hfirst] at h
      cases (Prod.mk.inj h).1
    · rw [Grammar.Spells, Grammar.parse_of_some hfirst] at h
      obtain ⟨hitems, hleft⟩ := Prod.mk.inj h
      obtain ⟨hsame, hrest⟩ := List.cons.inj hitems
      cases hsame
      obtain ⟨hall, wires, hwires, hcleared⟩ := ih (Prod.ext hrest hleft)
      obtain ⟨front, hbytes, hfront⟩ := Header.toBytes_of_read? hread
      refine ⟨List.forall_mem_cons.2 ⟨Nat.le_of_not_lt hlimit, hall⟩, (front ++ f.payload) :: wires, ?_, ?_⟩
      · rw [List.flatten_cons, hwires, hbytes, List.append_assoc]
      · rw [List.map_cons, List.map_cons, hcleared, hfront]
        rfl

end Frame

namespace Finding

variable {found more items : List Finding} {frames : List Frame} {e : FrameError}

/-- Among findings there is a first error, or all of them are frames. -/
theorem frames_or_error (items : List Finding) :
    (∃ frames : List Frame, items = frames.map .ok) ∨
      ∃ (frames : List Frame) (e : FrameError) (rest : List Finding),
        items = frames.map .ok ++ .error e :: rest := by
  induction items with
  | nil => exact .inl ⟨[], rfl⟩
  | cons item items ih =>
    cases item with
    | error e => exact .inr ⟨[], e, items, rfl⟩
    | ok f =>
      rcases ih with ⟨frames, rfl⟩ | ⟨frames, e, rest, rfl⟩
      · exact .inl ⟨f :: frames, rfl⟩
      · exact .inr ⟨f :: frames, e, rest, rfl⟩

/-- Where findings are cut, the first error comes behind the cut or in front of it. -/
theorem cut_at_error (h : found ++ more = frames.map .ok ++ .error e :: items) :
    (∃ first later, frames = first ++ later ∧ found = first.map .ok ∧
        more = later.map .ok ++ .error e :: items) ∨
      ∃ rest, found = frames.map .ok ++ .error e :: rest := by
  rcases List.append_eq_append_iff.1 h with ⟨later, hframes, hmore⟩ | ⟨tail, hfound, hitems⟩
  · obtain ⟨first, later, rfl, rfl, rfl⟩ := List.map_eq_append_iff.1 hframes
    exact .inl ⟨first, later, rfl, rfl, hmore⟩
  · cases tail with
    | nil =>
      rw [List.append_nil] at hfound
      exact .inl ⟨frames, [], (List.append_nil frames).symm, hfound, hitems.symm⟩
    | cons item rest =>
      obtain ⟨rfl, -⟩ := List.cons.inj hitems
      exact .inr ⟨rest, hfound⟩

end Finding

namespace Framer

/-! ### Reading up to an error -/

variable {f : Framer} {w stream left : Bytes} {frames : List Frame} {e : FrameError} {items : List Finding}

theorem drain_of_error (h : (f.next stream).result = .error e) : f.drain stream = [f.next stream] := by
  rw [drain]
  split
  · next hsome =>
    rw [h] at hsome
    cases hsome
  · rfl

theorem Look.result_of_error {look : Look} (h : look.findings = [.error e]) : look.result = .error e := by
  unfold findings at h
  split at h
  · cases h
  · cases h
  · next hresult =>
    cases h
    exact hresult

/-- Looking until there is no frame ends with the first refused header. -/
theorem HasRead.drain_of_error (h : f.HasRead w)
    (hparse : (Frame.grammar f.limit).parse (w ++ stream) = (frames.map .ok ++ .error e :: items, left)) :
    (f.drain stream).flatMap Look.findings = frames.map .ok ++ [.error e] := by
  -- on the frames in front of the header: the next look finds the first of them, or the header
  induction frames generalizing f w stream with
  | nil =>
    obtain ⟨-, ⟨-, hfirst, -⟩ | ⟨item, hfound, -, hfirst⟩⟩ := h.next stream
    · rw [Grammar.parse_of_none hfirst] at hparse
      cases (Prod.mk.inj hparse).1
    · rw [Grammar.parse_of_some hfirst] at hparse
      obtain ⟨rfl, -⟩ := List.cons.inj (Prod.mk.inj hparse).1
      rw [Framer.drain_of_error (Look.result_of_error hfound), List.flatMap_singleton, hfound]
      rfl
  | cons frame frames ih =>
    obtain ⟨hlimit, ⟨-, hfirst, -⟩ | ⟨item, hfound, hfresh, hfirst⟩⟩ := h.next stream
    · rw [Grammar.parse_of_none hfirst] at hparse
      cases (Prod.mk.inj hparse).1
    · rw [Grammar.parse_of_some hfirst] at hparse
      obtain ⟨hitems, hleft⟩ := Prod.mk.inj hparse
      obtain ⟨rfl, hrest⟩ := List.cons.inj hitems
      rw [← hlimit] at hrest hleft
      have hnext : (Frame.grammar (f.next stream).framer.limit).parse ([] ++ (f.next stream).left) =
          (frames.map .ok ++ .error e :: items, left) := Prod.ext hrest hleft
      rw [drain_of_some (Look.result_of_frame hfound), List.flatMap_cons, hfound, ih hfresh hnext]
      rfl

theorem drain_ne_nil (f : Framer) (stream : Bytes) : f.drain stream ≠ [] := by
  rw [drain]
  split <;> simp

theorem HasRead.drainAll_of_error {pieces : List Bytes} (h : f.HasRead w)
    (hnone : (Frame.grammar f.limit).first? (w ++ stream) = none)
    (hparse : (Frame.grammar f.limit).parse (w ++ stream ++ pieces.flatten) =
      (frames.map .ok ++ .error e :: items, left)) :
    ∃ more, (f.drainAll stream pieces).1.flatMap Look.findings = frames.map .ok ++ .error e :: more := by
  induction pieces generalizing f w stream frames with
  | nil =>
    rw [List.flatten_nil, List.append_nil, Grammar.parse_of_none hnone] at hparse
    cases frames <;> cases (Prod.mk.inj hparse).1
  | cons piece pieces ih =>
    have hend := (Frame.grammar f.limit).first?_left (w ++ (stream ++ piece))
    rw [List.flatten_cons, ← List.append_assoc, Grammar.parse_append, List.append_assoc w] at hparse
    rcases hpiece : (Frame.grammar f.limit).parse (w ++ (stream ++ piece)) with ⟨found, kept⟩
    rw [hpiece] at hparse hend
    obtain ⟨hfound, hleft⟩ := Prod.mk.inj hparse
    rcases Finding.cut_at_error hfound with ⟨first, later, rfl, rfl, hlater⟩ | ⟨rest, rfl⟩
    · -- the piece completes the frames `first`, and the header that is refused comes later
      obtain ⟨hdrain, last, hlast, hlimit, w', hw', rfl⟩ := h.drain hpiece
      rw [← hlimit] at hend hlater hleft
      obtain ⟨more, hmore⟩ := ih hw' hend (Prod.ext hlater hleft)
      refine ⟨more, ?_⟩
      rw [drainAll_cons hlast, List.flatMap_append, hdrain, hmore, List.map_append, List.append_assoc]
    · -- the piece completes the header that is refused, and the looks end there
      have hlast := List.getLast?_eq_some_getLast (f.drain_ne_nil (stream ++ piece))
      rw [drainAll_cons hlast, List.flatMap_append, h.drain_of_error hpiece, List.append_assoc]
      exact ⟨_, rfl⟩

/-! ### What a fresh framer finds -/

/-- A fresh framer finds these frames in the pieces of a stream, one after the other and nothing else, and
ends between two frames. -/
def Reads (limit : Nat) (pieces : List Bytes) (frames : List Frame) : Prop :=
  let (looks, framer, left) := (ofLimit limit).drainAll [] pieces
  looks.flatMap Look.findings = frames.map .ok ∧ framer.isInsideFrame = false ∧ left = []

variable {limit : Nat} {pieces : List Bytes}

theorem HasRead.eq_nil (h : f.HasRead w) (houtside : f.isInsideFrame = false) : w = [] := by
  unfold HasRead at h
  obtain ⟨hpending, hidle⟩ := Bool.or_eq_false_iff.1 houtside
  rw [Option.isSome_eq_false_iff, Option.isNone_iff_eq_none] at hpending
  rw [hpending] at h
  exact h.1.isIdle_iff.1 (by simpa using hidle)

theorem findings_of_frames (h : (Frame.grammar limit).parse pieces.flatten = (frames.map .ok, left)) :
    let (looks, framer, rest) := (ofLimit limit).drainAll [] pieces
    looks.flatMap Look.findings = frames.map .ok ∧ ∃ w, framer.HasRead w ∧ w ++ rest = left := by
  have hparse : (Frame.grammar (min limit longestPayload)).parse ([] ++ [] ++ pieces.flatten) =
      (frames.map .ok, left) := by
    rw [Frame.grammar_min]
    exact h
  exact (hasRead_ofLimit limit).drainAll rfl hparse

/-- A stream with a header that is refused gives the frames in front of it, and then the error. -/
theorem findings_of_error
    (h : (Frame.grammar limit).parse pieces.flatten = (frames.map .ok ++ .error e :: items, left)) :
    ∃ more, ((ofLimit limit).drainAll [] pieces).1.flatMap Look.findings =
      frames.map .ok ++ .error e :: more := by
  rw [← Frame.grammar_min] at h
  exact (hasRead_ofLimit limit).drainAll_of_error rfl h

theorem reads_iff :
    Reads limit pieces frames ↔ (Frame.grammar limit).Spells pieces.flatten (frames.map .ok) := by
  constructor
  · intro h
    obtain ⟨hfound, houtside, hleft⟩ := h
    rcases hparse : (Frame.grammar limit).parse pieces.flatten with ⟨items, left⟩
    rcases Finding.frames_or_error items with ⟨frames', rfl⟩ | ⟨frames', e, rest, rfl⟩
    · obtain ⟨hfound', w, hw, rfl⟩ := findings_of_frames hparse
      rw [hw.eq_nil houtside, hleft] at hparse
      exact hparse.trans (Prod.ext (hfound'.symm.trans hfound) rfl)
    · -- an error would have been found
      obtain ⟨more, hmore⟩ := findings_of_error hparse
      have hmem : (.error e : Finding) ∈ frames.map .ok := by
        rw [← hfound, hmore]
        exact List.mem_append_right _ List.mem_cons_self
      obtain ⟨f, -, hf⟩ := List.mem_map.1 hmem
      cases hf
  · intro h
    obtain ⟨hfound, w, hw, hleft⟩ := findings_of_frames h
    obtain ⟨rfl, hempty⟩ := List.append_eq_nil_iff.1 hleft
    exact ⟨hfound, hw.isInsideFrame_eq, hempty⟩

/-! ### Writing a list of frames -/

/-- Writes frames one after the other.  A frame that is refused leaves the stream as it is. -/
def putAll (f : Framer) : List Frame → Bytes → List (Except FrameError Unit) × Bytes
  | [], stream => ([], stream)
  | frame :: frames, stream =>
    match f.put frame stream with
    | .ok written => let (results, final) := f.putAll frames written; (.ok () :: results, final)
    | .error e => let (results, final) := f.putAll frames stream; (.error e :: results, final)

/-- The frames of a list that are within a limit. -/
def within (limit : Nat) (frames : List Frame) : List Frame := frames.filter (·.header.length ≤ limit)

/-- A framer with a limit does not write or read a longer frame. -/
def verdict (limit : Nat) (frame : Frame) : Except FrameError Unit :=
  if frame.header.length ≤ limit then .ok () else .error (.overLimit frame.header.length limit)

theorem put_eq (limit : Nat) (frame : Frame) (stream : Bytes) :
    (ofLimit limit).put frame stream = (verdict limit frame).map fun _ => stream ++ frame.toBytes := by
  have hlongest := frame.header.length_le
  have hlimit : (ofLimit limit).limit = min limit longestPayload := rfl
  unfold put verdict
  by_cases hle : frame.header.length ≤ limit
  · have hwithin : ¬ min limit longestPayload < frame.header.length := by omega
    rw [hlimit, if_pos hle, if_neg hwithin]
    rfl
  · have hover : limit < frame.header.length := by omega
    have hmin : min limit longestPayload = limit := by omega
    rw [hlimit, hmin, if_neg hle, if_pos hover]
    rfl

theorem putAll_eq (limit : Nat) (frames : List Frame) (stream : Bytes) :
    (ofLimit limit).putAll frames stream =
      (frames.map (verdict limit), stream ++ (within limit frames).flatMap Frame.toBytes) := by
  induction frames generalizing stream with
  | nil => exact congrArg _ (List.append_nil stream).symm
  | cons frame frames ih =>
    by_cases hle : frame.header.length ≤ limit
    · have hverdict : verdict limit frame = .ok () := if_pos hle
      have hwithin : within limit (frame :: frames) = frame :: within limit frames :=
        List.filter_cons_of_pos (by simpa using hle)
      have hput : (ofLimit limit).put frame stream = .ok (stream ++ frame.toBytes) := by
        rw [put_eq, hverdict]
        rfl
      rw [putAll, hput, List.map_cons, hverdict, hwithin, List.flatMap_cons, ← List.append_assoc]
      simp only [ih]
    · have hverdict : verdict limit frame = .error (.overLimit frame.header.length limit) := if_neg hle
      have hwithin : within limit (frame :: frames) = within limit frames :=
        List.filter_cons_of_neg (by simpa using hle)
      have hput : (ofLimit limit).put frame stream = .error (.overLimit frame.header.length limit) := by
        rw [put_eq, hverdict]
        rfl
      rw [putAll, hput, List.map_cons, hverdict, hwithin]
      simp only [ih]

theorem spells_within (limit : Nat) (frames : List Frame) :
    (Frame.grammar limit).Spells ((within limit frames).flatMap Frame.toBytes)
      ((within limit frames).map .ok) :=
  Frame.spells_frames fun f hf => by simpa using (List.mem_filter.1 hf).2

/-- Behind the frames that were written stands a longer one: its header is refused. -/
theorem parse_refused (frames : List Frame) {frame : Frame} (hover : limit < frame.header.length)
    (more : Bytes) :
    ∃ items left, (Frame.grammar limit).parse
        ((within limit frames).flatMap Frame.toBytes ++ (frame.toBytes ++ more)) =
      ((within limit frames).map .ok ++ .error (.overLimit frame.header.length limit) :: items, left) := by
  have hfirst : (Frame.grammar limit).first? (frame.toBytes ++ more) =
      some (.error (.overLimit frame.header.length limit), frame.payload ++ more) := by
    show Frame.first? limit (frame.toBytes ++ more) = _
    refine Frame.first?_refused ?_ hover
    rw [Frame.toBytes, List.append_assoc, Header.read?_toBytes_append]
  have hparse := (spells_within limit frames).parse_append (frame.toBytes ++ more)
  rw [Grammar.parse_of_some hfirst] at hparse
  exact ⟨_, _, hparse⟩

/-- Writing frames and reading them undo each other, and agree on the limit.

* Writing appends the headers and payloads of the frames within the limit, and nothing of a longer one.
* However these bytes are cut, a fresh framer finds the frames that were written, in order, and ends outside a
  frame.
* A frame that is not written is not read either, for the same reason, wherever it stands among others.
* Frames that were read are written again with the same bytes, except that the reserved bits are cleared. -/
theorem round_trip (limit : Nat) :
    (∀ (frames : List Frame) (stream : Bytes), (ofLimit limit).putAll frames stream =
      (frames.map fun f =>
          if f.header.length ≤ limit then .ok () else .error (.overLimit f.header.length limit),
        stream ++ (within limit frames).flatMap fun f => f.header.toBytes ++ f.payload)) ∧
    (∀ (frames : List Frame) (pieces : List Bytes), pieces.flatten = ((ofLimit limit).putAll frames []).2 →
      Reads limit pieces (within limit frames)) ∧
    (∀ (frames : List Frame) (frame : Frame) (stream more : Bytes) (e : FrameError) (pieces : List Bytes),
      (ofLimit limit).put frame stream = .error e →
      pieces.flatten = ((ofLimit limit).putAll frames []).2 ++ (frame.toBytes ++ more) →
      ∃ rest, ((ofLimit limit).drainAll [] pieces).1.flatMap Look.findings =
        (within limit frames).map .ok ++ .error e :: rest) ∧
    (∀ (frames : List Frame) (pieces : List Bytes), Reads limit pieces frames →
      (∀ f ∈ frames, f.header.length = f.payload.length ∧ f.header.streamId < 2 ^ 31) ∧
      ∃ wires : List Bytes, wires.flatten = pieces.flatten ∧
        wires.map Frame.clearReserved = frames.map Frame.toBytes ∧
        ∀ stream, (ofLimit limit).putAll frames stream =
          (frames.map fun _ => .ok (), stream ++ (wires.map Frame.clearReserved).flatten)) := by
  refine ⟨putAll_eq limit, ?_, ?_, ?_⟩
  · intro frames pieces hpieces
    rw [putAll_eq, List.nil_append] at hpieces
    rw [reads_iff, hpieces]
    exact spells_within limit frames
  · intro frames frame stream more e pieces hput hpieces
    rw [putAll_eq, List.nil_append] at hpieces
    rw [put_eq, verdict] at hput
    by_cases hle : frame.header.length ≤ limit
    · rw [if_pos hle] at hput
      cases hput
    · rw [if_neg hle] at hput
      cases hput
      obtain ⟨items, left, hparse⟩ := parse_refused frames (Nat.lt_of_not_le hle) more
      rw [← hpieces] at hparse
      exact findings_of_error hparse
  · intro frames pieces hreads
    obtain ⟨hall, wires, hwires, hcleared⟩ := Frame.exists_wires (reads_iff.1 hreads)
    refine ⟨?_, wires, hwires, hcleared, ?_⟩
    · intro f _
      exact ⟨f.length_payload.symm, f.header.streamId_lt⟩
    intro stream
    have hverdicts : frames.map (verdict limit) = frames.map fun _ => .ok () :=
      List.map_congr_left fun f hf => if_pos (hall f hf)
    have hwithin : within limit frames = frames := List.filter_eq_self.2 fun f hf => by simpa using hall f hf
    rw [putAll_eq, hverdicts, hwithin, hcleared, List.flatMap_def]

/-- A frame of two bytes passes the limit 2 and one of three bytes does not.  The first one was also read from
bytes in which the reserved bit is set. -/
theorem round_trip_short_long :
    let short : Frame := ⟨⟨2, 7, 1, 5, by decide, by decide⟩, [10, 20], rfl⟩
    let long : Frame := ⟨⟨3, 7, 1, 5, by decide, by decide⟩, [10, 20, 30], rfl⟩
    Reads 2 [[0, 0], [2, 7, 1, 0, 0, 0, 5, 10], [20]] [short] ∧
      (∃ rest, ((ofLimit 2).drainAll [] [short.toBytes ++ long.toBytes]).1.flatMap Look.findings =
        [.ok short] ++ .error (.overLimit 3 2) :: rest) ∧
      ∃ wires : List Bytes, wires.flatten = [0, 0, 2, 7, 1, 128, 0, 0, 5, 10, 20] ∧
        wires.map Frame.clearReserved = [short.toBytes] ∧
        (ofLimit 2).putAll [short] [] = ([.ok ()], [] ++ (wires.map Frame.clearReserved).flatten) := by
  intro short long
  obtain ⟨-, hread, hrefused, hback⟩ := round_trip 2
  refine ⟨hread [short, long] _ (by decide), ?_, ?_⟩
  · exact hrefused [short] long [] [] (.overLimit 3 2) [short.toBytes ++ long.toBytes] rfl (by decide)
  · have hspells : (Frame.grammar 2).Spells ([0, 0, 2, 7, 1, 128, 0, 0, 5, 10, 20] ++ []) [.ok short] :=
      Grammar.spells_cons rfl (Grammar.spells_nil rfl)
    have hreads : Reads 2 [[0, 0, 2, 7, 1, 128, 0, 0, 5, 10, 20]] [short] := reads_iff.2 hspells
    obtain ⟨-, wires, hwires, hcleared, hput⟩ := hback [short] _ hreads
    exact ⟨wires, hwires, hcleared, hput []⟩

end Framer

end SecureStream
