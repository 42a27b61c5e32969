import SecureStream.Frame.Framer
import SecureStream.Proofs.Frame.HeaderReading
import SecureStream.Proofs.Grammar

/-!
# What a stream of frames says

`Frame.grammar limit` reads a stream without any state: nine bytes are a header, a header within the limit is
followed by its payload, and one that announces more stands for an error and is followed by the next header.

A framer that has taken the bytes `w` from the stream (`Framer.HasRead`) does the same with the bytes that
are still there.  One look finds the first item of the stream `w ++ stream`, or finds that it has none
(`Framer.HasRead.next`).
-/

namespace SecureStream

/-- What is found in a stream: a frame, or an error. -/
abbrev Finding := Except FrameError Frame

namespace Finding

def span : Finding → Nat
  | .ok frame => Header.size + frame.header.length
  | .error _ => Header.size

end Finding

namespace Frame

theorem length_payload_of_splitExact? {header : Header} {stream payload left : Bytes}
    (h : stream.splitExact? header.length = some (payload, left)) : payload.length = header.length :=
  (Bytes.splitExact?_eq_some_iff.1 h).1

/-- The frame or the refused header at the front of a stream, if all of it is there, and what follows it. -/
def first? (limit : Nat) (stream : Bytes) : Option (Finding × Bytes) :=
  match Header.read? stream with
  | none => none
  | some (header, rest) =>
    if limit < header.length then some (.error (.overLimit header.length limit), rest)
    else
      match h : rest.splitExact? header.length with
      | none => none
      | some (payload, left) => some (.ok ⟨header, payload, length_payload_of_splitExact? h⟩, left)

theorem first?_refused {limit : Nat} {stream rest : Bytes} {header : Header}
    (hread : Header.read? stream = some (header, rest)) (h : limit < header.length) :
    first? limit stream = some (.error (.overLimit header.length limit), rest) := by
  simp only [first?, hread, if_pos h]

theorem first?_short {limit : Nat} {stream rest : Bytes} {header : Header}
    (hread : Header.read? stream = some (header, rest)) (h : ¬ limit < header.length)
    (hshort : rest.length < header.length) : first? limit stream = none := by
  simp only [first?, hread, if_neg h]
  split
  · rfl
  · next hsplit =>
    rw [Bytes.splitExact?_eq_none_iff.2 hshort] at hsplit
    cases hsplit

theorem first?_frame (frame : Frame) {limit : Nat} {stream left : Bytes}
    (hread : Header.read? stream = some (frame.header, frame.payload ++ left))
    (h : ¬ limit < frame.header.length) : first? limit stream = some (.ok frame, left) := by
  have hsplit : Bytes.splitExact? frame.header.length (frame.payload ++ left) = some (frame.payload, left) :=
    Bytes.splitExact?_eq_some_iff.2 ⟨frame.length_payload, rfl⟩
  simp only [first?, hread, if_neg h]
  split
  · next hnone =>
    rw [hsplit] at hnone
    cases hnone
  · next hsome =>
    rw [hsplit] at hsome
    cases hsome
    rfl

theorem first?_cases (limit : Nat) (stream : Bytes) :
    (Header.read? stream = none ∧ first? limit stream = none) ∨
    (∃ header rest, Header.read? stream = some (header, rest) ∧ limit < header.length ∧
      first? limit stream = some (.error (.overLimit header.length limit), rest)) ∨
    (∃ header rest, Header.read? stream = some (header, rest) ∧ ¬ limit < header.length ∧
      rest.length < header.length ∧ first? limit stream = none) ∨
    (∃ frame left, Header.read? stream = some (frame.header, frame.payload ++ left) ∧
      ¬ limit < frame.header.length ∧ first? limit stream = some (.ok frame, left)) := by
  cases hread : Header.read? stream with
  | none => exact .inl ⟨rfl, by simp only [first?, hread]⟩
  | some found =>
    obtain ⟨header, rest⟩ := found
    by_cases hlimit : limit < header.length
    · exact .inr (.inl ⟨header, rest, rfl, hlimit, first?_refused hread hlimit⟩)
    · cases hsplit : rest.splitExact? header.length with
      | none =>
        have hshort := Bytes.splitExact?_eq_none_iff.1 hsplit
        exact .inr (.inr (.inl ⟨header, rest, rfl, hlimit, hshort, first?_short hread hlimit hshort⟩))
      | some pair =>
        obtain ⟨payload, left⟩ := pair
        obtain ⟨hpayload, rfl⟩ := Bytes.splitExact?_eq_some_iff.1 hsplit
        exact .inr (.inr (.inr ⟨⟨header, payload, hpayload⟩, left, rfl, hlimit,
          first?_frame ⟨header, payload, hpayload⟩ hread hlimit⟩))

def grammar (limit : Nat) : Grammar Finding where
  first? := first? limit
  first?_eq_some {stream rest item} hfirst := by
    rcases first?_cases limit stream with ⟨-, h⟩ | ⟨header, left, hread, hlimit, h⟩ | ⟨_, _, _, _, _, h⟩ |
        ⟨frame, left, hread, hlimit, h⟩ <;> rw [h] at hfirst <;> cases hfirst
    · obtain ⟨front, hsize, rfl, hfront⟩ := Header.read?_eq_some hread
      refine ⟨front, List.ne_nil_of_length_pos (by rw [hsize]; decide), rfl, fun more => ?_⟩
      exact first?_refused (hfront more) hlimit
    · obtain ⟨front, hsize, rfl, hfront⟩ := Header.read?_eq_some hread
      refine ⟨front ++ frame.payload, ?_, by rw [List.append_assoc], fun more => ?_⟩
      · exact List.append_ne_nil_of_left_ne_nil (List.ne_nil_of_length_pos (by rw [hsize]; decide)) _
      · rw [List.append_assoc]
        exact first?_frame frame (hfront _) hlimit

theorem length_of_first? {limit : Nat} {stream rest : Bytes} {item : Finding}
    (hfirst : (grammar limit).first? stream = some (item, rest)) :
      stream.length = item.span + rest.length := by
  rcases first?_cases limit stream with ⟨-, h⟩ | ⟨header, left, hread, hlimit, h⟩ | ⟨_, _, _, _, _, h⟩ |
      ⟨frame, left, hread, hlimit, h⟩ <;> rw [show (grammar limit).first? stream = _ from h] at hfirst <;>
      cases hfirst
  · exact Header.length_of_read? hread
  · rw [Header.length_of_read? hread, List.length_append, frame.length_payload, Finding.span, Nat.add_assoc]

end Frame

/-- No header announces more than `longestPayload`, so a larger limit means this one. -/
theorem Frame.grammar_min (limit : Nat) : Frame.grammar (min limit longestPayload) = Frame.grammar limit := by
  by_cases hle : limit ≤ longestPayload
  · rw [Nat.min_eq_left hle]
  · rw [Nat.min_eq_right (by omega)]
    refine Grammar.ext (funext fun stream => ?_)
    show Frame.first? longestPayload stream = Frame.first? limit stream
    cases hread : Header.read? stream with
    | none => simp only [Frame.first?, hread]
    | some found =>
      have hlength := found.1.length_le
      have hnarrow : ¬ longestPayload < found.1.length := by omega
      have hwide : ¬ limit < found.1.length := by omega
      simp only [Frame.first?, hread, if_neg hnarrow, if_neg hwide]

/-! ### A framer at work -/

namespace Framer

/-- The framer has taken exactly the bytes `w` of the current frame from the stream: a part of the header,
or the whole header, whose length is within the limit. -/
def HasRead (f : Framer) (w : Bytes) : Prop :=
  match f.pending with
  | none => f.reader.HasRead w ∧ w.length < Header.size
  | some header => f.reader = .start ∧ Header.read? w = some (header, []) ∧ header.length ≤ f.limit

theorem hasRead_ofLimit (limit : Nat) : (ofLimit limit).HasRead [] := ⟨HeaderReader.hasRead_start, by decide⟩

/-- The number of bytes of the current frame that have been taken from the stream. -/
def taken (f : Framer) : Nat :=
  match f.pending with
  | none => f.reader.taken
  | some _ => Header.size

theorem HasRead.taken_eq {f : Framer} {w : Bytes} (h : f.HasRead w) : f.taken = w.length := by
  unfold HasRead at h
  unfold taken
  split at h
  · exact h.1.taken_eq
  · exact (Header.length_of_read? h.2.1).symm

theorem HasRead.length_le {f : Framer} {w : Bytes} (h : f.HasRead w) : w.length ≤ Header.size := by
  unfold HasRead at h
  split at h
  · exact Nat.le_of_lt h.2
  · exact Nat.le_of_eq (Header.length_of_read? h.2.1)

def Look.findings (look : Look) : List Finding :=
  match look.result with
  | .ok none => []
  | .ok (some frame) => [.ok frame]
  | .error e => [.error e]

private theorem HasRead.lookPayload (f : Framer) (arrived : Option Header) (stream : Bytes)
    {w : Bytes} {header : Header}
    (hreader : f.reader = .start) (hread : Header.read? w = some (header, []))
    (hlimit : header.length ≤ f.limit) :
    let look := f.lookPayload header arrived stream
    look.framer.limit = f.limit ∧
      ((look.findings = [] ∧ (Frame.grammar f.limit).first? (w ++ stream) = none ∧
          look.framer.HasRead w ∧ look.left = stream) ∨
        ∃ item, look.findings = [item] ∧ look.framer.HasRead [] ∧
          (Frame.grammar f.limit).first? (w ++ stream) = some (item, look.left)) := by
  obtain ⟨front, -, rfl, hfront⟩ := Header.read?_eq_some hread
  rw [List.append_nil] at hread ⊢
  have hnot : ¬ f.limit < header.length := by omega
  unfold Framer.lookPayload
  split
  · next payload left hsplit =>
    obtain ⟨hpayload, rfl⟩ := Bytes.splitExact?_eq_some_iff.1 hsplit
    refine ⟨rfl, .inr ⟨_, rfl, ?_, ?_⟩⟩
    · simp only [HasRead, hreader]
      exact ⟨HeaderReader.hasRead_start, by decide⟩
    · exact Frame.first?_frame ⟨header, payload, hpayload⟩ (hfront _) hnot
  · next hsplit =>
    refine ⟨rfl, .inl ⟨rfl, ?_, ⟨hreader, hread, hlimit⟩, rfl⟩⟩
    exact Frame.first?_short (hfront stream) hnot (Bytes.splitExact?_eq_none_iff.1 hsplit)

/-- A look at a stream finds the first item of the whole stream, which begins with the bytes `w` that the
framer has taken already.  When it finds none, there is none, and the framer has only taken more bytes of
the header. -/
def Finds (f : Framer) (w stream : Bytes) (look : Look) : Prop :=
  look.framer.limit = f.limit ∧
    ((look.findings = [] ∧ (Frame.grammar f.limit).first? (w ++ stream) = none ∧
        ∃ w', look.framer.HasRead w' ∧ w ++ stream = w' ++ look.left) ∨
      ∃ item, look.findings = [item] ∧ look.framer.HasRead [] ∧
        (Frame.grammar f.limit).first? (w ++ stream) = some (item, look.left))

section Header

variable {f : Framer} {w stream : Bytes} (h : f.reader.HasRead w) (hpending : f.pending = none)

include h hpending

/-- The header is not there, so feeding has used the whole stream up. -/
private theorem HasRead.next_of_short
    (hread : Header.read? (w ++ stream.take (Header.size - w.length)) = none) :
    f.Finds w stream (f.next stream) := by
  obtain ⟨hfed, hleft⟩ := h.feed stream
  have hheader := hfed.header?_eq
  rw [hread] at hheader
  have hnext : f.next stream = ⟨.ok none, { f with reader := (f.reader.feed stream).1 },
      (f.reader.feed stream).2, f.reader.arrival? (f.reader.feed stream).1⟩ := by
    simp only [Framer.next, hpending, HeaderReader.take, hheader, Option.map_none]
  have hshort := Header.read?_eq_none_iff.1 hread
  have hall : stream.length ≤ Header.size - w.length := by
    simp only [List.length_append, List.length_take] at hshort
    omega
  have hjoined : w ++ stream = w ++ stream.take (Header.size - w.length) ++ (f.reader.feed stream).2 := by
    rw [hleft, List.append_assoc, List.take_append_drop]
  rw [hnext]
  refine ⟨rfl, .inl ⟨rfl, ?_, _, ?_, hjoined⟩⟩
  · rw [List.take_of_length_le hall] at hread
    show Frame.first? f.limit (w ++ stream) = none
    simp only [Frame.first?, hread]
  · simp only [HasRead, hpending]
    exact ⟨hfed, hshort⟩

/-- The header is there: it is refused, or the payload is next. -/
private theorem HasRead.next_of_header {header : Header}
    (hread : Header.read? (w ++ stream.take (Header.size - w.length)) = some (header, [])) :
    f.Finds w stream (f.next stream) := by
  obtain ⟨hfed, hleft⟩ := h.feed stream
  have hheader := hfed.header?_eq
  rw [hread] at hheader
  have hjoined : w ++ stream.take (Header.size - w.length) ++ (f.reader.feed stream).2 = w ++ stream := by
    rw [hleft, List.append_assoc, List.take_append_drop]
  obtain ⟨front, -, hwhole, hfront⟩ := Header.read?_eq_some hread
  rw [List.append_nil] at hwhole
  by_cases hlimit : f.limit < header.length
  · have hnext : f.next stream = ⟨.error (.overLimit header.length f.limit), { f with reader := .start },
        (f.reader.feed stream).2, f.reader.arrival? (f.reader.feed stream).1⟩ := by
      simp only [Framer.next, hpending, HeaderReader.take, hheader, Option.map_some, if_pos hlimit]
    rw [hnext]
    refine ⟨rfl, .inr ⟨_, rfl, ?_, ?_⟩⟩
    · simp only [HasRead, hpending]
      exact ⟨HeaderReader.hasRead_start, by decide⟩
    · rw [← hjoined, hwhole]
      exact Frame.first?_refused (hfront _) hlimit
  · have hnext : f.next stream = { f with reader := .start : Framer }.lookPayload header
        (f.reader.arrival? (f.reader.feed stream).1) (f.reader.feed stream).2 := by
      simp only [Framer.next, hpending, HeaderReader.take, hheader, Option.map_some, if_neg hlimit]
    obtain ⟨hsame, hfinds⟩ := HasRead.lookPayload { f with reader := .start }
      (f.reader.arrival? (f.reader.feed stream).1) (f.reader.feed stream).2 rfl hread
        (Nat.le_of_not_lt hlimit)
    unfold Finds
    rw [hnext, ← hjoined]
    refine ⟨hsame, hfinds.imp_left ?_⟩
    rintro ⟨hnone, hfirst, hw, hkept⟩
    exact ⟨hnone, hfirst, _, hw, by rw [hkept]⟩

end Header

theorem HasRead.next {f : Framer} {w : Bytes} (h : f.HasRead w) (stream : Bytes) :
    f.Finds w stream (f.next stream) := by
  cases hpending : f.pending with
  | some header =>
    simp only [HasRead, hpending] at h
    obtain ⟨hreader, hread, hlimit⟩ := h
    have hnext : f.next stream = f.lookPayload header none stream := by simp only [Framer.next, hpending]
    obtain ⟨hsame, hfinds⟩ := HasRead.lookPayload f none stream hreader hread hlimit
    rw [hnext]
    refine ⟨hsame, hfinds.imp_left ?_⟩
    rintro ⟨hnone, hfirst, hw, hleft⟩
    exact ⟨hnone, hfirst, w, hw, by rw [hleft]⟩
  | none =>
    simp only [HasRead, hpending] at h
    cases hread : Header.read? (w ++ stream.take (Header.size - w.length)) with
    | none => exact HasRead.next_of_short h.1 hpending hread
    | some found =>
      obtain ⟨header, rest⟩ := found
      have hlength := Header.length_of_read? hread
      have hfits := (h.1.feed stream).1.length_le
      have hrest : rest = [] := List.length_eq_zero_iff.1 (by omega)
      subst hrest
      exact HasRead.next_of_header h.1 hpending hread

end Framer

end SecureStream
