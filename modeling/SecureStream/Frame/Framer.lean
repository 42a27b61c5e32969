import SecureStream.Frame.Basic
import SecureStream.Frame.HeaderReader

/-!
# Cutting a stream into frames

A `Framer` is a frame codec: it writes frames, and finds the frames in a stream that arrives in pieces. It reads a
header as its bytes arrive, refuses one that announces more than the limit, and otherwise waits until the whole payload
is there. The bytes of a payload stay in the stream until then. How much memory the stream sets aside for them is left
out.

A refused header is gone from the stream, and reading goes on directly behind it.
-/

namespace SecureStream

/-- The state between two looks at the stream. -/
structure Framer where
  /-- The longest payload that is accepted. -/
  limit : Nat
  reader : HeaderReader
  /-- A header whose payload has not arrived in full. -/
  pending : Option Header
  deriving DecidableEq, Repr

namespace Framer

/-- The limit when none is asked for. -/
def defaultLimit : Nat := 16384

/-- A framer at the start of a stream. No frame exceeds `longestPayload`, so a larger limit means this one. -/
def ofLimit (limit : Nat) : Framer := ⟨min limit longestPayload, .start, none⟩

/-- Some bytes of the current frame have been taken from the stream. -/
def isInsideFrame (f : Framer) : Bool := f.pending.isSome || !f.reader.isIdle

/-- What one look at the stream gives. -/
structure Look where
  /-- A frame, an error, or nothing as long as bytes are missing. -/
  result : Except FrameError (Option Frame)
  framer : Framer
  /-- What is left of the stream. -/
  left : Bytes
  /-- The header that became complete. -/
  arrived : Option Header
  deriving Repr

/-- Takes the frame with the given header, if its whole payload is there, and otherwise keeps the header. -/
def lookPayload (f : Framer) (header : Header) (arrived : Option Header) (stream : Bytes) : Look :=
  match h : stream.splitExact? header.length with
  | some (payload, left) =>
    let frame := ⟨header, payload, (Bytes.splitExact?_eq_some_iff.mp h).1⟩
    ⟨.ok (some frame), { f with pending := none }, left, arrived⟩
  | none => ⟨.ok none, { f with pending := some header }, stream, arrived⟩

/-- Takes the next frame from the front of the stream. -/
def next (f : Framer) (stream : Bytes) : Look :=
  match f.pending with
  | some header => f.lookPayload header none stream
  | none =>
    let (reader, left) := f.reader.feed stream
    let arrived := f.reader.arrival? reader
    -- a complete header leaves the reader, also when it is refused
    match reader.take with
    | (none, reader) => ⟨.ok none, { f with reader }, left, arrived⟩
    | (some header, reader) =>
      if f.limit < header.length then ⟨.error (.overLimit header.length f.limit), { f with reader }, left, arrived⟩
      else { f with reader : Framer }.lookPayload header arrived left

/-- Takes the next frame from a stream that has ended, which must not happen inside a frame. -/
def nextAtEnd (f : Framer) (stream : Bytes) : Look :=
  let look := f.next stream
  match look.result with
  | .ok none =>
    if look.framer.isInsideFrame || !look.left.isEmpty then { look with result := .error .truncated } else look
  | _ => look

private theorem left_lookPayload_le (f : Framer) (header : Header) (arrived : Option Header) (stream : Bytes) :
    (f.lookPayload header arrived stream).left.length ≤ stream.length ∧
      (f.lookPayload header arrived stream).framer.reader = f.reader ∧
      (∀ frame, (f.lookPayload header arrived stream).result = .ok (some frame) →
        (f.lookPayload header arrived stream).framer.pending = none) := by
  unfold lookPayload
  split
  · next payload left h =>
    have := (Bytes.splitExact?_eq_some_iff.mp h).2
    refine ⟨?_, rfl, fun _ _ => rfl⟩
    simp [this]
  · exact ⟨Nat.le_refl _, rfl, fun _ h => by cases h⟩

/-- What a framer has in hand, apart from the stream. -/
def inHand (f : Framer) : Nat := f.pending.isSome.toNat + (!f.reader.isIdle).toNat

theorem length_next_lt {f : Framer} {stream : Bytes} {frame : Frame}
    (h : (f.next stream).result = .ok (some frame)) :
    (f.next stream).left.length + (f.next stream).framer.inHand < stream.length + f.inHand := by
  cases hpending : f.pending with
  | some header =>
    have hnext : f.next stream = f.lookPayload header none stream := by simp only [next, hpending]
    rw [hnext] at h ⊢
    obtain ⟨hleft, hreader, hdone⟩ := f.left_lookPayload_le header none stream
    simp only [inHand, hreader, hdone frame h, hpending, Option.isSome_none, Option.isSome_some, Bool.toNat_false,
      Bool.toNat_true]
    omega
  | none =>
    have hle := f.reader.length_feed_le stream
    cases hheader : (f.reader.feed stream).1.header? with
    | none => simp [next, hpending, HeaderReader.take, hheader] at h
    | some header =>
      by_cases hlimit : f.limit < header.length
      · simp [next, hpending, HeaderReader.take, hheader, hlimit] at h
      · have hnext : f.next stream = { f with reader := .start }.lookPayload header
            (f.reader.arrival? (f.reader.feed stream).1) (f.reader.feed stream).2 := by
          simp [next, hpending, HeaderReader.take, hheader, hlimit]
        rw [hnext] at h ⊢
        obtain ⟨hleft, hreader, hdone⟩ := left_lookPayload_le { f with reader := .start } header
          (f.reader.arrival? (f.reader.feed stream).1) (f.reader.feed stream).2
        generalize Framer.lookPayload _ _ _ _ = look at h hleft hreader hdone ⊢
        have hidle : HeaderReader.start.isIdle = true := rfl
        simp only [inHand, hreader, hdone frame h, hpending, hidle, Option.isSome_none, Bool.toNat_false, Bool.not_true]
        cases hfresh : f.reader.isIdle with
        | true =>
          have hfed : (f.reader.feed stream).1.isComplete := by simp [HeaderReader.isComplete, hheader]
          have := HeaderReader.length_feed_lt hfresh hfed
          simp only [Bool.not_true, Bool.toNat_false]
          omega
        | false =>
          simp only [Bool.not_false, Bool.toNat_true]
          omega

/-- Takes frames from the front of the stream until there is none. The last look is the one that found none. -/
def drain (f : Framer) (stream : Bytes) : List Look :=
  let look := f.next stream
  match _ : look.result with
  | .ok (some _) => look :: look.framer.drain look.left
  | _ => [look]
-- what is in hand counts as well: behind a header in hand a frame may take no byte of the stream
termination_by stream.length + f.inHand
decreasing_by exact length_next_lt ‹_›

/-- Puts each piece behind the stream and takes all frames from its front, one piece after the other. Gives all looks,
the framer after them and what is left of the stream. -/
def drainAll (f : Framer) (stream : Bytes) : (pieces : List Bytes) → List Look × Framer × Bytes
  | [] => ([], f, stream)
  | piece :: pieces =>
    let looks := f.drain (stream ++ piece)
    let (framer, left) := (looks.getLast?.map fun look => (look.framer, look.left)).getD (f, stream ++ piece)
    let (more, framer, left) := framer.drainAll left pieces
    (looks ++ more, framer, left)

/-- Appends a frame within the limit to a stream. -/
def put (f : Framer) (frame : Frame) (stream : Bytes) : Except FrameError Bytes :=
  if f.limit < frame.header.length then .error (.overLimit frame.header.length f.limit)
  else .ok (stream ++ frame.toBytes)

end Framer

end SecureStream
