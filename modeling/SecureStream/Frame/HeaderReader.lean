import SecureStream.Frame.BlockReader
import SecureStream.Frame.Header
import SecureStream.Frame.NumberReader

/-!
# Reading a header piece by piece

A `HeaderReader` is a frame header decoder: it walks through the fields of a header in the order in which they are
written. It takes no byte beyond the header, so the payload stays in the stream.

* `HeaderReader.length_feed_lt`: completing a header that is not begun uses bytes up.
-/

namespace SecureStream

/-- The field that is being read, and the fields before it. -/
inductive HeaderReader where
  | inLength (number : NumberReader)
  | inKindFlags (length : Nat) (block : BlockReader 2)
  | inStreamId (length : Nat) (kind flags : UInt8) (number : NumberReader)
  | complete (header : Header)
  deriving DecidableEq, Repr

namespace HeaderReader

def start : HeaderReader := .inLength (.ofWidth 3 (by decide) (by decide))

def header? : HeaderReader → Option Header
  | .complete header => some header
  | _ => none

def isComplete (r : HeaderReader) : Bool := r.header?.isSome

/-- No byte of the header has been read. -/
def isIdle : HeaderReader → Bool
  | .inLength number => number.isFresh
  | _ => false

/-- Reads on in the stream id, with which the header is complete. -/
def feedStreamId (length : Nat) (kind flags : UInt8) (number : NumberReader) (bytes : Bytes) :
    HeaderReader × Bytes :=
  let (number, left) := number.feed bytes
  if number.isComplete then (.complete (.ofFields length kind flags number.soFar.toNat), left)
  else (.inStreamId length kind flags number, left)

/-- Reads on in kind and flags, and then in the stream id. -/
def feedKindFlags (length : Nat) (block : BlockReader 2) (bytes : Bytes) : HeaderReader × Bytes :=
  let (block, left) := block.feed bytes
  match block.held with
  -- all fields that are there are read at once, so a piece may hold a whole header
  | [kind, flags] => feedStreamId length kind flags (.ofWidth 4 (by decide) (by decide)) left
  | _ => (.inKindFlags length block, left)

/-- Reads on in the length, and then in kind and flags. -/
def feedLength (number : NumberReader) (bytes : Bytes) : HeaderReader × Bytes :=
  let (number, left) := number.feed bytes
  if number.isComplete then feedKindFlags number.soFar.toNat .empty left else (.inLength number, left)

/-- Reads from the front of a piece of the stream, and returns what it leaves of the piece. -/
def feed : HeaderReader → Bytes → HeaderReader × Bytes
  | .inLength number, bytes => feedLength number bytes
  | .inKindFlags length block, bytes => feedKindFlags length block bytes
  | .inStreamId length kind flags number, bytes => feedStreamId length kind flags number bytes
  | .complete header, bytes => (.complete header, bytes)

/-- Takes a complete header out, which makes the reader ready for the next one. -/
def take (r : HeaderReader) : Option Header × HeaderReader :=
  match r.header? with
  | some header => (some header, start)
  | none => (none, r)

/-- The header that became complete between two states of a reader. -/
def arrival? (before after : HeaderReader) : Option Header :=
  if before.isComplete then none else after.header?

private theorem length_feedStreamId_le (length : Nat) (kind flags : UInt8) (number : NumberReader) (bytes : Bytes) :
    (feedStreamId length kind flags number bytes).2.length ≤ bytes.length := by
  have := number.length_feed_le bytes
  unfold feedStreamId
  dsimp only
  split <;> exact this

private theorem length_feedKindFlags_le (length : Nat) (block : BlockReader 2) (bytes : Bytes) :
    (feedKindFlags length block bytes).2.length ≤ bytes.length := by
  have hle : (block.feed bytes).2.length ≤ bytes.length := by simp
  unfold feedKindFlags
  dsimp only
  split
  · exact Nat.le_trans (length_feedStreamId_le _ _ _ _ _) hle
  · exact hle

private theorem length_feedLength_le (number : NumberReader) (bytes : Bytes) :
    (feedLength number bytes).2.length ≤ bytes.length := by
  have hle := number.length_feed_le bytes
  unfold feedLength
  dsimp only
  split
  · exact Nat.le_trans (length_feedKindFlags_le _ _ _) hle
  · exact hle

theorem length_feed_le (r : HeaderReader) (bytes : Bytes) : (r.feed bytes).2.length ≤ bytes.length := by
  cases r with
  | inLength number => exact length_feedLength_le number bytes
  | inKindFlags length block => exact length_feedKindFlags_le length block bytes
  | inStreamId length kind flags number => exact length_feedStreamId_le length kind flags number bytes
  | complete header => exact Nat.le_refl _

theorem length_feed_lt {r : HeaderReader} {bytes : Bytes} (h : r.isIdle) (hfed : (r.feed bytes).1.isComplete) :
    (r.feed bytes).2.length < bytes.length := by
  cases r with
  | inLength number =>
    have hnumber := NumberReader.not_isComplete_of_isFresh h
    unfold feed feedLength at hfed ⊢
    dsimp only at hfed ⊢
    split
    · next hcomplete =>
      exact Nat.lt_of_le_of_lt (length_feedKindFlags_le _ _ _) (NumberReader.length_feed_lt hnumber hcomplete)
    · next hcomplete => simp [hcomplete, isComplete, header?] at hfed
  | _ => cases h

end HeaderReader

end SecureStream
