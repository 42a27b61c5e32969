import SecureStream.Bytes
import SecureStream.Frame.Error

/-!
# Reading a number piece by piece

A `NumberReader` is an integer decoder: it reads a big-endian number of one to four bytes from pieces of a stream. It
takes bytes from the front of each piece until the number is complete, and none after that.

* `NumberReader.feed_append`: a piece may be cut anywhere.
* `NumberReader.length_feed_lt`: completing a number uses bytes up.
-/

namespace SecureStream

/-- A big-endian number of `width` bytes, of which `remaining` are still to come. -/
structure NumberReader where
  width : Nat
  remaining : Nat
  /-- The number made of the bytes read so far. -/
  soFar : UInt32
  width_pos : 0 < width
  width_le : width ≤ 4
  remaining_le : remaining ≤ width
  deriving DecidableEq, Repr

namespace NumberReader

/-- The largest width of a number, in bytes. -/
def maxWidth : Nat := 4

/-- A reader of `width` bytes that has read none. -/
def ofWidth (width : Nat) (width_pos : 0 < width) (width_le : width ≤ 4) : NumberReader :=
  ⟨width, width, 0, width_pos, width_le, Nat.le_refl _⟩

/-- A reader of `width` bytes, if numbers of this width can be read. -/
def ofWidth? (width : Nat) : Except FrameError NumberReader :=
  if h : 0 < width ∧ width ≤ 4 then .ok (ofWidth width h.1 h.2) else .error (.invalidWidth width)

def isComplete (r : NumberReader) : Bool := r.remaining == 0

/-- No byte of the number has been read. -/
def isFresh (r : NumberReader) : Bool := r.remaining == r.width

def value? (r : NumberReader) : Option UInt32 := if r.isComplete then some r.soFar else none

/-- Appends one byte to an incomplete number. -/
def push (r : NumberReader) (b : UInt8) : NumberReader :=
  { r with
    remaining := r.remaining - 1
    -- four bytes fill the word, so nothing is ever shifted out of it
    soFar := r.soFar <<< 8 ||| b.toUInt32
    remaining_le := Nat.le_trans (Nat.sub_le _ _) r.remaining_le }

/-- Reads from the front of a piece of the stream, and returns what it leaves of the piece. -/
def feed (r : NumberReader) : Bytes → NumberReader × Bytes
  | [] => (r, [])
  | b :: bytes => if r.isComplete then (r, b :: bytes) else (r.push b).feed bytes

/-- A reader of the same width that has read nothing. -/
def reset (r : NumberReader) : NumberReader := ofWidth r.width r.width_pos r.width_le

theorem feed_append (r : NumberReader) (a b : Bytes) :
    r.feed (a ++ b) = let (r', left) := r.feed a; if left.isEmpty then r'.feed b else (r', left ++ b) := by
  induction a generalizing r with
  | nil => simp [feed]
  | cons x a ih =>
    by_cases h : r.isComplete
    · simp [feed, h]
    · simp [feed, h, ih]

theorem length_feed_le (r : NumberReader) (bytes : Bytes) : (r.feed bytes).2.length ≤ bytes.length := by
  induction bytes generalizing r with
  | nil => exact Nat.le_refl _
  | cons b bytes ih =>
    rw [feed]
    split
    · exact Nat.le_refl _
    · exact Nat.le_succ_of_le (ih _)

theorem length_feed_lt {r : NumberReader} {bytes : Bytes} (h : ¬ r.isComplete) (hfed : (r.feed bytes).1.isComplete) :
    (r.feed bytes).2.length < bytes.length := by
  cases bytes with
  | nil => exact absurd hfed h
  | cons b bytes =>
    rw [feed, if_neg h]
    exact Nat.lt_succ_of_le (length_feed_le _ _)

theorem not_isComplete_of_isFresh {r : NumberReader} (h : r.isFresh) : ¬ r.isComplete := by
  have := r.width_pos
  simp_all [isFresh, isComplete]
  omega

end NumberReader

end SecureStream
