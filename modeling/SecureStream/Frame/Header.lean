import SecureStream.Bytes
import SecureStream.Frame.Error

/-!
# Frame headers

A frame starts with nine bytes: the length of its payload in three bytes, its kind, its flags, and the stream it
belongs to in four bytes. The top bit of a stream id is reserved: it is ignored when read and zero when written.

* `Header.length_toBytes`: a written header has nine bytes.
-/

namespace SecureStream

/-- The number of stream ids. Their top bit is reserved. -/
def streamIds : Nat := 2147483648

structure Header where
  length : Nat
  kind : UInt8
  flags : UInt8
  streamId : Nat
  length_le : length ≤ longestPayload
  streamId_lt : streamId < streamIds
  deriving DecidableEq, Repr

namespace Header

/-- The number of bytes of a header. -/
def size : Nat := 9

def lastStreamId : Nat := streamIds - 1

/-- A header for a payload of a length that fits its field. The reserved bit of the stream id is dropped. -/
def ofLength (length : Nat) (kind flags : UInt8) (streamId : Nat) (length_le : length ≤ longestPayload) : Header :=
  ⟨length, kind, flags, streamId % streamIds, length_le, Nat.mod_lt _ (by decide)⟩

/-- A header for a payload of the given length, which must fit its field. -/
def new? (length : Nat) (kind flags : UInt8) (streamId : Nat) : Except FrameError Header :=
  if h : length ≤ longestPayload then .ok (ofLength length kind flags streamId h) else .error (.tooLong length)

/-- A header read from its fields. A length that does not fit keeps its low 24 bits. -/
def ofFields (length : Nat) (kind flags : UInt8) (streamId : Nat) : Header :=
  ofLength (length % (longestPayload + 1)) kind flags streamId (Nat.le_of_lt_succ (Nat.mod_lt _ (Nat.succ_pos _)))

def toBytes (h : Header) : Bytes :=
  Bytes.bigEndian 3 h.length ++ h.kind :: h.flags :: Bytes.bigEndian 4 h.streamId

@[simp] theorem length_toBytes (h : Header) : h.toBytes.length = size := by
  simp [toBytes, size]

end Header

end SecureStream
