import SecureStream.Frame.Header

/-!
# Frames

A frame is a header and a payload that is as long as the header says.
-/

namespace SecureStream

structure Frame where
  header : Header
  payload : Bytes
  length_payload : payload.length = header.length
  deriving DecidableEq, Repr

namespace Frame

/-- The frame with the given header and payload, if their lengths agree. -/
def new? (header : Header) (payload : Bytes) : Except FrameError Frame :=
  let actual := payload.length
  if h : actual = header.length then .ok ⟨header, payload, h⟩
  else .error (.lengthMismatch header.length actual)

/-- The frame that carries a payload, whose length must fit the header. -/
def ofPayload? (kind flags : UInt8) (streamId : Nat) (payload : Bytes) : Except FrameError Frame :=
  let length := payload.length
  if h : length ≤ longestPayload then .ok ⟨.ofLength length kind flags streamId h, payload, rfl⟩
  else .error (.tooLong length)

/-- The bytes of a frame: header, then payload. -/
def toBytes (f : Frame) : Bytes := f.header.toBytes ++ f.payload

theorem length_toBytes (f : Frame) : f.toBytes.length = Header.size + f.header.length := by
  simp [toBytes, f.length_payload]

end Frame

end SecureStream
