import SecureStream.ErrorKind

/-!
# Errors of the frame layer

Running out of bytes is not among them: a reader that needs more bytes waits for the next piece.
-/

namespace SecureStream

/-- The longest payload of a frame, whose length takes 24 bits. -/
def longestPayload : Nat := 16777215

/-- Why a field reader, a header or a frame is refused. -/
inductive FrameError where
  /-- A number must take one to four bytes. -/
  | invalidWidth (width : Nat)
  /-- A frame length must fit 24 bits. -/
  | tooLong (length : Nat)
  /-- A frame must stay within the limit of its reader or writer. -/
  | overLimit (length limit : Nat)
  /-- A payload must be as long as its header says. -/
  | lengthMismatch (announced actual : Nat)
  /-- A stream must not end inside a frame. -/
  | truncated
  deriving DecidableEq, Repr

namespace FrameError

def message : FrameError → String
  | invalidWidth width => s!"integer decoder width {width} is outside the supported range 1-4"
  | tooLong length => s!"frame length {length} exceeds the 24-bit maximum {longestPayload}"
  | overLimit length limit => s!"frame length {length} exceeds maximum frame size {limit}"
  | lengthMismatch announced actual =>
    s!"frame header announces {announced} payload bytes but {actual} were supplied"
  | truncated => "stream ended inside a frame"

def kind : FrameError → ErrorKind
  | invalidWidth _ | lengthMismatch _ _ => .invalidInput
  | tooLong _ | overLimit _ _ => .invalidData
  | truncated => .unexpectedEnd

end FrameError

end SecureStream
