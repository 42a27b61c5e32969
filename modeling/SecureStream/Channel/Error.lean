import SecureStream.Buffer.Error
import SecureStream.Engine.Basic
import SecureStream.ErrorKind

/-!
# Errors of channels

None of them is met by trying again. Missing input is not among them: a channel waits for more.
-/

namespace SecureStream

/-- Why a channel gives up. -/
inductive ChannelError where
  /-- The engine failed. -/
  | engine (operation : Operation) (error : EngineError)
  /-- There is no engine to be had. -/
  | creation (error : EngineError)
  /-- The other side closed the channel before it was open. -/
  | closedEarly
  /-- The engine does not take application data. -/
  | writeRejected (verdict : Verdict)
  /-- The engine answered with a verdict that makes no sense here. -/
  | unexpected (operation : Operation) (verdict : Verdict)
  /-- The engine said that all is well, and nothing had changed. -/
  | noProgress (operation : Operation)
  /-- A buffer could not be had. -/
  | buffer (error : BufferError)
  /-- The channel is not open yet. -/
  | notSecured
  deriving DecidableEq, Repr

namespace ChannelError

def message : ChannelError → String
  | engine operation error => s!"secure engine {operation.text} failed: {error.message}"
  | creation error => s!"failed to create secure engine: {error.message}"
  | closedEarly => "peer closed the secure channel before it was established"
  | writeRejected verdict => s!"engine rejected application data with status {verdict.text}"
  | unexpected operation verdict => s!"unexpected {verdict.text} status during {operation.text}"
  | noProgress operation => s!"secure engine made no progress during {operation.text}"
  | buffer error => error.message
  | notSecured => "session is not secured"

def kind : ChannelError → ErrorKind
  | engine _ _ | creation _ => .other
  | closedEarly => .connectionAborted
  | writeRejected _ | unexpected _ _ | noProgress _ | buffer (.overLimit _ _) => .invalidData
  | buffer (.noMemory _ _) => .outOfMemory
  | notSecured => .notConnected

/-- The texts of the errors behind an error, nearest first. -/
def causes : ChannelError → List String
  | engine _ error | creation error => error.message :: error.cause.toList
  | buffer (.noMemory _ reason) => [reason.message]
  | _ => []

end ChannelError

end SecureStream
