import SecureStream.Bytes
import SecureStream.Session.Attributes

/-!
# Sessions

A session is what a channel serves. It says which side it is and in which state, takes the write requests that go out
into its queue, and receives the messages that come in. A write request is no more than its bytes.
-/

namespace SecureStream

/-- How far a session is on its way to a secure channel. -/
inductive SessionState where
  /-- There is a connection and nothing more. -/
  | connected
  /-- The handshake is going on. -/
  | securing
  /-- Messages may pass. -/
  | secured
  deriving DecidableEq, Repr

def SessionState.name : SessionState → String
  | connected => "Connected"
  | securing => "Securing"
  | secured => "Secured"

/-- What a channel needs of a session. -/
class Session (S : Type) where
  isClient : S → Bool
  attributes : S → Attributes
  state : S → SessionState
  /-- Asks the session to move to a state. -/
  moveTo : S → SessionState → S
  /-- Adds a piece to the outgoing queue. -/
  enqueue : S → Bytes → S
  /-- Hands over a message that came in. -/
  deliver : S → Bytes → S

end SecureStream
