import SecureStream.Diagnostics.Event
import SecureStream.Engine.Basic

/-!
# What is reported of channels

A channel takes down what it does as notices. Each notice stands for one event, whose text and topic are fixed here.
-/

namespace SecureStream

/-- What bytes are wrapped for. -/
inductive Purpose where
  | handshake
  | close
  | application
  deriving DecidableEq, Repr

def Purpose.name : Purpose → String
  | handshake => "Handshake"
  | close => "Close"
  | application => "Application"

/-- What a channel has done. -/
inductive Notice where
  | engineCreated (isClient : Bool) (peer : Option HostPort) (policy : CertificatePolicy)
  | handshakeStep (demand : Demand) (offset : Nat)
  | handshakeFinished
  | tasksCompleted (tasks : Nat) (next : Demand)
  | bufferGrown (capacity : Nat) (purpose : Purpose)
  | dataWrapped (plaintext ciphertext : Nat)
  | recordUnwrapped (consumed produced : Nat)
  | recordRetained (retained : Nat)
  | closeReceived (demand : Demand)
  | closeQueued (responses : Nat)
  deriving DecidableEq, Repr

namespace Notice

/-- An optional address with the names of its parts. -/
def peerListing : Option HostPort → String
  | none => "None"
  | some a => s!"Some({a.listing})"

/-- The event that a notice stands for. -/
def event : Notice → Event
  | engineCreated isClient peer policy =>
    .ofTopic .engine .debug "secure engine created"
      [("client", toString isClient), ("peer", peerListing peer), ("client_auth", policy.name)]
  | handshakeStep demand offset =>
    .ofTopic .handshake .debug "handshake step" [("status", demand.name), ("offset", toString offset)]
  | handshakeFinished => .ofTopic .handshake .debug "handshake finished" []
  | tasksCompleted tasks next =>
    .ofTopic .engine .debug "delegated tasks completed" [("tasks", toString tasks), ("next", next.name)]
  | bufferGrown capacity purpose =>
    .ofTopic .engine .debug "wrap buffer grown" [("capacity", toString capacity), ("purpose", purpose.name)]
  | dataWrapped plaintext ciphertext =>
    .ofTopic .record .trace "application data wrapped"
      [("plaintext", toString plaintext), ("ciphertext", toString ciphertext)]
  | recordUnwrapped consumed produced =>
    .ofTopic .record .trace "record unwrapped" [("consumed", toString consumed), ("produced", toString produced)]
  | recordRetained retained => .ofTopic .record .trace "partial record retained" [("retained", toString retained)]
  | closeReceived demand => .ofTopic .close .debug "close alert received" [("status", demand.name)]
  | closeQueued responses => .ofTopic .close .debug "close response queued" [("responses", toString responses)]

end Notice

end SecureStream
