import SecureStream.Session.Basic

/-!
# Sessions that keep a journal

A `Journal` is a recording session, which lies in memory: it keeps its outgoing queue, the messages it received and the
states it moved to.
A `Pinned` journal ignores every request to move, so it stays in the state in which it was made.

* `Journal.state_moveTo`, `Journal.transitions_moveTo`: a journal moves where it is asked to, and remembers it.
-/

namespace SecureStream

/-- A session in memory. -/
structure Journal where
  isClient : Bool
  attributes : Attributes
  state : SessionState
  /-- The pieces in the outgoing queue, oldest first. -/
  queued : Array Bytes
  /-- The messages received, oldest first. -/
  received : Array Bytes
  /-- The states moved to, oldest first. The first state of all is not among them. -/
  transitions : Array SessionState
  deriving DecidableEq, Repr

namespace Journal

/-- A session that has just been connected. -/
def connected (isClient : Bool) (attributes : Attributes) : Journal :=
  ⟨isClient, attributes, .connected, #[], #[], #[]⟩

/-- A session whose channel is open from the start. -/
def secured (isClient : Bool) (attributes : Attributes) : Journal :=
  { connected isClient attributes with state := .secured }

def moveTo (j : Journal) (state : SessionState) : Journal :=
  { j with state, transitions := j.transitions.push state }

def enqueue (j : Journal) (piece : Bytes) : Journal := { j with queued := j.queued.push piece }

def deliver (j : Journal) (message : Bytes) : Journal := { j with received := j.received.push message }

/-- Empties the outgoing queue and joins its pieces. -/
def takeQueued (j : Journal) : Bytes × Journal := (j.queued.toList.flatten, { j with queued := #[] })

def receivedBytes (j : Journal) : Bytes := j.received.toList.flatten

instance : Session Journal := ⟨isClient, attributes, state, moveTo, enqueue, deliver⟩

@[simp] theorem state_moveTo (j : Journal) (s : SessionState) : (j.moveTo s).state = s := rfl

@[simp] theorem transitions_moveTo (j : Journal) (s : SessionState) :
    (j.moveTo s).transitions = j.transitions.push s := rfl

end Journal

/-- A journal whose state is pinned. -/
structure Pinned where
  journal : Journal
  deriving DecidableEq, Repr

namespace Pinned

instance : Session Pinned where
  isClient s := s.journal.isClient
  attributes s := s.journal.attributes
  state s := s.journal.state
  moveTo s _ := s
  enqueue s piece := ⟨s.journal.enqueue piece⟩
  deliver s message := ⟨s.journal.deliver message⟩

end Pinned

end SecureStream
