import SecureStream.Channel.Basic

/-!
# Requests as data

The four requests of a channel as values, so that the history of a channel is a list.

* `Channel.handleAll_append`: a history may be cut anywhere.
-/

namespace SecureStream

/-- A request to a channel. -/
inductive Request where
  | prepare
  | start
  | receive (input : Bytes)
  | send (message : Bytes)
  deriving DecidableEq, Repr

/-- What a request gives when it succeeds. -/
inductive Response where
  /-- There is an engine. -/
  | ready
  /-- What came of the handshake or of a read. -/
  | outcome (outcome : Outcome)
  | sent (piece : Bytes)
  deriving DecidableEq, Repr

/-- A turn whose result is given in another form. -/
def Turn.map {E S α β : Type} (f : α → β) (turn : Turn E S α) : Turn E S β :=
  ⟨turn.result.map f, turn.channel, turn.session, turn.calls, turn.notices⟩

namespace Channel

variable {E S : Type} [Engine E] [Session S]

def handle (c : Channel E) (make : EngineMaker E) (s : S) : Request → Turn E S Response
  | .prepare => (c.prepare make s).map fun _ => .ready
  | .start => (c.start make s).map .outcome
  | .receive input => (c.receive make s input).map .outcome
  | .send message => (c.send make s message).map .sent

/-- Serves requests one after the other. Each comes with the factory of its time: an engine that cannot be made now may
be made later. Gives all turns, and channel and session after them. -/
def handleAll (c : Channel E) (s : S) : List (EngineMaker E × Request) → List (Turn E S Response) × Channel E × S
  | [] => ([], c, s)
  | (make, request) :: requests =>
    let turn := c.handle make s request
    let (turns, rest) := turn.channel.handleAll turn.session requests
    (turn :: turns, rest)

theorem handleAll_append (c : Channel E) (s : S) (a b : List (EngineMaker E × Request)) :
    c.handleAll s (a ++ b) =
      let (first, c', s') := c.handleAll s a
      let (second, rest) := c'.handleAll s' b
      (first ++ second, rest) := by
  induction a generalizing c s with
  | nil => rfl
  | cons request a ih => simp [handleAll, ih]

end Channel

end SecureStream
