import SecureStream.Channel.Closing

/-!
# Records

On an open channel the input is a sequence of records. Each complete record is unwrapped and its message handed to the
session; a partial record at the end waits for the rest.
-/

namespace SecureStream

/-- What came of a read. -/
inductive Outcome where
  /-- The handshake goes on and needs more input. -/
  | handshaking
  /-- The handshake has been completed, and then messages of so many bytes were delivered. -/
  | secured (delivered : Nat)
  /-- Messages of so many bytes were delivered. -/
  | delivered (bytes : Nat)
  /-- There was no complete record. -/
  | starved
  /-- The other side closed the channel. -/
  | closed
  deriving DecidableEq, Repr

namespace Outcome

def isSecured : Outcome → Bool
  | secured _ => true
  | _ => false

end Outcome

namespace Link

variable {E S : Type} [Engine E] [Session S]

/-- Hands over the message in a buffer, if there is one, for which so many bytes of input were used. -/
def handOver (k : Link E S) (consumed : Nat) (b : Scratch) : Link E S :=
  if b.isEmpty then k else (k.deliver b.bytes).note (.recordUnwrapped consumed b.size)

@[simp] theorem work_handOver (k : Link E S) (consumed : Nat) (b : Scratch) :
    (k.handOver consumed b).work = k.work := by
  unfold handOver
  split <;> simp

/-- Unwraps record after record, and hands over their messages. Gives what came of it and the input that is left. -/
def unwrapAll (pool : Pool) (k : Link E S) (input : Bytes) (b : Scratch) (delivered : Nat) :
    Except ChannelError (Outcome × Bytes) × Link E S :=
  match _ : k.unwrap input b.room with
  | (.error e, k) => (.error (.engine .unwrap e), k)
  | (.ok r, after) =>
    let left := input.drop r.consumed
    let filled := b.store r.output r.produced
    match _ : r.verdict with
    | .ok =>
      -- a record without data is fine as long as it uses up input
      if filled.isEmpty ∧ r.consumed = 0 then (.error (.noProgress .unwrap), after)
      else
        let served := after.handOver r.consumed filled
        if left.isEmpty then (.ok (.delivered (delivered + filled.size), left), served)
        else served.unwrapAll pool left filled.clear (delivered + filled.size)
    | .underflow =>
      (.ok (if delivered = 0 then .starved else .delivered delivered, left), after.note (.recordRetained left.length))
    | .overflow =>
      match _ : filled.grow with
      | .error e => (.error (.buffer e), after)
      | .ok grown => after.unwrapAll pool left grown delivered
    | .closed =>
      if after.state = .secured then
        match after.answerClose pool r.demand with
        | (.error e, k) => (.error e, k)
        | (.ok (), k) => (.ok (.closed, left), k)
      else (.error .closedEarly, after)
-- a call uses up input, has the engine do some of its work, or asks for a larger buffer
termination_by k.work + input.length + (b.limit - b.capacity)
decreasing_by
  · have hle := work_le_of_unwrap ‹_›
    have hprogress := unwrap_ok ‹k.unwrap _ _ = _› ‹_›
    simp only [work_handOver, Scratch.limit_clear, Scratch.capacity_clear, Scratch.limit_store,
      Scratch.capacity_store, List.length_drop]
    omega
  · have hle := work_le_of_unwrap ‹_›
    have hgrown := Scratch.limit_sub_lt_of_grow ‹filled.grow = _›
    simp only [filled, Scratch.limit_store, Scratch.capacity_store] at hgrown
    simp only [List.length_drop]
    omega

/-- Unwraps the records of an input. -/
def unwrapRecords (pool : Pool) (k : Link E S) (input : Bytes) : Except ChannelError (Outcome × Bytes) × Link E S :=
  if input.isEmpty then (.ok (.starved, input), k)
  else
    match Scratch.ofCapacity? (pool.plaintextRoom input.length) pool with
    | .error e => (.error (.buffer e), k)
    | .ok b => k.unwrapAll pool input b 0

end Link

end SecureStream
