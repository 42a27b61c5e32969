import SecureStream.Channel.Wrapping

/-!
# Closing

When the other side closes an open channel, the session goes back to its first state and the engine may answer. Every
piece of its answer is sent until it says that there is no more.
-/

namespace SecureStream.Link

variable {E S : Type} [Engine E] [Session S]

/-- Sends the answer of the engine piece by piece, and counts the pieces. -/
def sendClosing (pool : Pool) (k : Link E S) (count : Nat) : Except ChannelError Nat × Link E S :=
  if Engine.isOutputOver k.engine then (.ok count, k)
  else
    match _ : k.wrapNew pool .close (pool.cap (Engine.largestRecord k.engine)) [] with
    | (.error e, k) => (.error e, k)
    | (.ok (output, _), after) =>
      if _ : output.isEmpty then
        -- an engine that sends nothing and has more to send would be asked again without end
        if Engine.isOutputOver after.engine then (.ok count, after) else (.error (.noProgress .wrap), after)
      else (after.enqueue output).sendClosing pool (count + 1)
termination_by k.work
decreasing_by
  rw [work_enqueue]
  rcases wrapNew_nil ‹_› with hlt | ⟨rfl, -⟩
  · exact hlt
  · simp_all

/-- Reacts to the end that the other side has announced. -/
def answerClose (pool : Pool) (k : Link E S) (demand : Demand) : Except ChannelError Unit × Link E S :=
  let noted := k.note (.closeReceived demand)
  if demand = .output then
    match (noted.moveTo .connected).sendClosing pool 0 with
    | (.error e, k) => (.error e, k)
    | (.ok count, k) => (.ok (), k.note (.closeQueued count))
  else (.ok (), noted)

end SecureStream.Link
