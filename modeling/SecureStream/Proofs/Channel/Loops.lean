import SecureStream.Channel.Basic

/-!
# Turns of the loops

The loops of a link carry what their termination rests on.  Here one turn of each is an equation without it:
of the loop that wraps (`Link.wrapAll_eq`), of those that unwrap (`Link.unwrapAll_eq`, `Link.unwrapStep_eq`), of
the one that runs tasks (`Link.drainTasks_eq`), of the one that answers an alert (`Link.sendClosing_eq`) and of
the one over the demands of a handshake (`Link.shake_finished`, `Link.shake_task`, `Link.shake_output`,
`Link.shake_input`).
-/

namespace SecureStream

variable {E S : Type} [Engine E] {pool : Pool}

/-- Output of which nothing is there leaves a buffer as it is. -/
theorem Scratch.store_nil (b : Scratch) : b.store [] 0 = b := by
  cases b
  simp [store, advance, write]

namespace Link

variable {k after : Link E S} {input : Bytes} {b : Scratch}

theorem wrapAll_eq {purpose : Purpose} : k.wrapAll purpose input b =
    match k.wrap input b.room with
    | (.error e, k) => (.error (.engine .wrap e), k)
    | (.ok r, k) =>
      match r.verdict with
      | .overflow =>
        match (b.store r.output r.produced).grow with
        | .error e => (.error (.buffer e), k)
        | .ok grown => (k.note (.bufferGrown grown.capacity purpose)).wrapAll purpose (input.drop r.consumed) grown
      | .ok =>
        if (input.drop r.consumed).isEmpty then (.ok (b.store r.output r.produced, r.demand), k)
        else if r.consumed = 0 then (.error (.noProgress .wrap), k)
        else k.wrapAll purpose (input.drop r.consumed) (b.store r.output r.produced)
      | .closed =>
        if purpose = .application then (.error (.writeRejected .closed), k)
        else (.ok (b.store r.output r.produced, r.demand), k)
      | .underflow =>
        (.error (if purpose = .application then .writeRejected .underflow else .unexpected .wrap .underflow), k) := by
  rw [wrapAll]
  rcases k.wrap input b.room with ⟨e | r, after⟩
  · rfl
  · dsimp only
    cases r.verdict with
    | overflow =>
      dsimp only
      split <;> (next hgrow => simp only [hgrow])
    | ok => simp only [dite_eq_ite]
    | _ => rfl

/-- The buffer is too small. -/
theorem wrapAll_of_overflow {purpose : Purpose} {demand : Demand}
    (h : k.wrap input b.room = (.ok (.overflow demand), after)) :
    k.wrapAll purpose input b =
      match b.grow with
      | .error e => (.error (.buffer e), after)
      | .ok grown => (after.note (.bufferGrown grown.capacity purpose)).wrapAll purpose input grown := by
  rw [wrapAll_eq, h]
  dsimp only [Reply.overflow]
  rw [Scratch.store_nil]
  rfl

theorem drainTasks_eq {runner : Runner} {count : Nat} : k.drainTasks runner count =
    match Engine.takeTask? k.engine with
    | none => (count, k.log (.takeTask false))
    | some engine =>
      (({ k with engine := runner.run engine }.log (.takeTask true)).log .runTask).drainTasks runner (count + 1) := by
  rw [drainTasks]
  split <;> (next htask => rw [htask])

theorem unwrapStep_eq : k.unwrapStep input b =
    match k.unwrap input b.room with
    | (.error e, k) => (.error (.engine .unwrap e), k)
    | (.ok r, k) =>
      match r.verdict with
      | .ok =>
        if r.consumed = 0 ∧ (r.demand = .input ∨ r.demand = .none) then (.error (.noProgress .unwrap), k)
        else (.ok (some r.demand, input.drop r.consumed), k)
      | .underflow => (.ok (none, input.drop r.consumed), k)
      | .overflow =>
        match (b.store r.output r.produced).grow with
        | .error e => (.error (.buffer e), k)
        | .ok grown => k.unwrapStep (input.drop r.consumed) grown
      | .closed => (.error .closedEarly, k) := by
  rw [unwrapStep]
  rcases k.unwrap input b.room with ⟨e | r, after⟩
  · rfl
  · dsimp only
    cases r.verdict with
    | overflow =>
      dsimp only
      split <;> (next hgrow => simp only [hgrow])
    | _ => rfl

variable [Session S]

theorem unwrapAll_eq {n : Nat} : k.unwrapAll pool input b n =
    match k.unwrap input b.room with
    | (.error e, k) => (.error (.engine .unwrap e), k)
    | (.ok r, after) =>
      match r.verdict with
      | .ok =>
        if (b.store r.output r.produced).isEmpty ∧ r.consumed = 0 then (.error (.noProgress .unwrap), after)
        else if (input.drop r.consumed).isEmpty then
          (.ok (.delivered (n + (b.store r.output r.produced).size), input.drop r.consumed),
            after.handOver r.consumed (b.store r.output r.produced))
        else
          (after.handOver r.consumed (b.store r.output r.produced)).unwrapAll pool (input.drop r.consumed)
            (b.store r.output r.produced).clear (n + (b.store r.output r.produced).size)
      | .underflow =>
        (.ok (if n = 0 then .starved else .delivered n, input.drop r.consumed),
          after.note (.recordRetained (input.drop r.consumed).length))
      | .overflow =>
        match (b.store r.output r.produced).grow with
        | .error e => (.error (.buffer e), after)
        | .ok grown => after.unwrapAll pool (input.drop r.consumed) grown n
      | .closed =>
        if after.state = .secured then
          match after.answerClose pool r.demand with
          | (.error e, k) => (.error e, k)
          | (.ok (), k) => (.ok (.closed, input.drop r.consumed), k)
        else (.error .closedEarly, after) := by
  rw [unwrapAll]
  split
  · next heq => rw [heq]
  · next r after heq =>
    rw [heq]
    dsimp only
    split
    · next hverdict => rw [hverdict]
    · next hverdict => rw [hverdict]
    · next hverdict =>
      rw [hverdict]
      split <;> (next hgrow => simp only [hgrow])
    · next hverdict =>
      rcases after.answerClose pool r.demand with ⟨_ | _, _⟩ <;> simp only [hverdict]

theorem sendClosing_eq {count : Nat} : k.sendClosing pool count =
    if Engine.isOutputOver k.engine then (.ok count, k)
    else
      match k.wrapNew pool .close (pool.cap (Engine.largestRecord k.engine)) [] with
      | (.error e, k) => (.error e, k)
      | (.ok (output, _), after) =>
        if output.isEmpty then
          if Engine.isOutputOver after.engine then (.ok count, after) else (.error (.noProgress .wrap), after)
        else (after.enqueue output).sendClosing pool (count + 1) := by
  rw [sendClosing]
  split
  · rfl
  · rcases k.wrapNew pool .close (pool.cap (Engine.largestRecord k.engine)) [] with ⟨_ | _, _⟩ <;> rfl

section Handshake

variable {runner : Runner} {total : Nat}

theorem shake_finished : k.shake pool runner total .finished input =
    (.ok (true, input), { (k.note (.handshakeStep .finished (total - input.length))).moveTo .secured with
      handshaking := false }.note .handshakeFinished) := by
  rw [shake]

theorem shake_output : k.shake pool runner total .output input =
    match (k.note (.handshakeStep .output (total - input.length))).fetchOutput pool with
    | (.error e, k) => (.error e, k)
    | (.ok next, after) => after.shake pool runner total next input := by
  rw [shake]
  split <;> (next heq => rw [heq])

theorem shake_task : k.shake pool runner total .task input =
    match (k.note (.handshakeStep .task (total - input.length))).runTasks runner with
    | (.error e, k) => (.error e, k)
    | (.ok next, after) => after.shake pool runner total next input := by
  rw [shake]
  split <;> (next heq => rw [heq])

theorem shake_input {demand : Demand} (h : demand = .input ∨ demand = .none) :
    k.shake pool runner total demand input =
      match (k.note (.handshakeStep demand (total - input.length))).bringInput pool input with
      | (.error e, k) => (.error e, k)
      | (.ok (none, left), k) => (.ok (false, left), k)
      | (.ok (some next, left), after) => after.shake pool runner total next left := by
  rcases h with rfl | rfl <;> rw [shake] <;> split <;> (next heq => rw [heq])

end Handshake

end Link

end SecureStream
