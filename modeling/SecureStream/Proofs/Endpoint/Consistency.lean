import SecureStream.Proofs.Endpoint.Reached
import SecureStream.Proofs.Standing.Steadiness

/-!
# Session and engine agree

Between two requests the session of an endpoint is secured exactly when its engine is there and established
(`Endpoint.secured_iff_established`), in every pool and after any requests, also those that have failed.

`Endpoint.Consistent` is what every request keeps (`Endpoint.Consistent.handle`).
-/

namespace SecureStream.Endpoint

/-- The session of an end and its engine are in step, and its tasks are run on the spot. -/
structure Consistent (p : Endpoint) : Prop where
  standing : p.standing.Sound
  runner : p.channel.runner = .onTheSpot

variable {p : Endpoint}

theorem consistent_connected (isClient : Bool) (options : MaskedOptions) (pool : Pool) :
    (connected isClient options pool).Consistent :=
  ⟨(sound_connected isClient options pool).standing, rfl⟩

namespace Consistent

variable (h : p.Consistent)

include h

theorem moved {s : Standing} (hs : s.Sound) (backlog : Option Backlog) : (p.moved s backlog).Consistent :=
  ⟨hs, h.runner⟩

theorem receive (input : Bytes) : (p.after (p.receive input)).Consistent := by
  obtain ⟨k, hk, hserve⟩ := exists_serve p
  have hsound : k.standing.Sound := by
    rw [hk]
    exact h.standing
  obtain ⟨request, hreceive, hrequest⟩ := p.channel.receive_reads p.make p.session input
  unfold Endpoint.receive
  rw [hreceive, hserve]
  rcases hrequest k with ⟨e, hturn⟩ | ⟨pending, backlog, result, hturn, -⟩
  · rw [hturn, after_turn]
    exact h.moved hsound none
  · rw [hturn, after_turn, h.runner]
    exact h.moved (Link.sound_read hsound p.channel.pool pending) backlog

/-- Every request keeps session and engine in step, whatever comes of it. -/
theorem handle (request : Request) : (p.after (p.handle request)).Consistent := by
  obtain ⟨k, hk, hserve⟩ := exists_serve p
  have hsound : k.standing.Sound := by
    rw [hk]
    exact h.standing
  cases request with
  | prepare =>
    show (p.after (p.channel.prepare p.make p.session)).Consistent
    unfold Channel.prepare
    rw [hserve]
    exact h.moved hsound _
  | start =>
    have hstart := Link.sound_start hsound p.channel.pool
    show (p.after (p.channel.start p.make p.session)).Consistent
    unfold Channel.start
    rw [hserve, h.runner]
    exact h.moved hstart _
  | receive input => exact h.receive input
  | send message =>
    show (p.after (p.channel.send p.make p.session message)).Consistent
    by_cases hsecured : p.standing.IsSecured
    · obtain ⟨k, hk, -, hafter⟩ := exists_send hsecured message
      rw [hafter]
      exact h.moved (Link.sound_write (hk ▸ h.standing) (hk ▸ hsecured) message) _
    · rw [(send_of_not_isSecured hsecured message).2]
      exact h

end Consistent

/-! ### Ends that can be reached -/

namespace Reached

variable {isClient : Bool} {options : MaskedOptions} {pool : Pool} (h : p.Reached isClient options pool)

include h

theorem consistent : p.Consistent := by
  induction h with
  | connected => exact consistent_connected isClient options pool
  | handle h request ih => exact ih.handle request
  | takeQueued h ih =>
    refine ⟨?_, ih.runner⟩
    rw [standing_takeQueued]
    exact ⟨ih.standing.secured_iff, ih.standing.taskRun, ih.standing.isOutputOver⟩

theorem isSecured_iff :
    p.session.state = .secured ↔ ∃ m, p.channel.engine = some m ∧ m.phase = .established := by
  have hiff := h.consistent.standing.secured_iff
  cases hengine : p.channel.engine with
  | none =>
    -- the engine that the next request makes would be idle
    have hidle : p.standing.engine.phase = .idle := by
      unfold standing
      rw [hengine]
      exact p.phase_fresh
    constructor
    · intro hsecured
      have hphase := hiff.1 hsecured
      rw [hidle] at hphase
      cases hphase
    · rintro ⟨m, hm, -⟩
      cases hm
  | some m =>
    rw [standing_of_engine hengine] at hiff
    constructor
    · intro hsecured
      exact ⟨m, rfl, hiff.1 hsecured⟩
    · rintro ⟨m', hm, hphase⟩
      cases hm
      exact hiff.2 hphase

end Reached

/-- After any requests, whatever has come of them, the session is secured if and only if there is an engine
and it is established. -/
theorem secured_iff_established (isClient : Bool) (options : MaskedOptions) (pool : Pool)
    (requests : List Request) :
    let p := ((connected isClient options pool).handleAll requests).2
    p.session.state = .secured ↔ ∃ m, p.channel.engine = some m ∧ m.isEstablished = true := by
  intro p
  have hreached : p.Reached isClient options pool := Reached.connected.handleAll requests
  rw [hreached.isSecured_iff]
  constructor
  · rintro ⟨m, hengine, hphase⟩
    exact ⟨m, hengine, beq_iff_eq.2 hphase⟩
  · rintro ⟨m, hengine, hphase⟩
    exact ⟨m, hengine, beq_iff_eq.1 hphase⟩

end SecureStream.Endpoint
