import SecureStream.Proofs.Channel.Keeping
import SecureStream.Proofs.Endpoint.Plain

/-!
# Ends that can be reached

An end is reached when requests have led to it, in any order and whatever came of them, while its queue has
been emptied now and then.  All that such an end has from its beginning are its options and its pool, and it
is sound in an ample pool.  An end that is secured has an engine, which is established and has the options of
the end (`Endpoint.Reached.exists_engine`).
-/

namespace SecureStream

/-! ### Options -/

namespace Masked

theorem options_emit (m : Masked) (record : Record) (room : Nat) (next : MaskedPhase) (verdict : Verdict) :
    (m.emit record room next verdict).2.options = m.options := by
  unfold emit
  dsimp only
  split <;> rfl

theorem options_wrap (m : Masked) (input : Bytes) (room : Nat) :
    (m.wrap input room).2.options = m.options := by
  by_cases hphase : m.phase = .established
  · obtain ⟨n, hn⟩ := wrap_of_established hphase input room
    rw [hn]
  · unfold wrap
    split
    · exact options_emit ..
    · split
      · exact options_emit ..
      · rfl
    · next heq => exact absurd heq hphase
    · exact options_emit ..
    · rfl
    · rfl
    · rfl

theorem options_unwrap (m : Masked) (input : Bytes) (room : Nat) :
    (m.unwrap input room).2.options = m.options := by
  unfold unwrap accept
  repeat' split
  all_goals rfl

theorem options_startHandshake (m : Masked) : m.startHandshake.2.options = m.options := by
  unfold startHandshake
  split
  · split <;> rfl
  · rfl

theorem options_takeTask? (m : Masked) : (m.takeTask?.getD m).options = m.options := by
  unfold takeTask?
  split <;> rfl

/-- No call changes the options. -/
theorem keeps_options (options : MaskedOptions) : Engine.Keeps fun m : Masked => m.options = options where
  wrap m input room h := (m.options_wrap input room).trans h
  unwrap m input room h := (m.options_unwrap input room).trans h
  takeTask m m' htask h := by
    have hoptions := m.options_takeTask?
    change m.takeTask? = some m' at htask
    rw [htask] at hoptions
    exact hoptions.trans h
  runTask _ h := h
  startHandshake m h := m.options_startHandshake.trans h
  setSide _ _ h := h
  setCertificatePolicy _ _ h := h

end Masked

/-! ### Ends -/

namespace Endpoint

theorem standing_of_engine {p : Endpoint} {m : Masked} (h : p.channel.engine = some m) :
    p.standing = ⟨m, p.session, p.channel.handshaking⟩ := by
  unfold standing
  rw [h]
  rfl

/-- An end of a connection after requests, whatever came of them. -/
inductive Reached (isClient : Bool) (options : MaskedOptions) (pool : Pool) : Endpoint → Prop where
  | connected : Reached isClient options pool (.connected isClient options pool)
  | handle {p : Endpoint} (h : Reached isClient options pool p) (request : Request) :
    Reached isClient options pool (p.after (p.handle request))
  | takeQueued {p : Endpoint} (h : Reached isClient options pool p) :
    Reached isClient options pool p.takeQueued.2

namespace Reached

variable {isClient : Bool} {options : MaskedOptions} {pool : Pool} {p : Endpoint}
  (h : p.Reached isClient options pool)

include h

theorem handleAll (requests : List Request) : (p.handleAll requests).2.Reached isClient options pool := by
  induction requests generalizing p with
  | nil => exact h
  | cons request requests ih => exact ih (h.handle request)

theorem options_eq : p.options = options := by
  induction h with
  | connected => rfl
  | handle h request ih => exact ih
  | takeQueued h ih => exact ih

theorem pool_eq : p.channel.pool = pool := by
  induction h with
  | connected => rfl
  | handle h request ih => rw [pool_after_handle, ih]
  | takeQueued h ih => exact ih

theorem engine_options {m : Masked} (hengine : p.channel.engine = some m) : m.options = options := by
  induction h generalizing m with
  | connected => cases hengine
  | @handle p h request ih =>
    have hmake : ∀ peer m, p.make peer = .ok m → m.options = options := by
      rintro _ _ ⟨⟩
      exact h.options_eq
    have hafter := (Masked.keeps_options options).handle (s := p.session) hmake (fun _ => ih) request
    exact hafter m hengine
  | takeQueued h ih => exact ih hengine

theorem sound (hp : pool.IsAmple) : p.Sound := by
  induction h with
  | connected => exact sound_connected isClient options pool
  | handle h request ih => exact ih.handle (h.pool_eq ▸ hp) request
  | takeQueued h ih => exact ih.takeQueued

/-- An end that is secured has an engine. -/
theorem exists_engine (hp : pool.IsAmple) (hsecured : p.session.state = .secured) :
    ∃ m, p.channel.engine = some m ∧ m.phase = .established ∧ m.options = options := by
  have hphase : p.standing.engine.phase = .established := (h.sound hp).standing.secured_iff.1 hsecured
  rcases hengine : p.channel.engine with _ | m
  · have hidle : p.standing.engine.phase = .idle := by
      unfold standing
      rw [hengine]
      exact p.phase_fresh
    rw [hidle] at hphase
    cases hphase
  · rw [standing_of_engine hengine] at hphase
    exact ⟨m, rfl, hphase, h.engine_options hengine⟩

end Reached

end Endpoint

end SecureStream
