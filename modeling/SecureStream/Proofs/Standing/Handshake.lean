import SecureStream.Proofs.Standing.Laws
import SecureStream.Proofs.Standing.Output

/-!
# Handshakes of a standing

The loop over the demands of an engine makes few turns when the engine is masked: it sends what is due,
takes at most one record, and answers it.  `Standing.shake` says so without a loop, and `Link.bare_shake` is
the proof that nothing else happens.  In an ample pool the buffer for the output of a handshake can always
be had, so the length of the input does not matter here.
-/

namespace SecureStream

variable {pool : Pool}

/-- What an end of the channel is during a handshake. -/
def Stop.early : Stop → ChannelError
  | .closed => .closedEarly
  | .failed e => e

namespace Standing

/-- Takes the record at the front of the input, if all of it is there. -/
def takeFirst (pool : Pool) (s : Standing) (input : Bytes) : Except ChannelError (Bool × Bytes) × Standing :=
  match Record.next? input with
  | none => (.ok (false, input), s)
  | some (r, rest) =>
    match s.accept pool r with
    | (.error e, s) => (.error e.early, s)
    | (.ok _, s) => (.ok (true, rest), s)

/-- Sends what is due and takes at most one record.  Says whether the channel is open then, and gives the
input that is left. -/
def shake (pool : Pool) (s : Standing) (input : Bytes) : Except ChannelError (Bool × Bytes) × Standing :=
  match s.settle pool with
  | (.error e, s) => (.error e, s)
  | (.ok (), s) => if s.IsSecured then (.ok (true, input), s) else s.takeFirst pool input

end Standing

namespace Standing

variable {s s' : Standing} {input left : Bytes}

theorem shake_enter (h : ¬ s.IsSecured) : s.enter.shake pool input = s.shake pool input := by
  unfold shake
  rw [settle_enter h]

/-- What a handshake is without an open channel: the settled standing takes the first record. -/
theorem takeFirst_cases (pool : Pool) (h : s.Settled) (hsecured : ¬ s.IsSecured) (input : Bytes) :
    (Record.next? input = none ∧ s.takeFirst pool input = (.ok (false, input), s)) ∨
      ∃ r rest, Record.next? input = some (r, rest) ∧
        ((∃ e s', s.accept pool r = (.error (.failed e), s') ∧ s.takeFirst pool input = (.error e, s')) ∨
          ∃ s', s.accept pool r = (.ok 0, s') ∧ s'.Settled ∧ s'.IsSecured ∧
            s.takeFirst pool input = (.ok (true, rest), s')) := by
  unfold takeFirst
  rcases hnext : Record.next? input with _ | ⟨r, rest⟩
  · exact .inl ⟨rfl, rfl⟩
  · refine .inr ⟨r, rest, rfl, ?_⟩
    dsimp only
    rcases haccept : s.accept pool r with ⟨(_ | e) | n, s'⟩
    · exact absurd (isSecured_of_accept haccept) hsecured
    · exact .inl ⟨e, s', rfl, rfl⟩
    · obtain ⟨hopen, hn⟩ := h.accept_ok haccept
      have hsettled := (h.accept pool r).2 n (by rw [haccept])
      rw [haccept] at hsettled
      rw [hn.resolve_left hsecured]
      exact .inr ⟨s', rfl, hsettled, hopen, rfl⟩

/-- During a handshake, a read shakes hands and then takes the records that are left. -/
theorem Sound.read_of_shake (h : s.Sound) (pool : Pool) (hsecured : ¬ s.IsSecured) (input : Bytes) :
    (s.shake pool input).2.Sound ∧
      (∀ left, (s.shake pool input).1 = .ok (true, left) →
        (s.shake pool input).2.IsSecured ∧ left.length ≤ input.length) ∧
      s.read pool input =
        match s.shake pool input with
        | (.error e, s) => (.error (.failed e), s)
        | (.ok (false, left), s) => (.ok (.handshaking, left), s)
        | (.ok (true, left), s) =>
          match s.acceptAll pool (Record.grammar.parse left).1 with
          | (.error e, s) => (.error e, s)
          | (.ok n, s) => (.ok (.secured n, (Record.grammar.parse left).2), s) := by
  have hsettle := h.settle pool
  unfold shake
  rcases hsettled : s.settle pool with ⟨e | _, settled⟩
  · rw [hsettled] at hsettle
    refine ⟨hsettle.1, fun _ h => (by cases h), ?_⟩
    rw [Standing.read, hsettled]
  · rw [hsettled] at hsettle
    have hwaits := hsettle.2 () rfl
    dsimp only at hwaits ⊢
    rw [read_of_settle hsettled]
    by_cases hopen : settled.IsSecured
    · rw [if_pos hopen]
      refine ⟨hwaits.toSound, ?_, ?_⟩
      · rintro left ⟨⟩
        exact ⟨hopen, Nat.le_refl _⟩
      dsimp only
      rcases hall : settled.acceptAll pool (Record.grammar.parse input).1 with ⟨_ | n, after⟩
      · rfl
      · have hstays := (hwaits.acceptAll_ok hall).1 hopen
        dsimp only
        rw [outcome, if_neg hsecured, if_pos hstays]
    · rw [if_neg hopen]
      rcases takeFirst_cases pool hwaits hopen input with
        ⟨hnext, htake⟩ | ⟨r, rest, hnext, ⟨e, s', haccept, htake⟩ | ⟨s', haccept, hsettled', hopen', htake⟩⟩
      · rw [htake, Grammar.parse_of_none (show Record.grammar.first? input = none from hnext)]
        refine ⟨hwaits.toSound, fun _ h => (by cases h), ?_⟩
        dsimp only [acceptAll]
        rw [outcome, if_neg hsecured, if_neg hopen]
      · rw [htake, Grammar.parse_of_some (show Record.grammar.first? input = some (r, rest) from hnext)]
        have hsound := (hwaits.accept pool r).1
        rw [haccept] at hsound
        refine ⟨hsound, fun _ h => (by cases h), ?_⟩
        dsimp only [acceptAll]
        rw [haccept]
      · rw [htake, Grammar.parse_of_some (show Record.grammar.first? input = some (r, rest) from hnext)]
        refine ⟨hsettled'.toSound, ?_, ?_⟩
        · rintro left ⟨⟩
          have := Record.length_rest_of_next? hnext
          exact ⟨hopen', by omega⟩
        dsimp only [acceptAll]
        rw [haccept]
        dsimp only
        rcases hall : s'.acceptAll pool (Record.grammar.parse rest).1 with ⟨_ | n, after⟩
        · rfl
        · have hstays := (hsettled'.acceptAll_ok hall).1 hopen'
          dsimp only
          rw [outcome, if_neg hsecured, if_pos hstays, Nat.zero_add]

end Standing

/-! ### Starting -/

namespace Standing

variable {s : Standing}

/-- Starts the handshake, and sends what the engine has to say first. -/
def start (pool : Pool) (s : Standing) : Except ChannelError Outcome × Standing :=
  if s.IsSecured then (.ok (.secured 0), s)
  else
    match s.engine.startHandshake with
    | (.error e, engine) => (.error (.engine .startHandshake e), { s with engine })
    | (.ok (), engine) =>
      match shake pool { s with engine } [] with
      | (.error e, s) => (.error e, s)
      | (.ok (true, _), s) => (.ok (.secured 0), s)
      | (.ok (false, _), s) => (.ok .handshaking, s)

theorem Sound.startHandshake (h : s.Sound) : Sound { s with engine := s.engine.startHandshake.2 } := by
  unfold Masked.startHandshake
  split
  · next hphase =>
    have hsecured : ¬ s.IsSecured := fun hsecured => by
      rw [h.secured_iff.1 hsecured] at hphase
      cases hphase
    have hover := h.isOutputOver (by rw [hphase]; nofun)
    dsimp only
    split
    · exact ⟨iff_of_false hsecured nofun, nofun, fun _ => hover⟩
    · exact h
  · exact h

theorem Sound.start (h : s.Sound) : (s.start pool).2.Sound := by
  have hstarted := h.startHandshake
  unfold Standing.start
  split
  · exact h
  · next hsecured =>
    split
    · next heq =>
      rw [heq] at hstarted
      exact hstarted
    · next heq =>
      rw [heq] at hstarted
      have hshake := (hstarted.read_of_shake pool hsecured []).1
      dsimp only at hshake
      split <;> (next heq' => rw [heq'] at hshake; exact hshake)

end Standing

/-! ### One call of the engine -/

theorem Record.drop_of_next? {input rest : Bytes} {r : Record} (h : Record.next? input = some (r, rest)) :
    input.drop (Record.headerSize + r.payload.length) = rest := by
  rw [(Record.next?_eq_some h).1, ← Record.length_toBytes, List.drop_left]

namespace Masked

variable {m : Masked} {input rest : Bytes} {r : Record}

theorem unwrap_of_none (hopen : ¬ (m.phase = .sendAlert ∨ m.phase = .closed)) (h : Record.next? input = none)
    (room : Nat) : m.unwrap input room = (.ok (.underflow m.demand), m) := by
  rw [unwrap, if_neg hopen, h]

theorem unwrap_of_some (hopen : ¬ (m.phase = .sendAlert ∨ m.phase = .closed))
    (h : Record.next? input = some (r, rest))
    (room : Nat) : m.unwrap input room = m.accept r (Record.headerSize + r.payload.length) room := by
  rw [unwrap, if_neg hopen, h]

theorem unwrap_of_closed (hclosed : m.phase = .sendAlert ∨ m.phase = .closed) (input : Bytes) (room : Nat) :
    m.unwrap input room = (.ok ⟨.closed, m.demand, 0, 0, []⟩, m) := if_pos hclosed

end Masked

/-! ### One turn of the loop -/

namespace Link

variable {k after : Link Masked Journal} {runner : Runner} {total : Nat} {input : Bytes}

theorem bare_shake_finished :
    bare (k.shake pool runner total .finished input) = (.ok (true, input), k.standing.secure) := by
  rw [shake_finished]
  rfl

/-- What is sent at once, after which the loop goes on. -/
theorem bare_shake_sends {record : Record} {verdict : Verdict} {demand : Demand} {next : Masked}
    (hsends : k.engine.Sends record.toBytes verdict demand next)
    (hverdict : verdict = .ok ∨ verdict = .closed)
    (result : Standing → Except ChannelError (Bool × Bytes) × Standing)
    (hgoes : ∀ after : Link Masked Journal, after.engine = next → after.session.state = k.session.state →
      bare (after.shake pool runner total demand input) = result after.standing) :
    bare (k.shake pool runner total .output input) =
      match k.standing.emit pool record next with
      | .error e => (.error (.buffer e), k.standing)
      | .ok s => result s := by
  have hfetch : bare ((k.note (.handshakeStep .output (total - input.length))).fetchOutput pool) =
      match k.standing.emit pool record next with
      | .error e => (.error (.buffer e), k.standing)
      | .ok s => (.ok demand, s) := bare_fetchOutput hsends hverdict
  rw [shake_output]
  rcases hfetched : (k.note (.handshakeStep .output (total - input.length))).fetchOutput pool with
    ⟨found, after⟩
  rw [hfetched] at hfetch
  split at hfetch
  · obtain ⟨rfl, hafter⟩ := Prod.mk.inj hfetch
    exact Prod.ext rfl hafter
  · next s heq =>
    obtain ⟨rfl, hafter⟩ := Prod.mk.inj hfetch
    have hs := Standing.emit_eq_ok heq
    rw [hs] at hafter ⊢
    dsimp only
    rw [hgoes after (congrArg (·.engine) hafter) (congrArg (·.session.state) hafter), hafter]

/-- A server that has run its task sends its answer, which ends its handshake. -/
theorem bare_shake_answer (hphase : k.engine.phase = .awaitTask) (hrun : k.engine.taskRun = true) :
    bare (k.shake pool runner total .output input) =
      match k.standing.answer pool with
      | (.error e, s) => (.error e, s)
      | (.ok (), s) => (.ok (true, input), s) := by
  rw [bare_shake_sends (Masked.sends_finished hphase hrun) (.inl rfl) (fun s => (.ok (true, input), s.secure))
    (fun _ _ _ => bare_shake_finished)]
  unfold Standing.answer
  split <;> (next heq => erw [heq])

/-- The task of a server is run on the spot. -/
theorem bare_runTasks (hphase : k.engine.phase = .awaitTask) (hwaiting : k.engine.taskWaiting = true) :
    bare (k.runTasks .onTheSpot) =
      (.ok .output, { k.standing with
        engine := { k.engine with taskRun := true, taskWaiting := false } }) := by
  have hdrain : k.drainTasks .onTheSpot 0 =
      (1, (({ k with engine := { k.engine with taskRun := true, taskWaiting := false } }.log
        (.takeTask true)).log .runTask).log (.takeTask false)) := by
    have htake : Engine.takeTask? k.engine = some { k.engine with taskWaiting := false } := if_pos hwaiting
    rw [drainTasks_eq, htake]
    dsimp only
    rw [drainTasks_eq]
    rfl
  have hdemand : Masked.demand { k.engine with taskRun := true, taskWaiting := false } = .output := by
    rw [Masked.demand, hphase]
    rfl
  unfold runTasks
  rw [hdrain]
  dsimp only
  rw [if_neg (by simp)]
  exact Prod.ext (congrArg Except.ok hdemand) rfl

section Step

variable {b : Scratch} {m : Masked}

theorem bare_unwrapStep_ok {demand : Demand} {n : Nat}
    (h : k.engine.unwrap input b.room = (.ok ⟨.ok, demand, n, 0, []⟩, m)) (hn : n ≠ 0) :
    bare (k.unwrapStep input b) = (.ok (some demand, input.drop n), { k.standing with engine := m }) := by
  rw [unwrapStep, unwrap_eq h]
  dsimp only
  rw [if_neg (fun hnone => hn hnone.1)]
  rfl

theorem bare_unwrapStep_underflow {demand : Demand}
    (h : k.engine.unwrap input b.room = (.ok (.underflow demand), m)) :
    bare (k.unwrapStep input b) = (.ok (none, input), { k.standing with engine := m }) := by
  rw [unwrapStep, unwrap_eq h]
  rfl

theorem bare_unwrapStep_closed {demand : Demand} {n : Nat}
    (h : k.engine.unwrap input b.room = (.ok ⟨.closed, demand, n, 0, []⟩, m)) :
    bare (k.unwrapStep input b) = (.error .closedEarly, { k.standing with engine := m }) := by
  rw [unwrapStep, unwrap_eq h]
  rfl

theorem bare_unwrapStep_error {e : EngineError} (h : k.engine.unwrap input b.room = (.error e, m)) :
    bare (k.unwrapStep input b) = (.error (.engine .unwrap e), { k.standing with engine := m }) := by
  rw [unwrapStep, unwrap_eq h]
  rfl

end Step

/-- A server that has got the hello runs its task and answers. -/
theorem bare_shake_hello (hphase : k.engine.phase = .awaitTask) (hwaiting : k.engine.taskWaiting = true) :
    bare (k.shake pool .onTheSpot total .task input) =
      match Standing.answer pool
        { k.standing with engine := { k.engine with taskRun := true, taskWaiting := false } } with
      | (.error e, s) => (.error e, s)
      | (.ok (), s) => (.ok (true, input), s) := by
  have htasks := bare_runTasks (k := k.note (.handshakeStep .task (total - input.length))) hphase hwaiting
  rw [shake_task]
  rcases hrun : (k.note (.handshakeStep .task (total - input.length))).runTasks .onTheSpot with
    ⟨result, after⟩
  rw [hrun] at htasks
  obtain ⟨rfl, hafter⟩ := Prod.mk.inj htasks
  have hengine : after.engine = { k.engine with taskRun := true, taskWaiting := false } :=
    congrArg (·.engine) hafter
  dsimp only
  rw [bare_shake_answer (by rw [hengine]; exact hphase) (by rw [hengine]), hafter]
  rfl

/-! ### The loop -/

/-- What a handshake makes of the record at the front of the input. -/
theorem bare_unwrapStep_some (hphase : k.engine.phase = .idle ∨ k.engine.phase = .awaitFinished)
    {r : Record} {rest : Bytes}
    (hnext : Record.next? input = some (r, rest)) (b : Scratch) :
    bare (k.unwrapStep input b) =
      if r.kind = Record.alert then
        (.error .closedEarly, { k.standing with engine := { k.engine with phase := .sendAlert } })
      else if r.kind = Record.handshake ∧ k.engine.phase = .idle ∧ k.engine.isClient = false then
        (.ok (some .task, rest),
          { k.standing with engine := { k.engine with phase := .awaitTask, taskWaiting := true } })
      else if r.kind = Record.handshake ∧ k.engine.phase = .awaitFinished then
        (.ok (some .finished, rest), { k.standing with engine := { k.engine with phase := .established } })
      else (.error (.engine .unwrap (Masked.unexpected r.kind k.engine.phase)), k.standing) := by
  have hopen : ¬ (k.engine.phase = .sendAlert ∨ k.engine.phase = .closed) := by
    rcases hphase with hphase | hphase <;> (rw [hphase]; nofun)
  have hdata : ¬ (r.kind = Record.data ∧ k.engine.phase = .established) := by
    rcases hphase with hphase | hphase <;> (rw [hphase]; nofun)
  have hunwrap := Masked.unwrap_of_some hopen hnext b.room
  have hsize : Record.headerSize + r.payload.length ≠ 0 := by
    simp only [Record.headerSize]
    omega
  unfold Masked.accept at hunwrap
  rw [if_neg hdata] at hunwrap
  rw [← Record.drop_of_next? hnext]
  by_cases halert : r.kind = Record.alert
  · rw [if_pos halert] at hunwrap ⊢
    exact bare_unwrapStep_closed hunwrap
  rw [if_neg halert] at hunwrap ⊢
  by_cases hhello : r.kind = Record.handshake ∧ k.engine.phase = .idle ∧ k.engine.isClient = false
  · rw [if_pos hhello] at hunwrap ⊢
    exact bare_unwrapStep_ok hunwrap hsize
  rw [if_neg hhello] at hunwrap ⊢
  by_cases hfinished : r.kind = Record.handshake ∧ k.engine.phase = .awaitFinished
  · rw [if_pos hfinished] at hunwrap ⊢
    exact bare_unwrapStep_ok hunwrap hsize
  · rw [if_neg hfinished] at hunwrap ⊢
    exact bare_unwrapStep_error hunwrap

/-- The handshake waits for input. -/
theorem bare_shake_waiting (total : Nat) (hp : pool.IsAmple)
    (hphase : k.engine.phase = .idle ∨ k.engine.phase = .awaitFinished)
    (hsecured : ¬ k.standing.IsSecured) :
    bare (k.shake pool .onTheSpot total k.demand input) = k.standing.takeFirst pool input := by
  have hdemand : k.demand = .input ∨ k.demand = .none := by
    show Masked.demand k.engine = .input ∨ Masked.demand k.engine = .none
    unfold Masked.demand
    rcases hphase with hphase | hphase <;> (rw [hphase]; simp)
  have hdata : ¬ k.engine.phase = .established := by
    rcases hphase with hphase | hphase <;> (rw [hphase]; nofun)
  obtain ⟨b, hb⟩ := Scratch.exists_ofCapacity? hp (pool.cap_le pool.handshakeRoom)
  rw [shake_input hdemand, bringInput, hb]
  generalize hnoted : k.note (.handshakeStep k.demand (total - input.length)) = noted
  have hstanding : noted.standing = k.standing := by
    rw [← hnoted]
    rfl
  have hengine : noted.engine = k.engine := congrArg (·.engine) hstanding
  rw [← hstanding] at hsecured ⊢
  rw [← hengine] at hphase hdata
  clear hnoted hstanding hengine
  unfold Standing.takeFirst
  rcases hnext : Record.next? input with _ | ⟨r, rest⟩
  · have hopen : ¬ (noted.engine.phase = .sendAlert ∨ noted.engine.phase = .closed) := by
      rcases hphase with hphase | hphase <;> (rw [hphase]; nofun)
    have hstep := bare_unwrapStep_underflow (b := b) (Masked.unwrap_of_none hopen hnext b.room)
    dsimp only
    rcases hstepped : noted.unwrapStep input b with ⟨result, after⟩
    rw [hstepped] at hstep
    obtain ⟨rfl, hafter⟩ := Prod.mk.inj hstep
    exact Prod.ext rfl hafter
  · -- the step takes the record as `Standing.accept` does, so its cases are told apart here
    have hstep := bare_unwrapStep_some hphase hnext b
    dsimp only
    rcases hstepped : noted.unwrapStep input b with ⟨result, after⟩
    rw [hstepped] at hstep
    by_cases halert : r.kind = Record.alert
    · rw [if_pos halert] at hstep
      rw [Standing.accept_of_alert halert hsecured]
      obtain ⟨rfl, hafter⟩ := Prod.mk.inj hstep
      exact Prod.ext rfl hafter
    rw [if_neg halert] at hstep
    by_cases hhello : r.kind = Record.handshake ∧ noted.engine.phase = .idle ∧ noted.engine.isClient = false
    · rw [if_pos hhello] at hstep
      rw [Standing.accept_of_hello halert hhello]
      obtain ⟨rfl, hafter⟩ := Prod.mk.inj hstep
      have hengine : after.engine = { noted.engine with phase := .awaitTask, taskWaiting := true } :=
        congrArg (·.engine) hafter
      dsimp only
      rw [bare_shake_hello (by rw [hengine]) (by rw [hengine]), hafter, hengine]
      dsimp only [engine_standing]
      generalize Standing.answer pool _ = answered
      rcases answered with ⟨_ | _, _⟩ <;> rfl
    rw [if_neg hhello] at hstep
    by_cases hfinished : r.kind = Record.handshake ∧ noted.engine.phase = .awaitFinished
    · rw [if_pos hfinished] at hstep
      rw [Standing.accept_of_finished halert hfinished]
      obtain ⟨rfl, hafter⟩ := Prod.mk.inj hstep
      dsimp only
      rw [bare_shake_finished, hafter]
      rfl
    · rw [if_neg hfinished] at hstep
      rw [Standing.accept_of_unexpected halert hhello hfinished (fun h => hdata h.2)]
      obtain ⟨rfl, hafter⟩ := Prod.mk.inj hstep
      exact Prod.ext rfl hafter

theorem bare_shake_closed (hp : pool.IsAmple) (hphase : k.engine.phase = .closed) :
    bare (k.shake pool .onTheSpot total .none input) = (.error .closedEarly, k.standing) := by
  obtain ⟨b, hb⟩ := Scratch.exists_ofCapacity? hp (pool.cap_le pool.handshakeRoom)
  rw [shake_input (.inr rfl), bringInput, hb]
  generalize hnoted : k.note (.handshakeStep .none (total - input.length)) = noted
  have hstanding : noted.standing = k.standing := by
    rw [← hnoted]
    rfl
  have hclosed : noted.engine.phase = .sendAlert ∨ noted.engine.phase = .closed :=
    .inr ((congrArg (·.engine.phase) hstanding).trans hphase)
  have hstep := bare_unwrapStep_closed (Masked.unwrap_of_closed hclosed input b.room)
  dsimp only
  rcases hstepped : noted.unwrapStep input b with ⟨result, after⟩
  rw [hstepped] at hstep
  obtain ⟨rfl, hafter⟩ := Prod.mk.inj hstep
  exact Prod.ext rfl (hafter.trans hstanding)

/-- The loop does what is due and takes at most one record. -/
theorem bare_shake (hp : pool.IsAmple) (hsound : k.standing.Sound) (hsecured : ¬ k.standing.IsSecured)
    (hhandshaking : k.handshaking = true) :
    bare (k.shake pool .onTheSpot total k.demand input) = k.standing.shake pool input := by
  have henter : k.standing.enter = k.standing := if_pos hhandshaking
  have hdemand : k.demand = k.engine.demand := rfl
  unfold Standing.shake
  -- the phase tells what is due
  cases hphase : k.engine.phase with
  | sendHello =>
    rw [hdemand, Masked.demand, hphase, Standing.settle_of_sendHello hsecured hphase, henter]
    rw [bare_shake_sends (Masked.sends_hello hphase) (.inl rfl) (fun s => s.takeFirst pool input) ?_]
    · rw [engine_standing]
      rcases hemit :
        k.standing.emit pool Masked.helloRecord { k.engine with phase := .awaitFinished } with e | s
      · rfl
      · have hnot : ¬ s.IsSecured := by
          rw [Standing.emit_eq_ok hemit]
          exact hsecured
        dsimp only
        rw [if_neg hnot]
    · intro after hengine hstate
      have hnot : ¬ after.standing.IsSecured := fun h => hsecured (hstate.symm.trans h)
      have hwaits : after.engine.phase = .awaitFinished := by rw [hengine]
      rw [← bare_shake_waiting total hp (.inr hwaits) hnot]
      congr 2
      show Demand.input = Masked.demand after.engine
      rw [Masked.demand, hwaits]
  | awaitTask =>
    have hrun : k.engine.taskRun = true := hsound.taskRun hphase
    rw [hdemand, Masked.demand, hphase, Standing.settle_of_awaitTask hsecured hphase, henter]
    dsimp only
    rw [if_pos hrun, bare_shake_answer hphase hrun]
    split
    · rfl
    · next hanswer =>
      rw [if_pos (Standing.isSecured_of_answer hanswer)]
  | sendAlert =>
    rw [hdemand, Masked.demand, hphase, Standing.settle_of_sendAlert hsecured hphase, henter]
    rw [bare_shake_sends (Masked.sends_closing hphase) (.inr rfl) (fun s => (.error .closedEarly, s)) ?_]
    · unfold Standing.answerAlert
      rw [engine_standing]
      rcases k.standing.emit pool Masked.closingRecord _ with e | s
      · rfl
      · rfl
    · intro after hengine _
      exact bare_shake_closed hp (by rw [hengine])
  | closed =>
    rw [hdemand, Masked.demand, hphase, Standing.settle_of_closed hsecured hphase, henter]
    exact bare_shake_closed hp hphase
  | idle =>
    rw [Standing.settle_of_waiting hsecured (.inl hphase), henter]
    dsimp only
    rw [if_neg hsecured, bare_shake_waiting total hp (.inl hphase) hsecured]
  | awaitFinished =>
    rw [Standing.settle_of_waiting hsecured (.inr hphase), henter]
    dsimp only
    rw [if_neg hsecured, bare_shake_waiting total hp (.inr hphase) hsecured]
  | established => exact absurd (hsound.secured_iff.2 hphase) hsecured

theorem standing_enterHandshake : k.enterHandshake.standing = k.standing.enter := by
  unfold enterHandshake Standing.enter
  cases hhandshaking : k.handshaking with
  | true =>
    rw [if_pos rfl]
    exact (if_pos hhandshaking).symm
  | false =>
    rw [if_neg nofun]
    exact (if_neg (by rw [show k.standing.handshaking = false from hhandshaking]; nofun)).symm

/-- The loop from the start of a handshake on. -/
theorem bare_shake_enterHandshake (hp : pool.IsAmple) (hsound : k.standing.Sound)
    (hsecured : ¬ k.standing.IsSecured)
    (total : Nat) (input : Bytes) :
    bare (k.enterHandshake.shake pool .onTheSpot total k.enterHandshake.demand input) =
      k.standing.shake pool input := by
  rw [← Standing.shake_enter hsecured, ← standing_enterHandshake]
  refine bare_shake hp ?_ ?_ ?_
  · rw [standing_enterHandshake]
    exact hsound.enter hsecured
  · rw [standing_enterHandshake]
    exact Standing.not_isSecured_enter hsecured
  · show k.enterHandshake.standing.handshaking = true
    rw [standing_enterHandshake]
    exact Standing.handshaking_enter

theorem bare_start (hp : pool.IsAmple) (hsound : k.standing.Sound) :
    bare (k.start pool .onTheSpot) = k.standing.start pool := by
  unfold start Standing.start
  by_cases hsecured : k.standing.IsSecured
  · rw [if_pos hsecured, if_pos (show k.state = .secured from hsecured)]
    rfl
  rw [if_neg hsecured, if_neg (show ¬ k.state = .secured from hsecured)]
  have hstarted := hsound.startHandshake
  have hstart : k.startHandshake =
      (k.engine.startHandshake.1, { k with engine := k.engine.startHandshake.2 }.log .startHandshake) := rfl
  rw [hstart]
  rw [engine_standing] at hstarted ⊢
  rcases hanswer : k.engine.startHandshake with ⟨e | _, engine⟩
  · rfl
  · rw [hanswer] at hstarted
    dsimp only
    generalize hnext : Link.log { k with engine } .startHandshake = next
    have hstanding : next.standing = { k.standing with engine } := by rw [← hnext]; rfl
    rw [← hstanding] at hstarted ⊢
    rw [← bare_shake_enterHandshake hp hstarted (by rw [hstanding]; exact hsecured) 0 []]
    rcases next.enterHandshake.shake pool .onTheSpot 0 next.enterHandshake.demand [] with
      ⟨e | ⟨_ | _, _⟩, _⟩ <;> rfl

end Link

end SecureStream
