import SecureStream.Proofs.Channel.Gate
import SecureStream.Proofs.Standing.Records
import SecureStream.Proofs.Standing.Writing

/-!
# Soundness in every pool

A link keeps its standing sound whatever its pool can hold.  Where a buffer cannot be had, or cannot grow, the
loop of the handshake ends in the middle, and the session and the engine must be in step there as well.

`Link.Asks k demand` is the invariant of that loop.  There are two moments at which they are not in step: a
server has taken the hello, or an engine has just been established.  At both the loop goes on with what the
engine has said, and no error can come in between.

* (a) One turn of the loop keeps the invariant, or ends the loop with a sound standing
  (`Link.asks_of_runTasks`, `Link.asks_of_fetchOutput`, `Link.asks_of_bringInput`).
* (b) So the loop ends with a sound standing (`Link.sound_shake`), and with it every read and every start of a
  handshake (`Link.sound_read`, `Link.sound_start`).
-/

namespace SecureStream

variable {pool : Pool}

namespace Masked

variable {m : Masked}

theorem demand_ne_finished : m.demand ≠ .finished := by
  unfold demand
  cases m.phase with
  | awaitTask =>
    dsimp only
    split <;> nofun
  | _ => nofun

theorem phase_of_demand_task (h : m.demand = .task) : m.phase = .awaitTask ∧ m.taskRun = false := by
  unfold demand at h
  cases hphase : m.phase with
  | awaitTask =>
    rw [hphase] at h
    cases hrun : m.taskRun with
    | false => exact ⟨rfl, rfl⟩
    | true =>
      rw [hrun] at h
      cases h
  | _ =>
    rw [hphase] at h
    cases h

theorem phase_of_demand_input (h : m.demand = .input ∨ m.demand = .none) :
    m.phase = .established ∨ m.phase = .closed ∨ m.phase = .idle ∨ m.phase = .awaitFinished := by
  unfold demand at h
  cases hphase : m.phase with
  | awaitTask =>
    rw [hphase] at h
    cases hrun : m.taskRun with
    | _ =>
      rw [hrun] at h
      simp at h
  | sendHello | sendAlert =>
    rw [hphase] at h
    simp at h
  | _ => simp

/-- An engine that asks for output has a record to send.  Either it asks for what it needs next, or it is
established with that record, and says so. -/
theorem exists_sends (h : m.demand = .output) :
    ∃ (record : Record) (verdict : Verdict) (demand : Demand) (next : Masked),
      m.Sends record.toBytes verdict demand next ∧ (verdict = .ok ∨ verdict = .closed) ∧
        (next.phase ≠ .closed → next.isOutputOver = m.isOutputOver ∧ m.phase ≠ .closed) ∧
        ((demand = next.demand ∧ next.phase ≠ .established ∧ next.phase ≠ .awaitTask) ∨
          (demand = .finished ∧ next.phase = .established)) := by
  unfold demand at h
  cases hphase : m.phase with
  | sendHello =>
    refine ⟨helloRecord, .ok, .input, _, sends_hello hphase, .inl rfl, ?_, .inl ⟨rfl, nofun, nofun⟩⟩
    intro _
    exact ⟨rfl, nofun⟩
  | awaitTask =>
    rw [hphase] at h
    have hrun : m.taskRun = true := by
      cases hrun : m.taskRun with
      | true => rfl
      | false =>
        rw [hrun] at h
        cases h
    refine ⟨finishedRecord, .ok, .finished, _, sends_finished hphase hrun, .inl rfl, ?_, .inr ⟨rfl, rfl⟩⟩
    intro _
    exact ⟨rfl, nofun⟩
  | sendAlert =>
    refine ⟨closingRecord, .closed, .none, _, sends_closing hphase, .inr rfl, ?_, .inl ⟨rfl, nofun, nofun⟩⟩
    intro hopen
    exact absurd rfl hopen
  | _ =>
    rw [hphase] at h
    cases h

end Masked

namespace Link

variable {k : Link Masked Journal}

/-- What the loop of a handshake may be at: what the engine asks for, when the standing is sound, or what it
has just said, when it has gone ahead of the session. -/
inductive Asks (k : Link Masked Journal) (demand : Demand) : Prop where
  | sound (hdemand : demand = k.engine.demand) (hsound : k.standing.Sound)
  | task (hdemand : demand = .task) (hphase : k.engine.phase = .awaitTask)
    (hwaiting : k.engine.taskWaiting = true) (hover : k.engine.isOutputOver = false)
  | finished (hdemand : demand = .finished) (hphase : k.engine.phase = .established)
    (hover : k.engine.isOutputOver = false)

/-- A turn of the loop has ended with an error or has led to the next demand. -/
def Leads {α : Type} (x : Except ChannelError α × Link Masked Journal) (next : α → Option Demand) : Prop :=
  ¬ x.2.standing.IsSecured ∧
    match x.1 with
    | .error _ => x.2.standing.Sound
    | .ok a =>
      match next a with
      | none => x.2.standing.Sound
      | some demand => x.2.Asks demand

section Turn

variable (hsecured : ¬ k.standing.IsSecured)

include hsecured

theorem asks_of_runTasks (hasks : k.Asks .task) : Leads (k.runTasks .onTheSpot) some := by
  cases hasks with
  | sound hdemand hsound =>
    -- the task of an engine that asks for it has been run
    obtain ⟨hphase, hrun⟩ := Masked.phase_of_demand_task hdemand.symm
    have hran : k.engine.taskRun = true := hsound.taskRun hphase
    rw [hrun] at hran
    cases hran
  | task hdemand hphase hwaiting hover =>
    have hbare := bare_runTasks hphase hwaiting
    rcases hrun : k.runTasks .onTheSpot with ⟨result, after⟩
    rw [hrun] at hbare
    obtain ⟨rfl, hafter⟩ := Prod.mk.inj hbare
    have hnot : ¬ after.standing.IsSecured := by
      rw [hafter]
      exact hsecured
    refine ⟨hnot, .sound ?_ ?_⟩
    · have hengine : after.engine = { k.engine with taskRun := true, taskWaiting := false } :=
        congrArg (·.engine) hafter
      rw [hengine]
      unfold Masked.demand
      rw [hphase]
      rfl
    · rw [hafter]
      refine ⟨iff_of_false hsecured ?_, fun _ => rfl, fun _ => hover⟩
      show k.engine.phase ≠ .established
      rw [hphase]
      nofun
  | finished hdemand => cases hdemand

theorem asks_of_fetchOutput (pool : Pool) (hasks : k.Asks .output) : Leads (k.fetchOutput pool) some := by
  cases hasks with
  | sound hdemand hsound =>
    obtain ⟨record, verdict, demand, next, hsends, hverdict, hover, hnext⟩ :=
      Masked.exists_sends hdemand.symm
    have hbare : bare (k.fetchOutput pool) = _ := bare_fetchOutput hsends hverdict
    rcases hfetched : k.fetchOutput pool with ⟨result, after⟩
    rw [hfetched] at hbare
    rcases hemit : k.standing.emit pool record next with e | s
    · rw [hemit] at hbare
      obtain ⟨rfl, hafter⟩ := Prod.mk.inj hbare
      exact ⟨hafter ▸ hsecured, hafter ▸ hsound⟩
    · rw [hemit] at hbare
      obtain ⟨rfl, hafter⟩ := Prod.mk.inj hbare
      rw [Standing.emit_eq_ok hemit] at hafter
      have hengine : after.engine = next := congrArg (·.engine) hafter
      have hnot : ¬ after.standing.IsSecured := by
        rw [hafter]
        exact hsecured
      have hopen : next.phase ≠ .closed → next.isOutputOver = false := by
        intro hphase
        obtain ⟨hsame, hbefore⟩ := hover hphase
        rw [hsame]
        exact hsound.isOutputOver hbefore
      refine ⟨hnot, ?_⟩
      rcases hnext with ⟨hasked, hphase, htask⟩ | ⟨hfinished, hphase⟩
      · refine .sound (by rw [hengine, hasked]) ⟨iff_of_false hnot ?_, ?_, ?_⟩
        · rw [engine_standing, hengine]
          exact hphase
        · rw [engine_standing, hengine]
          exact fun h => absurd h htask
        · rw [engine_standing, hengine]
          exact hopen
      · refine .finished hfinished (by rw [hengine, hphase]) ?_
        rw [hengine]
        exact hopen (by rw [hphase]; nofun)
  | task hdemand => cases hdemand
  | finished hdemand => cases hdemand

theorem asks_of_bringInput (pool : Pool) {demand : Demand} (input : Bytes)
    (hinput : demand = .input ∨ demand = .none) (hasks : k.Asks demand) :
    Leads (k.bringInput pool input) (·.1) := by
  cases hasks with
  | sound hdemand hsound =>
    rw [hdemand] at hinput
    unfold bringInput
    rcases Scratch.ofCapacity? (pool.cap pool.handshakeRoom) pool with e | b
    · exact ⟨hsecured, hsound⟩
    dsimp only
    rcases Masked.phase_of_demand_input hinput with hphase | hphase | hphase
    · exact absurd (hsound.secured_iff.2 hphase) hsecured
    · -- a closed engine says so
      have hbare := bare_unwrapStep_closed (Masked.unwrap_of_closed (.inr hphase) input b.room)
      rcases hstep : k.unwrapStep input b with ⟨result, after⟩
      rw [hstep] at hbare
      obtain ⟨rfl, hafter⟩ := Prod.mk.inj hbare
      exact ⟨hafter ▸ hsecured, hafter ▸ hsound⟩
    · have hopen : ¬ (k.engine.phase = .sendAlert ∨ k.engine.phase = .closed) := by
        rcases hphase with hphase | hphase <;> simp [hphase]
      have hover : k.engine.isOutputOver = false := hsound.isOutputOver fun hclosed => hopen (.inr hclosed)
      rcases hnext : Record.next? input with _ | ⟨r, rest⟩
      · have hbare := bare_unwrapStep_underflow (b := b) (Masked.unwrap_of_none hopen hnext b.room)
        rcases hstep : k.unwrapStep input b with ⟨result, after⟩
        rw [hstep] at hbare
        obtain ⟨rfl, hafter⟩ := Prod.mk.inj hbare
        exact ⟨hafter ▸ hsecured, hafter ▸ hsound⟩
      · have hbare := bare_unwrapStep_some hphase hnext b
        rcases hstep : k.unwrapStep input b with ⟨result, after⟩
        rw [hstep] at hbare
        split at hbare
        · -- an alert
          obtain ⟨rfl, hafter⟩ := Prod.mk.inj hbare
          have hsound' : after.standing.Sound := by
            rw [hafter]
            exact ⟨iff_of_false hsecured nofun, nofun, fun _ => hover⟩
          exact ⟨by rw [hafter]; exact hsecured, hsound'⟩
        split at hbare
        · -- the hello
          obtain ⟨rfl, hafter⟩ := Prod.mk.inj hbare
          have hengine : after.engine = { k.engine with phase := .awaitTask, taskWaiting := true } :=
            congrArg (·.engine) hafter
          refine ⟨by rw [hafter]; exact hsecured, .task rfl ?_ ?_ ?_⟩
          · rw [hengine]
          · rw [hengine]
          · rw [hengine]
            exact hover
        split at hbare
        · -- the answer of the server
          obtain ⟨rfl, hafter⟩ := Prod.mk.inj hbare
          have hengine : after.engine = { k.engine with phase := .established } := congrArg (·.engine) hafter
          refine ⟨by rw [hafter]; exact hsecured, .finished rfl ?_ ?_⟩
          · rw [hengine]
          · rw [hengine]
            exact hover
        · obtain ⟨rfl, hafter⟩ := Prod.mk.inj hbare
          exact ⟨hafter ▸ hsecured, hafter ▸ hsound⟩
  | task hdemand => rcases hinput with hinput | hinput <;> (rw [hdemand] at hinput; cases hinput)
  | finished hdemand => rcases hinput with hinput | hinput <;> (rw [hdemand] at hinput; cases hinput)

end Turn

/-- A note changes neither the standing nor the engine. -/
theorem Asks.note {demand : Demand} (h : k.Asks demand) (notice : Notice) : (k.note notice).Asks demand := by
  cases h with
  | sound hdemand hsound => exact .sound hdemand hsound
  | task hdemand hphase hwaiting hover => exact .task hdemand hphase hwaiting hover
  | finished hdemand hphase hover => exact .finished hdemand hphase hover

/-- The loop of the handshake ends with a sound standing, however it ends. -/
theorem sound_shake (total : Nat) {demand : Demand} (input : Bytes) (hasks : k.Asks demand)
    (hsecured : ¬ k.standing.IsSecured) :
    (k.shake pool .onTheSpot total demand input).2.standing.Sound := by
  generalize hrunner : Runner.onTheSpot = runner
  -- every turn keeps the invariant for the next one
  fun_induction shake pool runner total k demand input with
  | case1 k input noted =>
    cases hasks with
    | sound hdemand => exact absurd hdemand.symm Masked.demand_ne_finished
    | task hdemand => cases hdemand
    | finished hdemand hphase hover =>
      have hawait : k.engine.phase ≠ .awaitTask := by
        rw [hphase]
        decide
      exact ⟨iff_of_true rfl hphase, fun h => absurd h hawait, fun _ => hover⟩
  | case2 k input e after noted htasks =>
    subst hrunner
    obtain ⟨-, hends⟩ := asks_of_runTasks (k := noted) hsecured (hasks.note _)
    rw [htasks] at hends
    exact hends
  | case3 k input next after noted htasks ih =>
    subst hrunner
    obtain ⟨hnot, hgoes⟩ := asks_of_runTasks (k := noted) hsecured (hasks.note _)
    rw [htasks] at hnot hgoes
    exact ih hgoes hnot
  | case4 k input e after noted hfetch =>
    obtain ⟨-, hends⟩ := asks_of_fetchOutput (k := noted) hsecured pool (hasks.note _)
    rw [hfetch] at hends
    exact hends
  | case5 k input next after noted hfetch ih =>
    obtain ⟨hnot, hgoes⟩ := asks_of_fetchOutput (k := noted) hsecured pool (hasks.note _)
    rw [hfetch] at hnot hgoes
    exact ih hgoes hnot
  | case6 k input e after noted hbring | case7 k input rest after noted hbring =>
    obtain ⟨-, hends⟩ := asks_of_bringInput (k := noted) hsecured pool input (.inl rfl) (hasks.note _)
    rw [hbring] at hends
    exact hends
  | case9 k input e after noted hbring | case10 k input rest after noted hbring =>
    obtain ⟨-, hends⟩ := asks_of_bringInput (k := noted) hsecured pool input (.inr rfl) (hasks.note _)
    rw [hbring] at hends
    exact hends
  | case8 k input next rest after noted hbring ih =>
    obtain ⟨hnot, hgoes⟩ := asks_of_bringInput (k := noted) hsecured pool input (.inl rfl) (hasks.note _)
    rw [hbring] at hnot hgoes
    exact ih hgoes hnot
  | case11 k input next rest after noted hbring ih =>
    obtain ⟨hnot, hgoes⟩ := asks_of_bringInput (k := noted) hsecured pool input (.inr rfl) (hasks.note _)
    rw [hbring] at hnot hgoes
    exact ih hgoes hnot

/-! ### Requests -/

/-- The loop from the start of a handshake on. -/
theorem sound_shake_enterHandshake (hsound : k.standing.Sound) (hsecured : ¬ k.standing.IsSecured)
    (pool : Pool) (total : Nat) (input : Bytes) :
    (k.enterHandshake.shake pool .onTheSpot total k.enterHandshake.demand input).2.standing.Sound := by
  have hentered : k.enterHandshake.standing.Sound := by
    rw [standing_enterHandshake]
    exact hsound.enter hsecured
  have hnot : ¬ k.enterHandshake.standing.IsSecured := by
    rw [standing_enterHandshake]
    exact Standing.not_isSecured_enter hsecured
  exact sound_shake total input (.sound rfl hentered) hnot

theorem sound_start (hsound : k.standing.Sound) (pool : Pool) :
    (k.start pool .onTheSpot).2.standing.Sound := by
  unfold start
  split
  · exact hsound
  · next hstate =>
    have hstarted : k.startHandshake.2.standing.Sound := hsound.startHandshake
    split
    · next heq =>
      rw [heq] at hstarted
      exact hstarted
    · next after heq =>
      have hsecured : ¬ after.standing.IsSecured := by
        have hafter : k.startHandshake.2 = after := congrArg Prod.snd heq
        rw [← hafter]
        exact hstate
      rw [heq] at hstarted
      have hshook := after.sound_shake_enterHandshake hstarted hsecured pool 0 []
      dsimp only
      split <;> (next heq' => rwa [heq'] at hshook)

theorem sound_unwrapRecords (hsound : k.standing.Sound) (hsecured : k.standing.IsSecured) (pool : Pool)
    (input : Bytes) : (k.unwrapRecords pool input).2.standing.Sound := by
  unfold unwrapRecords
  split
  · exact hsound
  · next hne =>
    rcases hb : Scratch.ofCapacity? (pool.plaintextRoom input.length) pool with e | b
    · exact hsound
    · have hinput : input ≠ [] := fun h => hne (List.isEmpty_iff.2 h)
      have hempty := Scratch.bytes_of_ofCapacity? hb
      have hsettled := Standing.Settled.of_isSecured hsound hsecured
      have htaken := (hsettled.acceptAll pool (Record.grammar.parse input).1).1
      rcases ending_unwrapAll (n := 0) hsound hsecured hempty hinput with ⟨-, -, hends⟩ | hends
      · exact hends
      · have hlast := congrArg Prod.snd hends
        have hstanding : (ending (k.unwrapAll pool input b 0)).2 =
            (k.unwrapAll pool input b 0).2.standing := rfl
        rw [hstanding] at hlast
        dsimp only
        rw [hlast]
        split <;> (next heq => rwa [heq] at htaken)

theorem sound_read (hsound : k.standing.Sound) (pool : Pool) (input : Bytes) :
    (k.read pool .onTheSpot input).2.standing.Sound := by
  unfold read
  split
  · next hstate => exact sound_unwrapRecords hsound hstate pool input
  · next hstate =>
    have hshook := k.sound_shake_enterHandshake hsound hstate pool input.length input
    unfold readSecuring
    dsimp only
    rcases hshake : k.enterHandshake.shake pool .onTheSpot input.length k.enterHandshake.demand input with
      ⟨e | ⟨_ | _, left⟩, after⟩
    · rw [hshake] at hshook
      exact hshook
    · rw [hshake] at hshook
      exact hshook
    · rw [hshake] at hshook
      have hrecords := sound_unwrapRecords hshook (secured_of_shake hshake) pool left
      dsimp only
      split <;> (next heq => rwa [heq] at hrecords)

end Link

end SecureStream
