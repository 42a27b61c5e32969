import SecureStream.Proofs.Channel.Calls
import SecureStream.Proofs.Channel.Loops
import SecureStream.Proofs.Channel.Scripts
import SecureStream.Session.Journal

/-!
# Playing a script through a handshake

A new channel gets through the handshake, whatever the script, if the script leads on from step to step and the input
arrives in time.

* (a) What is done for one demand plays some steps of the script, and the rest still leads on and is in time
  (`Link.Awaits.runTasks`, `Link.Awaits.fetchOutput`, `Link.Awaits.bringInput`).
* (b) So the loop of the handshake waits for the next piece or completes the handshake (`Link.Awaits.shake`), and so
  does a request to take input (`Channel.Expects.receive`).
* (c) Over all pieces of the input, every read but the last says that the handshake goes on, and the last completes it
  (`Channel.handshake_completes`).
-/

namespace SecureStream

/-- How many tasks are run of those that a runner is given. -/
def Runner.ran (runner : Runner) (given : Nat) : Nat :=
  match runner with
  | .onTheSpot => given
  | .never => 0

@[simp] theorem Runner.ran_zero (runner : Runner) : runner.ran 0 = 0 := by cases runner <;> rfl

theorem Runner.ran_add (runner : Runner) (a b : Nat) : runner.ran (a + b) = runner.ran a + runner.ran b := by
  cases runner <;> rfl

namespace Link

open Script

variable {S : Type} [Session S] {k k' k'' : Link Playback S} {pool : Pool} {runner : Runner} {input : Bytes}
  {pieces : List Bytes}

/-! ### Playing a part of a script -/

/-- The link has become another by playing some steps of its script. -/
structure Plays (runner : Runner) (played : List ScriptStep) (k k' : Link Playback S) : Prop where
  steps_eq : k.engine.steps = played ++ k'.engine.steps
  largestRecord_eq : k'.engine.largestRecord = k.engine.largestRecord
  ranTasks_eq : k'.engine.ranTasks = k.engine.ranTasks + runner.ran (tasks played)
  session_eq : k'.session = (Script.pieces played).foldl Session.enqueue k.session
  handshaking_eq : k'.handshaking = k.handshaking

namespace Plays

variable {played played' : List ScriptStep}

theorem of_nil (hengine : k'.engine = k.engine) (hsession : k'.session = k.session)
    (hhandshaking : k'.handshaking = k.handshaking) : Plays runner [] k k' := by
  refine ⟨by rw [hengine]; rfl, by rw [hengine], ?_, hsession, hhandshaking⟩
  rw [hengine]
  cases runner <;> rfl

/-- A single step that is no task. -/
theorem of_step {step : ScriptStep} (htask : step.isTask = false)
    (hsteps : k.engine.steps = step :: k'.engine.steps)
    (hlargest : k'.engine.largestRecord = k.engine.largestRecord) (hran : k'.engine.ranTasks = k.engine.ranTasks)
    (hsession : k'.session = (Script.pieces [step]).foldl Session.enqueue k.session)
    (hhandshaking : k'.handshaking = k.handshaking) : Plays runner [step] k k' := by
  have hnone : tasks [step] = 0 := List.countP_cons_of_neg (by rw [htask]; exact Bool.false_ne_true)
  refine ⟨hsteps, hlargest, ?_, hsession, hhandshaking⟩
  rw [hran, hnone, runner.ran_zero, Nat.add_zero]

theorem trans (h : Plays runner played k k') (h' : Plays runner played' k' k'') :
    Plays runner (played ++ played') k k'' := by
  refine ⟨?_, h'.largestRecord_eq.trans h.largestRecord_eq, ?_, ?_, h'.handshaking_eq.trans h.handshaking_eq⟩
  · rw [h.steps_eq, h'.steps_eq, List.append_assoc]
  · rw [h'.ranTasks_eq, h.ranTasks_eq, tasks_append, runner.ran_add, Nat.add_assoc]
  · rw [h'.session_eq, h.session_eq, pieces_append, List.foldl_append]

theorem of_note {notice : Notice} (h : Plays runner played (k.note notice) k') : Plays runner played k k' :=
  ⟨h.steps_eq, h.largestRecord_eq, h.ranTasks_eq, h.session_eq, h.handshaking_eq⟩

end Plays

/-- The script leads on from what the engine says that it needs, and the input that is there and the pieces that are
still to come are in time for it. -/
structure Awaits (pool : Pool) (k : Link Playback S) (input : Bytes) (pieces : List Bytes) : Prop where
  leads : Leads (pool.cap k.engine.largestRecord) k.demand k.engine.steps
  inTime : InTime k.engine.steps (input :: pieces)
  length_le : (input :: pieces).flatten.length ≤ pool.limit

namespace Awaits

variable {step : ScriptStep}

/-- A step has been played whose input was complete. -/
theorem of_step (h : k.Awaits pool input pieces) (hplays : Plays runner [step] k k')
    (hstep : step.isUnderflow = false) (hdemand : k'.demand = step.reports) :
    k'.Awaits pool (input.drop step.consumed) pieces := by
  have hsteps : k.engine.steps = step :: k'.engine.steps := hplays.steps_eq
  have hleads := h.leads
  have hinTime := h.inTime
  have hlength := h.length_le
  rw [hsteps] at hleads hinTime
  refine ⟨?_, (hinTime.of_step hstep).2, ?_⟩
  · rw [hplays.largestRecord_eq, hdemand]
    exact hleads.of_cons
  · rw [List.flatten_cons, List.length_append, List.length_drop]
    rw [List.flatten_cons, List.length_append] at hlength
    omega

/-- A step has been played whose input was not complete. -/
theorem of_underflow (h : k.Awaits pool input pieces) (hplays : Plays runner [step] k k')
    (hstep : step.isUnderflow = true) (hconsumed : step.consumed = 0) (hdemand : k'.demand = step.reports) :
    ∃ next rest, pieces = next :: rest ∧ k'.Awaits pool (input ++ next) rest := by
  have hsteps : k.engine.steps = step :: k'.engine.steps := hplays.steps_eq
  have hleads := h.leads
  have hinTime := h.inTime
  have hlength := h.length_le
  rw [hsteps] at hleads hinTime
  obtain ⟨next, rest, rfl, hrest⟩ := hinTime.of_underflow hstep hconsumed
  refine ⟨next, rest, rfl, ?_, hrest, ?_⟩
  · rw [hplays.largestRecord_eq, hdemand]
    exact hleads.of_cons
  · rwa [List.flatten_cons, List.flatten_cons, ← List.append_assoc, ← List.flatten_cons] at hlength

/-! ### One demand -/

/-- All tasks are run that stand next in the script, and then something else is asked for. -/
theorem drainTasks (h : k.Awaits pool input pieces) (runner : Runner) (count : Nat) :
    (k.drainTasks runner count).2.Awaits pool input pieces ∧ (k.drainTasks runner count).2.demand ≠ .task ∧
      ∃ played, Plays runner played k (k.drainTasks runner count).2 := by
  fun_induction Link.drainTasks runner k count with
  | case1 k count hnone =>
    -- a script that leads on has a task next whenever one is asked for
    refine ⟨⟨h.leads, h.inTime, h.length_le⟩, fun hdemand => ?_, [], .of_nil rfl rfl rfl⟩
    have hleads := h.leads
    rw [show k.demand = .task from hdemand] at hleads
    obtain ⟨next, rest, hsteps⟩ := hleads.of_task
    have hfound : k.engine.takeTask? = some { k.engine with steps := rest, demand := next } := by
      unfold Playback.takeTask?
      rw [hsteps]
    exact absurd (hfound.symm.trans hnone) (Option.some_ne_none _)
  | case2 k count engine htask ih =>
    obtain ⟨next, steps, hsteps, rfl⟩ := Playback.takeTask?_eq_some htask
    have hplays : Plays runner [.task next] k
        (({ k with engine := runner.run { k.engine with steps, demand := next } }.log (.takeTask true)).log
          .runTask) := by
      cases runner with
      | _ => exact ⟨hsteps, rfl, rfl, rfl, rfl⟩
    have hafter := h.of_step hplays rfl (by cases runner <;> rfl)
    obtain ⟨hawaits, hdemand, played, hrest⟩ := ih hafter
    exact ⟨hawaits, hdemand, _, hplays.trans hrest⟩

omit [Session S] in
theorem of_note {notice : Notice} (h : k.Awaits pool input pieces) : (k.note notice).Awaits pool input pieces :=
  ⟨h.leads, h.inTime, h.length_le⟩

/-- What the engine asks for when it asks for a task. -/
theorem runTasks (h : k.Awaits pool input pieces) (runner : Runner) :
    (k.runTasks runner).1 = .ok (k.runTasks runner).2.demand ∧ (k.runTasks runner).2.Awaits pool input pieces ∧
      ∃ played, Plays runner played k (k.runTasks runner).2 := by
  obtain ⟨hawaits, hdemand, played, hplays⟩ := h.drainTasks runner 0
  unfold Link.runTasks
  dsimp only
  rw [if_neg fun hstuck => hdemand hstuck.2]
  exact ⟨rfl, hawaits.of_note, _, hplays.trans (.of_nil rfl rfl rfl)⟩

/-- What the engine asks for when it asks for output. -/
theorem fetchOutput (hpool : pool.IsAmple) (runner : Runner) (h : k.Awaits pool input pieces)
    (hdemand : k.demand = .output) :
    (k.fetchOutput pool).1 = .ok (k.fetchOutput pool).2.demand ∧ (k.fetchOutput pool).2.Awaits pool input pieces ∧
      ∃ played, Plays runner played k (k.fetchOutput pool).2 := by
  have hleads := h.leads
  rw [hdemand] at hleads
  obtain ⟨r, isLast, steps, hsteps, hverdict, hproduced, hfits⟩ := hleads.of_output
  obtain ⟨b, hb⟩ := Scratch.exists_ofCapacity? hpool (pool.cap_le k.engine.largestRecord)
  obtain ⟨-, hsize, hcapacity⟩ := Scratch.isOf_of_ofCapacity? hb
  have hroom : r.output.length ≤ b.room := by rwa [Scratch.room_eq, hsize, hcapacity, Nat.sub_zero]
  have hbytes : (b.store r.output r.produced).bytes = r.output := by
    rw [hproduced, Scratch.bytes_store hroom, Scratch.bytes_of_ofCapacity? hb, List.nil_append]
  have hwrap : Engine.wrap k.engine [] b.room = _ := Playback.wrap_eq hsteps hroom
  have hplays : Plays runner [.wrap r isLast] k (k.fetchOutput pool).2 ∧
      (k.fetchOutput pool).1 = .ok r.demand ∧ (k.fetchOutput pool).2.demand = r.demand := by
    unfold Link.fetchOutput
    rw [Link.wrapNew_eq_bytes, show Engine.largestRecord k.engine = k.engine.largestRecord from rfl, hb]
    dsimp only
    rw [wrapAll_eq]
    unfold Link.wrap
    rw [hwrap]
    dsimp only
    rw [hverdict]
    dsimp only
    rw [List.drop_nil, if_pos List.isEmpty_nil]
    dsimp only
    rw [hbytes]
    rcases houtput : r.output with _ | ⟨byte, rest⟩
    · have hpieces : Script.pieces [.wrap r isLast] = [] :=
        List.filterMap_cons_none (if_pos houtput)
      exact ⟨.of_step rfl hsteps rfl rfl (by rw [hpieces]; rfl) rfl, rfl, rfl⟩
    · have hpieces : Script.pieces [.wrap r isLast] = [r.output] :=
        List.filterMap_cons_some (if_neg (by rw [houtput]; exact List.cons_ne_nil _ _))
      exact ⟨.of_step rfl hsteps rfl rfl (by rw [hpieces, houtput]; rfl) rfl, rfl, rfl⟩
  obtain ⟨hplays, hresult, hdemand'⟩ := hplays
  exact ⟨hresult.trans (by rw [hdemand']), h.of_step hplays rfl hdemand', _, hplays⟩

/-- What the engine asks for when it asks for input. -/
theorem bringInput (hpool : pool.IsAmple) (runner : Runner) (h : k.Awaits pool input pieces) {demand : Demand}
    (hdemand : k.demand = demand) (hinput : demand = .input ∨ demand = .none) :
    ∃ played, Plays runner played k (k.bringInput pool input).2 ∧
      ((∃ left, (k.bringInput pool input).1 = .ok (some (k.bringInput pool input).2.demand, left) ∧
          left.length ≤ input.length ∧ (k.bringInput pool input).2.Awaits pool left pieces) ∨
        (k.bringInput pool input).1 = .ok (none, input) ∧
          ∃ next rest, pieces = next :: rest ∧ (k.bringInput pool input).2.Awaits pool (input ++ next) rest) := by
  obtain ⟨r, steps, hsteps, houtput, hverdict⟩ := h.leads.of_input (hdemand.symm ▸ hinput)
  obtain ⟨b, hb⟩ := Scratch.exists_ofCapacity? hpool (pool.cap_le pool.handshakeRoom)
  have hfits : r.output.length ≤ b.room := by rw [houtput]; exact Nat.zero_le _
  have hunwrap : Engine.unwrap k.engine input b.room = _ := Playback.unwrap_eq hsteps hfits
  have hplays {calls : Array Call} : Plays runner [.unwrap r] k
      ⟨{ k.engine with steps, demand := r.demand, isOutputOver := k.engine.isOutputOver || false }, k.session,
        k.handshaking, calls, k.notices⟩ := .of_step rfl hsteps rfl rfl rfl rfl
  refine ⟨[.unwrap r], ?_⟩
  unfold Link.bringInput
  rw [hb]
  dsimp only
  rw [unwrapStep_eq]
  unfold Link.unwrap
  rw [hunwrap]
  dsimp only
  rcases hverdict with ⟨hverdict, hprogress⟩ | ⟨hverdict, hconsumed⟩
  · have hcomplete : (ScriptStep.unwrap r).isUnderflow = false := decide_eq_false (by rw [hverdict]; decide)
    have hmoves : ¬ (r.consumed = 0 ∧ (r.demand = .input ∨ r.demand = .none)) := by
      rintro ⟨hzero, hsame⟩
      rcases hprogress with hpos | ⟨hinput, hnone⟩
      · omega
      · exact hsame.elim hinput hnone
    rw [hverdict]
    dsimp only
    rw [if_neg hmoves]
    exact ⟨hplays, .inl ⟨_, rfl, by rw [List.length_drop]; exact Nat.sub_le _ _, h.of_step hplays hcomplete rfl⟩⟩
  · rw [hverdict]
    dsimp only
    rw [hconsumed, List.drop_zero]
    exact ⟨hplays, .inr ⟨rfl, h.of_underflow hplays (decide_eq_true hverdict) hconsumed rfl⟩⟩

end Awaits

/-! ### The loop -/

/-- The rest of the script has been played, and the handshake is completed. -/
structure Completes (runner : Runner) (k k' : Link Playback S) : Prop where
  steps_eq : k'.engine.steps = []
  demand_eq : k'.demand = .finished
  ranTasks_eq : k'.engine.ranTasks = k.engine.ranTasks + runner.ran (tasks k.engine.steps)
  session_eq : k'.session =
    Session.moveTo ((Script.pieces k.engine.steps).foldl Session.enqueue k.session) .secured
  handshaking_eq : k'.handshaking = false

theorem Plays.completes {played : List ScriptStep} (h : Plays runner played k k') (h' : Completes runner k' k'') :
    Completes runner k k'' := by
  refine ⟨h'.steps_eq, h'.demand_eq, ?_, ?_, h'.handshaking_eq⟩
  · rw [h'.ranTasks_eq, h.ranTasks_eq, h.steps_eq, tasks_append, runner.ran_add, Nat.add_assoc]
  · rw [h'.session_eq, h.session_eq, h.steps_eq, pieces_append, List.foldl_append]

/-- The link waits for the next piece of the input, or has completed the handshake. -/
def Proceeds (pool : Pool) (runner : Runner) (k k' : Link Playback S) (input : Bytes) (pieces : List Bytes)
    (waits : Bytes → Prop) (done : Prop) : Prop :=
  (∃ left next rest, waits left ∧ left.length ≤ input.length ∧ pieces = next :: rest ∧
      k'.Awaits pool (left ++ next) rest ∧ ∃ played, Plays runner played k k') ∨
    done ∧ pieces = [] ∧ Completes runner k k'

variable {waits : Bytes → Prop} {done : Prop}

theorem Plays.proceeds {played : List ScriptStep} (h : Plays runner played k k') {left : Bytes}
    (hleft : left.length ≤ input.length) (h' : Proceeds pool runner k' k'' left pieces waits done) :
    Proceeds pool runner k k'' input pieces waits done := by
  rcases h' with ⟨left', next, rest, hwaits, hlength, hpieces, hawaits, played', hplays⟩ | ⟨hdone, hpieces, hcompletes⟩
  · exact .inl ⟨left', next, rest, hwaits, Nat.le_trans hlength hleft, hpieces, hawaits, _, h.trans hplays⟩
  · exact .inr ⟨hdone, hpieces, h.completes hcompletes⟩

theorem Awaits.shake (hpool : pool.IsAmple) (runner : Runner) (total : Nat) (k : Link Playback S) (demand : Demand)
    (input : Bytes) (h : k.Awaits pool input pieces) (hdemand : k.demand = demand) :
    Proceeds pool runner k (k.shake pool runner total demand input).2 input pieces
      (fun left => (k.shake pool runner total demand input).1 = .ok (false, left))
      ((k.shake pool runner total demand input).1 = .ok (true, [])) := by
  -- along the loop: a script that leads on answers every demand, so no pass fails
  fun_induction Link.shake pool runner total k demand input with
  | case1 k input noted =>
    have hleads := h.leads
    have hinTime := h.inTime
    rw [hdemand] at hleads
    have hsteps := hleads.of_finished
    rw [hsteps] at hinTime
    obtain ⟨rfl, hpieces⟩ := hinTime.of_nil
    refine .inr ⟨rfl, hpieces, hsteps, hdemand, ?_, ?_, rfl⟩
    · rw [hsteps]
      show _ = _ + runner.ran 0
      rw [runner.ran_zero]
      rfl
    · rw [hsteps]
      rfl
  | case2 k input e after noted htasks =>
    have hnoted : noted.Awaits pool input pieces := h.of_note
    have hresult := (hnoted.runTasks runner).1
    rw [htasks] at hresult
    cases hresult
  | case3 k input next after noted htasks ih =>
    have hnoted : noted.Awaits pool input pieces := h.of_note
    obtain ⟨hresult, hawaits, played, hplays⟩ := hnoted.runTasks runner
    rw [htasks] at hresult hawaits hplays
    exact hplays.of_note.proceeds (Nat.le_refl _) (ih hawaits (Except.ok.inj hresult).symm)
  | case4 k input e after noted hfetch =>
    have hnoted : noted.Awaits pool input pieces := h.of_note
    have hresult := (hnoted.fetchOutput hpool runner hdemand).1
    rw [hfetch] at hresult
    cases hresult
  | case5 k input next after noted hfetch ih =>
    have hnoted : noted.Awaits pool input pieces := h.of_note
    obtain ⟨hresult, hawaits, played, hplays⟩ := hnoted.fetchOutput hpool runner hdemand
    rw [hfetch] at hresult hawaits hplays
    exact hplays.of_note.proceeds (Nat.le_refl _) (ih hawaits (Except.ok.inj hresult).symm)
  | case6 k input e after noted hbring | case9 k input e after noted hbring =>
    have hnoted : noted.Awaits pool input pieces := h.of_note
    obtain ⟨played, -, hresult⟩ := hnoted.bringInput hpool runner hdemand (by decide)
    rw [hbring] at hresult
    rcases hresult with ⟨left, hresult, -⟩ | ⟨hresult, -⟩
    · cases hresult
    · cases hresult
  | case7 k input rest after noted hbring | case10 k input rest after noted hbring =>
    have hnoted : noted.Awaits pool input pieces := h.of_note
    obtain ⟨played, hplays, hresult⟩ := hnoted.bringInput hpool runner hdemand (by decide)
    rw [hbring] at hplays hresult
    rcases hresult with ⟨left, hresult, -⟩ | ⟨hresult, next, more, rfl, hawaits⟩
    · cases hresult
    · cases hresult
      exact .inl ⟨_, next, more, rfl, Nat.le_refl _, rfl, hawaits, played, hplays.of_note⟩
  | case8 k input next rest after noted hbring ih | case11 k input next rest after noted hbring ih =>
    have hnoted : noted.Awaits pool input pieces := h.of_note
    obtain ⟨played, hplays, hresult⟩ := hnoted.bringInput hpool runner hdemand (by decide)
    rw [hbring] at hplays hresult
    rcases hresult with ⟨left, hresult, hlength, hawaits⟩ | ⟨hresult, -⟩
    · obtain ⟨hnext, rfl⟩ := Prod.mk.inj (Except.ok.inj hresult)
      exact hplays.of_note.proceeds hlength (ih hawaits (Option.some.inj hnext).symm)
    · cases hresult

/-! ### Requests -/

/-- A new engine stays at the beginning of its script. -/
theorem configure_playback (k : Link Playback S) :
    k.configure.engine.steps = k.engine.steps ∧ k.configure.demand = k.demand ∧
      k.configure.engine.largestRecord = k.engine.largestRecord ∧ k.configure.engine.ranTasks = k.engine.ranTasks ∧
      k.configure.session = k.session ∧ k.configure.handshaking = k.handshaking := by
  unfold configure
  dsimp only
  split <;> exact ⟨rfl, rfl, rfl, rfl, rfl, rfl⟩

theorem Awaits.readSecuring (hpool : pool.IsAmple) (runner : Runner) (h : k.enterHandshake.Awaits pool input pieces) :
    Proceeds pool runner k.enterHandshake (k.readSecuring pool runner input).2 input pieces
      (fun left => (k.readSecuring pool runner input).1 = .ok (.handshaking, left))
      ((k.readSecuring pool runner input).1 = .ok (.secured 0, [])) := by
  have hshake := h.shake hpool runner input.length k.enterHandshake k.enterHandshake.demand input rfl
  unfold Link.readSecuring
  dsimp only
  rcases hshook : k.enterHandshake.shake pool runner input.length k.enterHandshake.demand input with ⟨result, after⟩
  rw [hshook] at hshake
  rcases hshake with ⟨left, next, rest, rfl, hproceeds⟩ | ⟨rfl, hproceeds⟩
  · exact .inl ⟨left, next, rest, rfl, hproceeds⟩
  · exact .inr ⟨rfl, hproceeds⟩

end Link

/-- A journal has nothing to do with its queue when it is asked for its state. -/
theorem Journal.state_enqueueAll (j : Journal) (sent : List Bytes) :
    Session.state (sent.foldl Session.enqueue j) = j.state := by
  induction sent generalizing j with
  | nil => rfl
  | cons piece sent ih => exact ih (j.enqueue piece)

namespace Channel

open Script

/-- Taking input, when there is room for it and what it leaves can be kept. -/
theorem receive_of_read {E S : Type} [Engine E] [Session S] {c : Channel E} {make : EngineMaker E} {s : S}
    {k after : Link E S} (hserve : ∀ request : Link E S → Turn E S Outcome, c.serve make s request = request k)
    {input pending left : Bytes} {backlog backlog' : Option Backlog} {o : Outcome}
    (hgather : gather c.backlog input = .ok (backlog, pending))
    (hread : k.read c.pool c.runner pending = (.ok (o, left), after)) (hopen : o ≠ .closed)
    (hretain : retain c.pool backlog left = .ok backlog') :
    c.receive make s input = c.turn backlog' (.ok o) after := by
  unfold Channel.receive
  rw [hserve, hgather]
  dsimp only
  rw [hread]
  cases o with
  | closed => exact absurd rfl hopen
  | _ =>
    dsimp only
    rw [hretain]

variable {S : Type} [Session S] {c : Channel Playback} {make : EngineMaker Playback} {s : S} {k : Link Playback S}
  {piece : Bytes} {pieces : List Bytes}

/-- A request would be served by a link whose script leads on, for which the next piece and those behind it are in
time.  The session is not found open before the handshake is completed. -/
structure Expects (c : Channel Playback) (make : EngineMaker Playback) (s : S) (k : Link Playback S) (piece : Bytes)
    (pieces : List Bytes) : Prop where
  serve_eq : ∀ {α : Type} (request : Link Playback S → Turn Playback S α), c.serve make s request = request k
  awaits : k.enterHandshake.Awaits c.pool (c.pending ++ piece) pieces
  backlog : ∀ b, c.backlog = some b → b.IsOf c.pool
  state_ne : k.state ≠ .secured
  stays : ∀ sent : List Bytes, Session.state (sent.foldl Session.enqueue k.enterHandshake.session) ≠ .secured

/-- Behind a turn that has played some steps, the next piece is expected. -/
theorem Expects.turn (h : c.Expects make s k piece pieces) {after : Link Playback S} {played : List ScriptStep}
    (hplays : k.enterHandshake.Plays c.runner played after) {left next : Bytes} {rest : List Bytes}
    (hawaits : after.Awaits c.pool (left ++ next) rest) {backlog : Option Backlog}
    (hleft : backlog.map (·.bytes) = if left = [] then none else some left)
    (hbacklog : ∀ b, backlog = some b → b.IsOf c.pool) (result : Except ChannelError Outcome) :
    ∃ k', (c.turn backlog result after).channel.Expects make after.session k' next rest ∧
      k.enterHandshake.Plays c.runner played k'.enterHandshake := by
  -- the link by which the next request is served; the handshake is going on, so it is not entered once more
  let k' : Link Playback S := ⟨after.engine, after.session, after.handshaking, #[], #[]⟩
  have hentered : k'.enterHandshake = k' := if_pos (hplays.handshaking_eq.trans k.handshaking_enterHandshake)
  have hpending : (c.turn backlog result after).channel.pending = left := by
    show (backlog.map (·.bytes)).getD [] = left
    rw [hleft]
    split
    · next hnil => exact hnil.symm
    · rfl
  refine ⟨k', ⟨fun _ => rfl, ?_, hbacklog, ?_, ?_⟩, ?_⟩
  · rw [hentered, hpending]
    exact ⟨hawaits.leads, hawaits.inTime, hawaits.length_le⟩
  · show Session.state after.session ≠ .secured
    rw [hplays.session_eq]
    exact h.stays _
  · intro sent
    rw [hentered]
    show Session.state (sent.foldl Session.enqueue after.session) ≠ .secured
    rw [hplays.session_eq, ← List.foldl_append]
    exact h.stays _
  · rw [hentered]
    exact ⟨hplays.steps_eq, hplays.largestRecord_eq, hplays.ranTasks_eq, hplays.session_eq, hplays.handshaking_eq⟩

/-- The channel takes the next piece.  It waits for the one behind it, or has completed the handshake. -/
theorem Expects.receive (hpool : c.pool.IsAmple) (h : c.Expects make s k piece pieces) :
    (∃ next rest k' played, pieces = next :: rest ∧ (c.receive make s piece).result = .ok .handshaking ∧
        (c.receive make s piece).channel.pool = c.pool ∧ (c.receive make s piece).channel.runner = c.runner ∧
        (c.receive make s piece).channel.Expects make (c.receive make s piece).session k' next rest ∧
        k.enterHandshake.Plays c.runner played k'.enterHandshake) ∨
      pieces = [] ∧ (c.receive make s piece).result = .ok (.secured 0) ∧
        ∃ k', k.enterHandshake.Completes c.runner k' ∧ (c.receive make s piece).session = k'.session ∧
          (c.receive make s piece).channel = ⟨c.pool, c.runner, some k'.engine, false, none⟩ := by
  have hlimit : c.pending.length + piece.length ≤ c.pool.limit := by
    have hlength := h.awaits.length_le
    rw [List.flatten_cons, List.length_append, List.length_append] at hlength
    omega
  obtain ⟨backlog, hgather, hbacklog⟩ := exists_gather hpool h.backlog hlimit
  have hread {o : Outcome} {left : Bytes}
      (hresult : (k.readSecuring c.pool c.runner (c.pending ++ piece)).1 = .ok (o, left)) :
      k.read c.pool c.runner (c.pending ++ piece) =
        (.ok (o, left), (k.readSecuring c.pool c.runner (c.pending ++ piece)).2) :=
    (if_neg h.state_ne).trans (Prod.ext hresult rfl)
  rcases h.awaits.readSecuring hpool c.runner with
    ⟨left, next, rest, hresult, hleft, rfl, hawaits, played, hplays⟩ | ⟨hresult, rfl, hcompletes⟩
  · have hle : left.length ≤ c.pool.limit := by
      rw [List.length_append] at hleft
      omega
    obtain ⟨backlog', hretain⟩ := exists_retain hpool left hle backlog
    have hkept := isOf_of_retain hretain fun b hb => ⟨(hbacklog b hb).1, by rw [(hbacklog b hb).2]; exact hleft⟩
    obtain ⟨k', hexpects, hplays'⟩ := h.turn hplays hawaits (retain_ok hretain) hkept (.ok .handshaking)
    rw [receive_of_read h.serve_eq hgather (hread hresult) nofun hretain]
    exact .inl ⟨next, rest, k', played, rfl, rfl, rfl, rfl, hexpects, hplays'⟩
  · rw [receive_of_read h.serve_eq hgather (hread hresult) nofun rfl]
    refine .inr ⟨rfl, rfl, _, hcompletes, rfl, ?_⟩
    unfold Channel.turn
    rw [hcompletes.handshaking_eq]

/-- The channel takes the pieces one after the other. -/
theorem Expects.handleAll (hpool : c.pool.IsAmple) (h : c.Expects make s k piece pieces) :
    let run := c.handleAll s ((piece :: pieces).map fun piece => (make, .receive piece))
    run.1.map Turn.result =
        List.replicate pieces.length (.ok (.outcome .handshaking)) ++ [.ok (.outcome (.secured 0))] ∧
      ∃ k', k.enterHandshake.Completes c.runner k' ∧
        run.2 = (⟨c.pool, c.runner, some k'.engine, false, none⟩, k'.session) := by
  -- on the pieces that are still to come; the one that is taken first is expected by the channel
  induction pieces generalizing c s k piece with
  | nil =>
    rcases h.receive hpool with ⟨next, rest, k', played, ⟨⟩, -⟩ | ⟨-, hresult, k', hcompletes, hsession, hchannel⟩
    refine ⟨?_, k', hcompletes, ?_⟩
    · show [(c.receive make s piece).result.map Response.outcome] = _
      rw [hresult]
      rfl
    · exact Prod.ext hchannel hsession
  | cons next rest ih =>
    rcases h.receive hpool with ⟨_, _, k', played, ⟨⟩, hresult, hsame, hrunner, hexpects, hplays⟩ | ⟨⟨⟩, -⟩
    obtain ⟨hresults, k'', hcompletes, hend⟩ := ih (hsame ▸ hpool) hexpects
    rw [hrunner] at hcompletes hend
    rw [hsame] at hend
    refine ⟨?_, k'', hplays.completes hcompletes, hend⟩
    refine congrArg₂ List.cons ?_ hresults
    show (c.receive make s piece).result.map Response.outcome = _
    rw [hresult]
    rfl

/-- A new channel takes the first piece. -/
theorem exists_expects (pool : Pool) (runner : Runner) (s : S) (hstate : Session.state s ≠ .secured)
    (hstays : ∀ sent : List Bytes,
      Session.state (sent.foldl Session.enqueue (Session.moveTo s .securing)) ≠ .secured)
    {demand : Demand} {script : List ScriptStep} {largest : Nat} (hscript : Leads (pool.cap largest) demand script)
    (htime : InTime script (piece :: pieces)) (hlimit : (piece :: pieces).flatten.length ≤ pool.limit) :
    ∃ k : Link Playback S,
      (closed pool runner).Expects (fun _ => .ok (.start demand script largest)) s k piece pieces ∧
        k.enterHandshake.engine.steps = script ∧ k.enterHandshake.engine.ranTasks = 0 ∧
        k.enterHandshake.session = Session.moveTo s .securing := by
  let created : Link Playback S :=
    ⟨.start demand script largest, s, false, #[.create (Session.attributes s).peer], #[]⟩
  obtain ⟨hsteps, hdemand, hlargest, hran, hsession, hhandshaking⟩ := created.configure_playback
  have hentered : created.configure.enterHandshake =
      { created.configure.moveTo .securing with handshaking := true } :=
    if_neg (by rw [hhandshaking]; exact Bool.false_ne_true)
  have hmoved : created.configure.enterHandshake.session = Session.moveTo s .securing := by
    rw [hentered]
    exact congrArg (Session.moveTo · .securing) hsession
  have hplayed : created.configure.enterHandshake.engine.steps = script := by
    rw [hentered]
    exact hsteps
  refine ⟨created.configure, ⟨fun _ => rfl, ⟨?_, ?_, hlimit⟩, nofun, ?_, ?_⟩, hplayed, ?_, hmoved⟩
  · rw [hplayed, created.configure.demand_enterHandshake, hdemand, hentered]
    show Leads (pool.cap created.configure.engine.largestRecord) _ _
    rw [hlargest]
    exact hscript
  · rw [hplayed]
    exact htime
  · rw [Link.state, hsession]
    exact hstate
  · intro sent
    rw [hmoved]
    exact hstays sent
  · rw [hentered]
    exact hran

/-- A new channel gets through the handshake, whatever the script, for any session that does not open by itself.  Every
read but the last says that the handshake goes on, and the last completes it.  In the end all of the script has been
played, the output of each step that has some has been sent in order, and no input waits. -/
theorem handshake_completes (pool : Pool) (hpool : pool.IsAmple) (runner : Runner) (s : S)
    (hstate : Session.state s ≠ .secured)
    (hstays : ∀ sent : List Bytes,
      Session.state (sent.foldl Session.enqueue (Session.moveTo s .securing)) ≠ .secured)
    (demand : Demand) (script : List ScriptStep) (largest : Nat) (hscript : Leads (pool.cap largest) demand script)
    (input : List Bytes) (htime : InTime script input) (hlimit : input.flatten.length ≤ pool.limit) :
    let make : EngineMaker Playback := fun _ => .ok (.start demand script largest)
    let run := (closed pool runner).handleAll s (input.map fun piece => (make, .receive piece))
    run.1.map Turn.result =
        List.replicate (underflows script) (.ok (.outcome .handshaking)) ++ [.ok (.outcome (.secured 0))] ∧
      run.2.2 = Session.moveTo ((Script.pieces script).foldl Session.enqueue (Session.moveTo s .securing)) .secured ∧
      run.2.1.handshaking = false ∧ run.2.1.backlog = none ∧
      ∃ p, run.2.1.engine = some p ∧ p.steps = [] ∧ p.demand = .finished ∧ p.ranTasks = runner.ran (tasks script) := by
  intro make run
  rcases input with _ | ⟨piece, rest⟩
  · cases htime.count_eq
  obtain ⟨k, hexpects, hsteps, hran, hsession⟩ := exists_expects pool runner s hstate hstays hscript htime hlimit
  obtain ⟨hresults, k', hcompletes, hend⟩ := hexpects.handleAll hpool
  have hcount : rest.length = underflows script := Nat.succ.inj htime.count_eq
  have hchannel : run.2.1 = ⟨pool, runner, some k'.engine, false, none⟩ := congrArg Prod.fst hend
  have hend' : run.2.2 = k'.session := congrArg Prod.snd hend
  refine ⟨hcount ▸ hresults, ?_, ?_⟩
  · rw [hend', hcompletes.session_eq, hsteps, hsession]
  · rw [hchannel]
    refine ⟨rfl, rfl, k'.engine, rfl, hcompletes.steps_eq, hcompletes.demand_eq, ?_⟩
    rw [hcompletes.ranTasks_eq, hsteps, hran, Nat.zero_add]
    rfl

/-- The first read ends in front of a record that is not complete, and the second one brings the rest of it. -/
theorem handshake_completes_in_two :
    let script : List ScriptStep :=
      [.unwrap ⟨.ok, .output, 5, 0, []⟩, .wrap ⟨.ok, .input, 0, 3, [1, 2, 3]⟩ false, .unwrap (.underflow .input),
        .unwrap ⟨.ok, .task, 2, 0, []⟩, .task .output, .wrap ⟨.ok, .finished, 0, 1, [4]⟩ false]
    let input : List Bytes := [[104, 101, 108, 108, 111], [120, 120]]
    let make : EngineMaker Playback := fun _ => .ok (.start .none script 256)
    let run := (closed Pool.usual .onTheSpot).handleAll (Journal.connected false .unknown)
      (input.map fun piece => (make, .receive piece))
    Leads (Pool.usual.cap 256) .none script ∧ InTime script input ∧
      run.1.map Turn.result = [.ok (.outcome .handshaking), .ok (.outcome (.secured 0))] ∧
      run.2.2.transitions = #[.securing, .secured] ∧ run.2.2.queued = #[[1, 2, 3], [4]] ∧
      ∃ p, run.2.1.engine = some p ∧ p.steps = [] ∧ p.ranTasks = 1 := by
  intro script input make run
  have hscript : Leads (Pool.usual.cap 256) .none script :=
    .step (.unwrap (.inr rfl) rfl rfl (.inl (by decide))) <| .step (.wrap rfl rfl (by decide)) <|
      .step (.underflow (.inl rfl) rfl rfl rfl rfl) <| .step (.unwrap (.inl rfl) rfl rfl (.inl (by decide))) <|
        .step (.task .output) <| .step (.wrap rfl rfl (by decide)) .done
  have htime : InTime script input := ⟨by decide, by decide, by decide⟩
  have hstays : ∀ sent : List Bytes,
      Session.state (sent.foldl Session.enqueue (Session.moveTo (Journal.connected false .unknown) .securing)) ≠
        .secured := by
    intro sent
    show Session.state (sent.foldl Session.enqueue ((Journal.connected false .unknown).moveTo .securing)) ≠ .secured
    rw [Journal.state_enqueueAll]
    decide
  obtain ⟨hresults, hsession, -, -, p, hengine, hsteps, -, hran⟩ := handshake_completes Pool.usual
    ⟨by decide, by decide⟩ .onTheSpot (Journal.connected false .unknown) (by decide) hstays .none script 256 hscript
    input htime (by decide)
  refine ⟨hscript, htime, hresults, ?_, ?_, p, hengine, hsteps, hran⟩
  · exact (congrArg Journal.transitions hsession).trans rfl
  · exact (congrArg Journal.queued hsession).trans rfl

end Channel

end SecureStream
