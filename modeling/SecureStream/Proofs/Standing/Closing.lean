import SecureStream.Proofs.Channel.Calls
import SecureStream.Proofs.Standing.Records

/-!
# Links that wind down

An engine that has taken an alert sends its answer, once, and does nothing else any more.  `Masked.due` are
the records that it still has to send.  `Link.WindsDown k k'` says that a link with such an engine has made
calls that hand nothing over and do not secure the session, and that what these calls have put into the
outgoing queue is what is not due any more.  So however often the answer fails for want of room and is tried
again, it is sent at most once.

* (a) Everything that a link with a closing engine does winds down, and every attempt to read or to start a
  handshake fails (`Link.windsDown_of_read`, `Link.windsDown_of_start`).
* (b) A handshake in which an alert is offered to the engine fails (`Link.heeds_shake`), and in a read all
  that follows the alert winds down (`Link.closes_read`, `Link.Closes.winding_of_split`).
-/

namespace SecureStream

variable {pool : Pool}

/-! ### Closing engines -/

namespace Masked

variable {m : Masked} {input rest : Bytes} {r : Record}

/-- The engine has taken an alert. -/
def IsClosing (m : Masked) : Prop := m.phase = .sendAlert ∨ m.phase = .closed

/-- What an engine that has taken an alert still has to send. -/
def due (m : Masked) : List Bytes := if m.phase = .sendAlert then [closingRecord.toBytes] else []

theorem due_of_sendAlert (h : m.phase = .sendAlert) : m.due = [closingRecord.toBytes] := if_pos h

theorem due_of_closed (h : m.phase = .closed) : m.due = [] := by
  refine if_neg ?_
  rw [h]
  nofun

theorem due_isSuffix (m : Masked) : m.due <:+ [closingRecord.toBytes] := by
  unfold due
  split
  · exact List.suffix_refl _
  · exact List.nil_suffix

/-- A closing engine sends what is due, after which nothing is. -/
theorem exists_sends_due (h : m.IsClosing) :
    ∃ next, m.Sends m.due.flatten .closed .none next ∧ next.IsClosing ∧ next.due = [] := by
  rcases h with hphase | hphase
  · refine ⟨{ m with phase := .closed, isOutputOver := true }, ?_, .inr rfl, due_of_closed rfl⟩
    rw [due_of_sendAlert hphase, List.flatten_singleton]
    exact sends_closing hphase
  · refine ⟨m, ?_, .inr hphase, due_of_closed hphase⟩
    intro room
    rw [due_of_closed hphase]
    unfold wrap
    rw [hphase]
    rfl

theorem demand_of_isClosing (h : m.IsClosing) : m.demand = .output ∨ m.demand = .none := by
  unfold demand
  rcases h with hphase | hphase <;> simp [hphase]

/-- An alert is taken in every phase. -/
theorem unwrap_of_alert (hnext : Record.next? input = some (r, rest)) (halert : r.kind = Record.alert)
    (room : Nat) :
    ∃ reply, (m.unwrap input room).1 = .ok reply ∧ reply.verdict = .closed ∧
      (m.unwrap input room).2.IsClosing := by
  by_cases hclosed : m.phase = .sendAlert ∨ m.phase = .closed
  · rw [unwrap_of_closed hclosed]
    exact ⟨_, rfl, rfl, hclosed⟩
  · rw [unwrap_of_some hclosed hnext, accept, if_pos halert]
    exact ⟨_, rfl, rfl, .inl rfl⟩

end Masked

namespace Call

/-- The call offers an alert to the engine. -/
def offersAlert : Call → Bool
  | unwrap offered _ _ =>
    match Record.next? offered with
    | some (r, _) => r.kind == Record.alert
    | none => false
  | _ => false

theorem offersAlert_unwrap {offered : Bytes} {room : Nat} {answer : Except EngineError Reply}
    (h : (unwrap offered room answer).offersAlert = true) :
    ∃ r rest, Record.next? offered = some (r, rest) ∧ r.kind = Record.alert := by
  unfold offersAlert at h
  dsimp only at h
  split at h
  · next r rest hnext => exact ⟨r, rest, hnext, beq_iff_eq.1 h⟩
  · cases h

theorem kind_of_offersAlert {call : Call} (h : call.offersAlert = true) : call.kind = .unwrap := by
  cases call with
  | unwrap => rfl
  | _ => cases h

end Call

/-- The kinds of calls that are made behind an alert. -/
def closingKinds : List CallKind :=
  [.startHandshake, .wrap, .unwrap, .enqueue, .moveTo .connected, .moveTo .securing]

/-- Behind an alert, when so much was due, only such calls have been made, and what they have put into the
outgoing queue is what the engine has not to send any more. -/
structure Winding (due : List Bytes) (calls : List Call) (m : Masked) : Prop where
  isClosing : m.IsClosing
  kinds : ∀ call ∈ calls, call.kind ∈ closingKinds
  enqueued : calls.filterMap Call.enqueued? ++ m.due = due

namespace Winding

variable {m m' : Masked} {due : List Bytes} {a b : List Call}

theorem nil (h : m.IsClosing) : Winding m.due [] m := ⟨h, nofun, rfl⟩

theorem append (h : Winding due a m) (h' : Winding m.due b m') : Winding due (a ++ b) m' := by
  refine ⟨h'.isClosing, List.forall_mem_append.2 ⟨h.kinds, h'.kinds⟩, ?_⟩
  rw [List.filterMap_append, List.append_assoc, h'.enqueued, h.enqueued]

/-- Less is due in the middle. -/
theorem of_append (h : Winding due (a ++ b) m) : ∃ rest, rest <:+ due ∧ Winding rest b m := by
  refine ⟨b.filterMap Call.enqueued? ++ m.due, ?_, h.isClosing, ?_, rfl⟩
  · rw [← h.enqueued, List.filterMap_append, List.append_assoc]
    exact List.suffix_append ..
  · exact fun call hmem => h.kinds call (List.mem_append_right a hmem)

/-- What has been put into the outgoing queue when no more than one piece was due. -/
theorem enqueued_cases {piece : Bytes} (h : Winding due a m) (hdue : due <:+ [piece]) :
    a.filterMap Call.enqueued? = [] ∨ a.filterMap Call.enqueued? = [piece] := by
  have hall := h.enqueued
  rcases List.suffix_cons_iff.1 hdue with rfl | hnone
  · rcases List.append_eq_singleton_iff.1 hall with ⟨hempty, -⟩ | ⟨hpiece, -⟩
    · exact .inl hempty
    · exact .inr hpiece
  · rw [List.suffix_nil.1 hnone] at hall
    exact .inl (List.append_eq_nil_iff.1 hall).1

end Winding

namespace Link

variable {k k' k'' after : Link Masked Journal}

/-! ### Winding down -/

/-- The link has only made calls that may be made behind an alert. -/
def WindsDown (k k' : Link Masked Journal) : Prop :=
  ∃ calls, Made calls k k' ∧ Winding k.engine.due calls k'.engine

theorem WindsDown.isClosing (h : WindsDown k k') : k'.engine.IsClosing := by
  obtain ⟨_, -, hwinding⟩ := h
  exact hwinding.isClosing

theorem WindsDown.trans (h : WindsDown k k') (h' : WindsDown k' k'') : WindsDown k k'' := by
  obtain ⟨a, hmade, ha⟩ := h
  obtain ⟨b, hmade', hb⟩ := h'
  exact ⟨a ++ b, hmade.trans hmade', ha.append hb⟩

/-- Calls that put nothing into the outgoing queue, and leave what is due. -/
theorem Makes.windsDown {kinds : List CallKind} (h : Makes kinds k k') (hkinds : kinds ⊆ closingKinds)
    (hquiet : .enqueue ∉ kinds) (hclosing : k'.engine.IsClosing) (hdue : k'.engine.due = k.engine.due) :
    WindsDown k k' := by
  obtain ⟨calls, hmade, hcalls⟩ := h
  refine ⟨calls, hmade, hclosing, fun call hmem => hkinds (hcalls call hmem), ?_⟩
  rw [Call.filterMap_of_kinds Call.enqueued?_of_kind hcalls hquiet, List.nil_append, hdue]

theorem windsDown_refl (hclosing : k.engine.IsClosing) : WindsDown k k :=
  ⟨[], ⟨(List.append_nil _).symm, rfl⟩, Winding.nil hclosing⟩

theorem windsDown_note (hclosing : k.engine.IsClosing) (notice : Notice) : WindsDown k (k.note notice) := by
  have hnoted : Makes [.wrap] k (k.note notice) := makes_note k notice
  exact hnoted.windsDown (by decide) (by decide) hclosing rfl

/-! ### The answer -/

/-- Wrapping nothing gives what is due, or fails and changes nothing. -/
theorem wrapNew_of_closing (pool : Pool) {purpose : Purpose} (hpurpose : purpose ≠ .application)
    (hclosing : k.engine.IsClosing) :
    let x := k.wrapNew pool purpose (pool.cap (Engine.largestRecord k.engine)) []
    x.2.engine.IsClosing ∧ match x.1 with
      | .error _ => x.2.engine.due = k.engine.due
      | .ok (output, demand) => output = k.engine.due.flatten ∧ demand = .none ∧ x.2.engine.due = [] := by
  obtain ⟨next, hsends, hnext, hdue⟩ := Masked.exists_sends_due hclosing
  generalize pool.cap (Engine.largestRecord k.engine) = capacity
  have hbare := bare_wrapNew_of_sends pool purpose capacity hsends (.inr ⟨rfl, hpurpose⟩)
  intro x
  rcases hwrapped : k.wrapNew pool purpose capacity [] with ⟨result, after⟩
  have hx : x = (result, after) := hwrapped
  rw [hwrapped] at hbare
  rcases hroom : pool.roomFor capacity k.engine.due.flatten.length with e | b
  · rw [hroom] at hbare
    obtain ⟨rfl, hafter⟩ := Prod.mk.inj hbare
    have hengine : after.engine = k.engine := congrArg (·.engine) hafter
    rw [hx]
    exact ⟨hengine ▸ hclosing, congrArg Masked.due hengine⟩
  · rw [hroom] at hbare
    obtain ⟨rfl, hafter⟩ := Prod.mk.inj hbare
    have hengine : after.engine = next := congrArg (·.engine) hafter
    rw [hx]
    exact ⟨hengine ▸ hnext, rfl, rfl, by rw [hengine, hdue]⟩

/-- What was due is put into the queue, if it is anything. -/
theorem windsDown_of_wrapped (hmakes : Makes [.wrap] k after) (hclosing : after.engine.IsClosing)
    (hdue : after.engine.due = []) {output : Bytes} (houtput : output = k.engine.due.flatten)
    (hk : k.engine.IsClosing) :
    WindsDown k (if output.isEmpty then after else after.enqueue output) := by
  rcases hk with hphase | hphase
  · -- the answer is sent
    rw [Masked.due_of_sendAlert hphase, List.flatten_singleton] at houtput
    have hne : ¬ output.isEmpty := by
      rw [houtput]
      decide
    obtain ⟨calls, hmade, hcalls⟩ := hmakes
    rw [if_neg hne]
    refine ⟨calls ++ [.enqueue output], hmade.trans (made_of_push rfl rfl), hclosing, ?_, ?_⟩
    · have hsubset : [CallKind.wrap] ⊆ closingKinds := by decide
      have henqueue : (Call.enqueue output).kind ∈ closingKinds := by simp [closingKinds, Call.kind]
      refine List.forall_mem_append.2 ⟨?_, List.forall_mem_singleton.2 henqueue⟩
      exact fun call hmem => hsubset (hcalls call hmem)
    · have hnone := Call.filterMap_of_kinds Call.enqueued?_of_kind hcalls (by decide)
      have hengine : (after.enqueue output).engine.due = [] := hdue
      rw [List.filterMap_append, hnone, hengine, Masked.due_of_sendAlert hphase, ← houtput]
      rfl
  · -- there is none any more
    have hnone := Masked.due_of_closed hphase
    have hempty : output.isEmpty := by
      rw [houtput, hnone]
      rfl
    rw [if_pos hempty]
    exact hmakes.windsDown (by decide) (by decide) hclosing (by rw [hdue, hnone])

theorem windsDown_of_wrapNew_error {purpose : Purpose} {e : ChannelError} (hpurpose : purpose ≠ .application)
    (hclosing : k.engine.IsClosing)
    (hwrap : k.wrapNew pool purpose (pool.cap (Engine.largestRecord k.engine)) [] = (.error e, after)) :
    WindsDown k after := by
  have hmakes := k.makes_wrapNew pool purpose (pool.cap (Engine.largestRecord k.engine)) []
  have hnew := wrapNew_of_closing pool hpurpose hclosing
  rw [hwrap] at hmakes hnew
  exact hmakes.windsDown (by decide) (by decide) hnew.1 hnew.2

theorem windsDown_of_wrapNew_ok {purpose : Purpose} {output : Bytes} {demand : Demand}
    (hpurpose : purpose ≠ .application) (hclosing : k.engine.IsClosing)
    (hwrap : k.wrapNew pool purpose (pool.cap (Engine.largestRecord k.engine)) [] =
      (.ok (output, demand), after)) :
    demand = .none ∧ after.engine.IsClosing ∧
      WindsDown k (if output.isEmpty then after else after.enqueue output) := by
  have hmakes := k.makes_wrapNew pool purpose (pool.cap (Engine.largestRecord k.engine)) []
  have hnew := wrapNew_of_closing pool hpurpose hclosing
  rw [hwrap] at hmakes hnew
  obtain ⟨hafter, houtput, hdemand, hdue⟩ := hnew
  exact ⟨hdemand, hafter, windsDown_of_wrapped hmakes hafter hdue houtput hclosing⟩

theorem windsDown_of_fetchOutput (pool : Pool) (hclosing : k.engine.IsClosing) :
    WindsDown k (k.fetchOutput pool).2 ∧ ∀ next, (k.fetchOutput pool).1 = .ok next → next = .none := by
  have hpurpose : Purpose.handshake ≠ .application := nofun
  unfold fetchOutput
  rcases hwrap : k.wrapNew pool .handshake (pool.cap (Engine.largestRecord k.engine)) [] with
    ⟨e | ⟨output, demand⟩, after⟩
  · exact ⟨windsDown_of_wrapNew_error hpurpose hclosing hwrap, nofun⟩
  · obtain ⟨hdemand, -, hwinds⟩ := windsDown_of_wrapNew_ok hpurpose hclosing hwrap
    refine ⟨hwinds, ?_⟩
    rintro _ ⟨⟩
    exact hdemand

theorem windsDown_of_sendClosing (pool : Pool) (count : Nat) (hclosing : k.engine.IsClosing) :
    WindsDown k (k.sendClosing pool count).2 := by
  have hpurpose : Purpose.close ≠ .application := nofun
  fun_induction sendClosing pool k count with
  | case1 k count hover => exact windsDown_refl hclosing
  | case2 k count hopen e after hwrap => exact windsDown_of_wrapNew_error hpurpose hclosing hwrap
  | case3 k count hopen output demand after hwrap hempty
  | case4 k count hopen output demand after hwrap hempty =>
    obtain ⟨-, -, hwinds⟩ := windsDown_of_wrapNew_ok hpurpose hclosing hwrap
    rwa [if_pos hempty] at hwinds
  | case5 k count hopen output demand after hwrap hempty ih =>
    obtain ⟨-, hafter, hwinds⟩ := windsDown_of_wrapNew_ok hpurpose hclosing hwrap
    rw [if_neg hempty] at hwinds
    exact hwinds.trans (ih hafter)

theorem windsDown_of_answerClose (pool : Pool) (demand : Demand) (hclosing : k.engine.IsClosing) :
    WindsDown k (k.answerClose pool demand).2 := by
  have hnoted := windsDown_note hclosing (.closeReceived demand)
  unfold answerClose
  dsimp only
  split
  · have hmoved : WindsDown (k.note (.closeReceived demand))
        ((k.note (.closeReceived demand)).moveTo .connected) :=
      (makes_moveTo _ .connected).windsDown (by decide) (by decide) hclosing rfl
    have hsent : WindsDown ((k.note (.closeReceived demand)).moveTo .connected) _ :=
      windsDown_of_sendClosing pool 0 hclosing
    have hall := hnoted.trans (hmoved.trans hsent)
    split
    · next heq => rwa [heq] at hall
    · next heq =>
      rw [heq] at hall
      exact hall.trans (windsDown_note hall.isClosing _)
  · exact hnoted

/-! ### Reading -/

theorem windsDown_of_bringInput (pool : Pool) (input : Bytes) (hclosing : k.engine.IsClosing) :
    (∃ e, (k.bringInput pool input).1 = .error e) ∧ WindsDown k (k.bringInput pool input).2 := by
  unfold bringInput
  rcases Scratch.ofCapacity? (pool.cap pool.handshakeRoom) pool with e | b
  · exact ⟨⟨_, rfl⟩, windsDown_refl hclosing⟩
  · have hmakes := k.makes_unwrapStep input b
    have hbare := bare_unwrapStep_closed (Masked.unwrap_of_closed hclosing input b.room)
    dsimp only
    rcases hstep : k.unwrapStep input b with ⟨result, after⟩
    rw [hstep] at hbare hmakes
    obtain ⟨rfl, hafter⟩ := Prod.mk.inj hbare
    have hengine : after.engine = k.engine := congrArg (·.engine) hafter
    refine ⟨⟨_, rfl⟩, hmakes.windsDown (by decide) (by decide) (hengine ▸ hclosing) ?_⟩
    exact congrArg Masked.due hengine

/-- The loop of a handshake sends what is due, and fails when it brings input to the engine. -/
theorem windsDown_of_shake (pool : Pool) (runner : Runner) (total : Nat) {demand : Demand} (input : Bytes)
    (hclosing : k.engine.IsClosing) (hdemand : demand = .output ∨ demand = .none) :
    (∃ e, (k.shake pool runner total demand input).1 = .error e) ∧
      WindsDown k (k.shake pool runner total demand input).2 := by
  fun_induction shake pool runner total k demand input with
  | case4 k input e after noted hfetch =>
    obtain ⟨hfetched, -⟩ := windsDown_of_fetchOutput (k := noted) pool hclosing
    rw [hfetch] at hfetched
    exact ⟨⟨e, rfl⟩, (windsDown_note hclosing _).trans hfetched⟩
  | case5 k input next after noted hfetch ih =>
    obtain ⟨hfetched, hnext⟩ := windsDown_of_fetchOutput (k := noted) pool hclosing
    rw [hfetch] at hfetched hnext
    obtain ⟨hfails, hrest⟩ := ih hfetched.isClosing (.inr (hnext next rfl))
    exact ⟨hfails, ((windsDown_note hclosing _).trans hfetched).trans hrest⟩
  | case9 k input e after noted hbring =>
    obtain ⟨-, hbrought⟩ := windsDown_of_bringInput (k := noted) pool input hclosing
    rw [hbring] at hbrought
    exact ⟨⟨e, rfl⟩, (windsDown_note hclosing _).trans hbrought⟩
  | case10 k input rest after noted hbring | case11 k input next rest after noted hbring =>
    obtain ⟨⟨e, hfails⟩, -⟩ := windsDown_of_bringInput (k := noted) pool input hclosing
    rw [hbring] at hfails
    cases hfails
  | _ => rcases hdemand with hdemand | hdemand <;> cases hdemand

theorem windsDown_of_enterHandshake (hclosing : k.engine.IsClosing) : WindsDown k k.enterHandshake := by
  have hengine : k.enterHandshake.engine = k.engine := by
    unfold enterHandshake
    split <;> rfl
  refine k.makes_enterHandshake.windsDown (by decide) (by decide) (hengine ▸ hclosing) ?_
  exact congrArg Masked.due hengine

theorem windsDown_of_read (pool : Pool) (runner : Runner) (input : Bytes) (hclosing : k.engine.IsClosing)
    (hstate : k.state ≠ .secured) :
    (∃ e, (k.read pool runner input).1 = .error e) ∧ WindsDown k (k.read pool runner input).2 := by
  have hentered := windsDown_of_enterHandshake hclosing
  obtain ⟨⟨e, hfails⟩, hshook⟩ := windsDown_of_shake pool runner input.length input hentered.isClosing
    (Masked.demand_of_isClosing hentered.isClosing)
  have hall := hentered.trans hshook
  unfold read readSecuring
  rw [if_neg hstate]
  dsimp only
  rcases hshake : k.enterHandshake.shake pool runner input.length k.enterHandshake.demand input with
    ⟨result, after⟩
  have hafter : k.enterHandshake.shake pool runner input.length k.enterHandshake.engine.demand input =
    (result, after) := hshake
  rw [hafter] at hfails hall
  dsimp only at hfails
  rw [hfails]
  exact ⟨⟨e, rfl⟩, hall⟩

theorem windsDown_of_start (pool : Pool) (runner : Runner) (hclosing : k.engine.IsClosing)
    (hstate : k.state ≠ .secured) :
    (∃ e, (k.start pool runner).1 = .error e) ∧ WindsDown k (k.start pool runner).2 := by
  obtain ⟨e, hstart⟩ : ∃ e, k.engine.startHandshake = (.error e, k.engine) := by
    unfold Masked.startHandshake
    rcases hclosing with hphase | hphase <;> (rw [hphase]; exact ⟨_, rfl⟩)
  have hstarted : k.startHandshake = (.error e, k.log .startHandshake) := by
    have heq : k.startHandshake =
        (k.engine.startHandshake.1, { k with engine := k.engine.startHandshake.2 }.log .startHandshake) := rfl
    rw [heq, hstart]
  unfold start
  rw [if_neg hstate, hstarted]
  have hlogged : Makes [.startHandshake] k (k.log .startHandshake) :=
    makes_log k rfl (by simp [Call.kind])
  exact ⟨⟨_, rfl⟩, hlogged.windsDown (by decide) (by decide) hclosing rfl⟩

/-! ### Reading an alert -/

/-- The link has offered no alert to its engine. -/
def Quiet (k k' : Link Masked Journal) : Prop :=
  ∃ calls, Made calls k k' ∧ ∀ call ∈ calls, ¬ call.offersAlert = true

theorem Quiet.trans (h : Quiet k k') (h' : Quiet k' k'') : Quiet k k'' := by
  obtain ⟨a, hmade, ha⟩ := h
  obtain ⟨b, hmade', hb⟩ := h'
  exact ⟨a ++ b, hmade.trans hmade', List.forall_mem_append.2 ⟨ha, hb⟩⟩

/-- Only with unwrapping an alert can be offered. -/
theorem Makes.quiet {kinds : List CallKind} (h : Makes kinds k k') (hkinds : .unwrap ∉ kinds) :
    Quiet k k' := by
  obtain ⟨calls, hmade, hcalls⟩ := h
  refine ⟨calls, hmade, fun call hmem halert => hkinds ?_⟩
  have hkind := hcalls call hmem
  rwa [Call.kind_of_offersAlert halert] at hkind

theorem quiet_note (k : Link Masked Journal) (notice : Notice) : Quiet k (k.note notice) := by
  have hnoted : Makes [.wrap] k (k.note notice) := makes_note k notice
  exact hnoted.quiet (by decide)

theorem quiet_refl (k : Link Masked Journal) : Quiet k k := ⟨[], ⟨(List.append_nil _).symm, rfl⟩, nofun⟩

/-- The link has offered no alert to its engine, or has done so with a call behind which all winds down. -/
inductive Closes (k k' : Link Masked Journal) : Prop where
  | quiet (hquiet : Quiet k k')
  | winding {k₀ k₁ : Link Masked Journal} {call : Call} (hquiet : Quiet k k₀) (hmade : Made [call] k₀ k₁)
    (hwinds : WindsDown k₁ k')

theorem Quiet.closes (h : Quiet k k') (h' : Closes k' k'') : Closes k k'' := by
  cases h' with
  | quiet hquiet => exact .quiet (h.trans hquiet)
  | winding hquiet hmade hwinds => exact .winding (h.trans hquiet) hmade hwinds

/-- Behind any call of the log that offers an alert all winds down. -/
theorem Closes.winding_of_split (h : Closes k k') (hfirst : k.calls = #[]) {call : Call}
    {before behind : List Call} (hcalls : k'.calls.toList = before ++ call :: behind)
    (halert : call.offersAlert = true) :
    ∃ due, due <:+ [Masked.closingRecord.toBytes] ∧ Winding due behind k'.engine := by
  have hnone : k.calls.toList = [] := by rw [hfirst]
  cases h with
  | quiet hquiet =>
    obtain ⟨calls, hmade, hquiet⟩ := hquiet
    have hlog := hmade.calls_eq
    rw [hnone, List.nil_append, hcalls] at hlog
    have hmem : call ∈ calls := by
      rw [← hlog]
      exact List.mem_append_right _ List.mem_cons_self
    exact absurd halert (hquiet call hmem)
  | @winding k₀ k₁ first hquiet hmade hwinds =>
    obtain ⟨quiet, hbefore, hquiet⟩ := hquiet
    obtain ⟨calls, hafter, hwinding⟩ := hwinds
    have hlog : quiet ++ first :: calls = before ++ call :: behind := by
      rw [← hcalls, ((hbefore.trans hmade).trans hafter).calls_eq, hnone, List.append_assoc]
      rfl
    rcases split_append hlog with ⟨rest, hsplit, -⟩ | ⟨pre, -, hsplit⟩
    · have hmem : call ∈ quiet := by
        rw [hsplit]
        exact List.mem_append_right _ List.mem_cons_self
      exact absurd halert (hquiet call hmem)
    · cases pre with
      | nil =>
        obtain ⟨-, rfl⟩ := List.cons.inj hsplit
        exact ⟨_, k₁.engine.due_isSuffix, hwinding⟩
      | cons other pre =>
        obtain ⟨-, hcut⟩ := List.cons.inj hsplit
        rw [hcut.trans (List.append_cons pre call behind)] at hwinding
        obtain ⟨rest, hrest, hbehind⟩ := hwinding.of_append
        exact ⟨rest, hrest.trans k₁.engine.due_isSuffix, hbehind⟩

/-- An attempt fails if an alert was offered in it. -/
def Heeds {α : Type} (k : Link Masked Journal) (x : Except ChannelError α × Link Masked Journal) : Prop :=
  match x.1 with
  | .error _ => Closes k x.2
  | .ok _ => Quiet k x.2

theorem Heeds.closes {α : Type} {x : Except ChannelError α × Link Masked Journal} (h : Heeds k x) :
    Closes k x.2 := by
  rcases x with ⟨_ | _, after⟩
  · exact h
  · exact .quiet h

theorem Quiet.heeds {α : Type} {x : Except ChannelError α × Link Masked Journal} (h : Quiet k k')
    (h' : Heeds k' x) : Heeds k x := by
  rcases x with ⟨_ | _, after⟩
  · exact h.closes h'
  · exact h.trans h'

section Unwrapping

variable {input : Bytes} {room : Nat}

/-- Either no alert is offered, or the engine takes it and says so. -/
theorem quiet_or_closing_of_unwrap {answer : Except EngineError Reply}
    (h : k.unwrap input room = (answer, after)) :
    Quiet k after ∨ ∃ call reply, Made [call] k after ∧ after.engine.IsClosing ∧ answer = .ok reply ∧
      reply.verdict = .closed := by
  cases h
  by_cases halert : (Call.unwrap input room (k.engine.unwrap input room).1).offersAlert = true
  · obtain ⟨r, rest, hnext, hkind⟩ := Call.offersAlert_unwrap halert
    obtain ⟨reply, hreply, hverdict, hclosing⟩ := Masked.unwrap_of_alert (m := k.engine) hnext hkind room
    exact .inr ⟨_, reply, made_of_push rfl rfl, hclosing, hreply, hverdict⟩
  · exact .inl ⟨_, made_of_push rfl rfl, List.forall_mem_singleton.2 halert⟩

theorem closes_of_unwrap {answer : Except EngineError Reply} (h : k.unwrap input room = (answer, after)) :
    Closes k after := by
  rcases quiet_or_closing_of_unwrap h with hquiet | ⟨call, reply, hmade, hclosing, -, -⟩
  · exact .quiet hquiet
  · exact .winding (quiet_refl k) hmade (windsDown_refl hclosing)

theorem quiet_of_unwrap {reply : Reply} (h : k.unwrap input room = (.ok reply, after))
    (hopen : reply.verdict ≠ .closed) : Quiet k after := by
  rcases quiet_or_closing_of_unwrap h with hquiet | ⟨call, other, -, -, hanswer, hverdict⟩
  · exact hquiet
  · cases hanswer
    exact absurd hverdict hopen

end Unwrapping

theorem heeds_unwrapStep (k : Link Masked Journal) (input : Bytes) (b : Scratch) :
    Heeds k (k.unwrapStep input b) := by
  fun_induction unwrapStep k input b with
  | case3 k input b r after hunwrap rest hverdict | case4 k input b r after hunwrap rest hverdict =>
    exact quiet_of_unwrap hunwrap (by rw [hverdict]; decide)
  | case6 k input b r after hunwrap rest filled hverdict grown hgrow ih =>
    exact (quiet_of_unwrap hunwrap (by rw [hverdict]; decide)).heeds ih
  | _ => exact closes_of_unwrap ‹_›

theorem heeds_bringInput (k : Link Masked Journal) (pool : Pool) (input : Bytes) :
    Heeds k (k.bringInput pool input) := by
  unfold bringInput
  split
  · exact .quiet (quiet_refl k)
  · exact k.heeds_unwrapStep input _

/-- A handshake in which an alert is offered fails. -/
theorem heeds_shake (k : Link Masked Journal) (pool : Pool) (runner : Runner) (total : Nat) (demand : Demand)
    (input : Bytes) : Heeds k (k.shake pool runner total demand input) := by
  fun_induction shake pool runner total k demand input with
  | case1 k input noted =>
    have hmoved : Makes [.moveTo .secured] noted { noted.moveTo .secured with handshaking := false } :=
      .of_push (.moveTo .secured) rfl rfl (by decide)
    exact ((k.quiet_note _).trans (hmoved.quiet (by decide))).trans (quiet_note _ _)
  | case2 k input e after noted htasks =>
    have hran := noted.makes_runTasks runner
    rw [htasks] at hran
    exact .quiet ((k.quiet_note _).trans (hran.quiet (by decide)))
  | case3 k input next after noted htasks ih =>
    have hran := noted.makes_runTasks runner
    rw [htasks] at hran
    exact ((k.quiet_note _).trans (hran.quiet (by decide))).heeds ih
  | case4 k input e after noted hfetch =>
    have hfetched := noted.makes_fetchOutput pool
    rw [hfetch] at hfetched
    exact .quiet ((k.quiet_note _).trans (hfetched.quiet (by decide)))
  | case5 k input next after noted hfetch ih =>
    have hfetched := noted.makes_fetchOutput pool
    rw [hfetch] at hfetched
    exact ((k.quiet_note _).trans (hfetched.quiet (by decide))).heeds ih
  | case6 k input e after noted hbring | case9 k input e after noted hbring =>
    have hbrought := noted.heeds_bringInput pool input
    rw [hbring] at hbrought
    exact (k.quiet_note _).closes hbrought
  | case7 k input rest after noted hbring | case10 k input rest after noted hbring =>
    have hbrought := noted.heeds_bringInput pool input
    rw [hbring] at hbrought
    exact (k.quiet_note _).trans hbrought
  | case8 k input next rest after noted hbring ih | case11 k input next rest after noted hbring ih =>
    have hbrought : Quiet noted after := by
      have hheeds := noted.heeds_bringInput pool input
      rwa [hbring] at hheeds
    exact ((k.quiet_note _).trans hbrought).heeds ih

/-- The answer to an alert winds down.  Where the engine had taken one before, none is offered. -/
theorem closes_of_answerClose {input : Bytes} {room : Nat} {reply : Reply} (pool : Pool)
    (h : k.unwrap input room = (.ok reply, after)) :
    Closes k (after.answerClose pool reply.demand).2 := by
  rcases quiet_or_closing_of_unwrap h with hquiet | ⟨call, -, hmade, hclosing, -, -⟩
  · exact .quiet (hquiet.trans ((after.makes_answerClose pool reply.demand).quiet (by simp)))
  · exact .winding (quiet_refl k) hmade (windsDown_of_answerClose pool reply.demand hclosing)

theorem quiet_handOver (k : Link Masked Journal) (consumed : Nat) (b : Scratch) :
    Quiet k (k.handOver consumed b) := by
  unfold handOver
  split
  · exact k.quiet_refl
  · have hmade : Makes [.deliver] k ((k.deliver b.bytes).note (.recordUnwrapped consumed b.size)) :=
      .of_push (.deliver b.bytes) rfl rfl (by simp [Call.kind])
    exact hmade.quiet (by decide)

theorem closes_unwrapAll (k : Link Masked Journal) (pool : Pool) (input : Bytes) (b : Scratch) (n : Nat) :
    Closes k (k.unwrapAll pool input b n).2 := by
  fun_induction unwrapAll pool k input b n with
  | case3 k input b n r after hunwrap rest filled hverdict =>
    have hquiet := quiet_of_unwrap hunwrap (by rw [hverdict]; decide)
    exact .quiet (hquiet.trans (after.quiet_handOver r.consumed filled))
  | case4 k input b n r after hunwrap rest filled hverdict hprogress served hrest ih =>
    have hquiet := quiet_of_unwrap hunwrap (by rw [hverdict]; decide)
    exact (hquiet.trans (after.quiet_handOver r.consumed filled)).closes ih
  | case5 k input b n r after hunwrap rest hverdict =>
    exact .quiet ((quiet_of_unwrap hunwrap (by rw [hverdict]; decide)).trans (after.quiet_note _))
  | case7 k input b n r after hunwrap rest filled hverdict grown hgrow ih =>
    exact (quiet_of_unwrap hunwrap (by rw [hverdict]; decide)).closes ih
  | case8 k input b n r after hunwrap hverdict hopen e last hanswer
  | case9 k input b n r after hunwrap rest hverdict hopen last hanswer =>
    have hclosed := closes_of_answerClose pool hunwrap
    rwa [hanswer] at hclosed
  | _ => exact closes_of_unwrap ‹_›

theorem closes_unwrapRecords (k : Link Masked Journal) (pool : Pool) (input : Bytes) :
    Closes k (k.unwrapRecords pool input).2 := by
  unfold unwrapRecords
  split
  · exact .quiet k.quiet_refl
  · split
    · exact .quiet k.quiet_refl
    · exact k.closes_unwrapAll pool input _ 0

theorem closes_read (k : Link Masked Journal) (pool : Pool) (runner : Runner) (input : Bytes) :
    Closes k (k.read pool runner input).2 := by
  unfold read
  split
  · exact k.closes_unwrapRecords pool input
  · have hentered : Quiet k k.enterHandshake := k.makes_enterHandshake.quiet (by simp)
    have hshook := hentered.heeds
      (k.enterHandshake.heeds_shake pool runner input.length k.enterHandshake.demand input)
    unfold readSecuring
    dsimp only
    rcases hshake : k.enterHandshake.shake pool runner input.length k.enterHandshake.demand input with
      ⟨e | ⟨_ | _, left⟩, after⟩
    · rw [hshake] at hshook
      exact hshook
    · rw [hshake] at hshook
      exact .quiet hshook
    · rw [hshake] at hshook
      have hall := Quiet.closes hshook (after.closes_unwrapRecords pool left)
      dsimp only
      split <;> (next heq => rwa [heq] at hall)

end Link

end SecureStream
