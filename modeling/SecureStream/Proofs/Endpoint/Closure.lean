import SecureStream.Proofs.Endpoint.Consistency
import SecureStream.Proofs.Standing.Closing

/-!
# Closure is final

Once a read has offered an alert to the engine of an end, the channel is over, whether that read has succeeded
or failed and whatever is asked of the end from then on (`Endpoint.closed_of_alert`).

* (a) Behind the call that offers the alert the read winds down (`Endpoint.winding_receive`).
* (b) Every request to a closed end winds down, fails if it is to open the channel or to use it, and leaves
  the end closed (`Endpoint.Closed.handle`), and so does a sequence of them (`Endpoint.Closed.handleAll`).
-/

namespace SecureStream

/-- The turn leaves a closing engine behind, and has done nothing but wind down. -/
def Turn.Winds {α : Type} (m : Masked) (turn : Turn Masked Journal α) : Prop :=
  ∃ m', turn.channel.engine = some m' ∧ Winding m.due turn.calls.toList m'

namespace Endpoint

variable {p : Endpoint} {m : Masked} {due : List Bytes}

/-- The engine of the end has taken an alert, and its session is not secured. -/
structure Closed (p : Endpoint) (m : Masked) : Prop where
  engine_eq : p.channel.engine = some m
  isClosing : m.IsClosing
  state_ne : p.session.state ≠ .secured

/-- What comes of a request to a closed end: it sends nothing, and neither starts a handshake nor reads. -/
def Refuses : Request → Except ChannelError Response → Prop
  | .prepare, _ => True
  | .start, result | .receive _, result => ∃ e, result = .error e
  | .send _, result => result = .error .notSecured

/-! ### Logs and sessions -/

theorem session_handle (p : Endpoint) (request : Request) :
    (p.handle request).session = Call.onAll p.session (p.handle request).calls.toList :=
  p.channel.session_handle p.make p.session request

/-- What requests do to the session, their calls have done. -/
theorem session_handleAll (p : Endpoint) (requests : List Request) :
    (p.handleAll requests).2.session =
      Call.onAll p.session ((p.handleAll requests).1.flatMap (·.calls.toList)) := by
  induction requests generalizing p with
  | nil => rfl
  | cons request requests ih =>
    rw [handleAll_cons, List.flatMap_cons, Call.onAll_append, ← p.session_handle request]
    exact ih _

theorem state_ne_of_winding {j : Journal} {calls : List Call} (h : Winding due calls m)
    (hstate : j.state ≠ .secured) : (Call.onAll j calls).state ≠ .secured := by
  intro hsecured
  rcases Call.secured_of_onAll j calls hsecured with hbefore | hmem
  · exact hstate hbefore
  · exact absurd (h.kinds _ hmem) (by decide)

/-! ### One request to a closed end -/

namespace Closed

variable (h : p.Closed m)

include h

/-- A link that serves a closed end. -/
private theorem exists_link :
    ∃ k : Link Masked Journal, k.engine.IsClosing ∧ k.state ≠ .secured ∧
      (∀ {α : Type} {k' : Link Masked Journal}, k.WindsDown k' → ∀ (c : Channel Masked)
        (backlog : Option Backlog) (result : Except ChannelError α), (c.turn backlog result k').Winds m) ∧
      ∀ {α : Type} (request : Link Masked Journal → Turn Masked Journal α),
        p.channel.serve p.make p.session request = request k := by
  refine ⟨⟨m, p.session, p.channel.handshaking, #[], #[]⟩, h.isClosing, h.state_ne, ?_, ?_⟩
  · rintro α k' ⟨calls, hmade, hwinding⟩ c backlog result
    have hcalls : k'.calls.toList = calls := hmade.calls_eq
    exact ⟨k'.engine, rfl, hcalls ▸ hwinding⟩
  · intro α request
    unfold Channel.serve
    rw [h.engine_eq]

private theorem turn_handle (request : Request) :
    (p.handle request).Winds m ∧ Refuses request (p.handle request).result := by
  obtain ⟨k, hclosing, hstate, hturn, hserve⟩ := h.exists_link
  cases request with
  | prepare =>
    show (p.channel.prepare p.make p.session).Winds m ∧ True
    unfold Channel.prepare
    rw [hserve]
    exact ⟨hturn (Link.windsDown_refl hclosing) _ _ _, trivial⟩
  | start =>
    obtain ⟨⟨e, hfails⟩, hwinds⟩ := Link.windsDown_of_start p.channel.pool p.channel.runner hclosing hstate
    show (p.channel.start p.make p.session).Winds m ∧
      ∃ e, (p.channel.start p.make p.session).result.map Response.outcome = .error e
    unfold Channel.start
    rw [hserve]
    refine ⟨hturn hwinds _ _ _, e, ?_⟩
    show (k.start p.channel.pool p.channel.runner).1.map Response.outcome = _
    rw [hfails]
    rfl
  | receive input =>
    obtain ⟨request, hreceive, hrequest⟩ := p.channel.receive_reads p.make p.session input
    show (p.channel.receive p.make p.session input).Winds m ∧
      ∃ e, (p.channel.receive p.make p.session input).result.map Response.outcome = .error e
    rw [hreceive, hserve]
    rcases hrequest k with ⟨e, heq⟩ | ⟨pending, backlog, result, heq, -, hresult, -⟩
    · rw [heq]
      exact ⟨hturn (Link.windsDown_refl hclosing) _ _ _, _, rfl⟩
    · obtain ⟨⟨e, hfails⟩, hwinds⟩ :=
        Link.windsDown_of_read p.channel.pool p.channel.runner pending hclosing hstate
      rw [heq, hresult e hfails]
      exact ⟨hturn hwinds _ _ _, e, rfl⟩
  | send message =>
    have hsend : p.channel.send p.make p.session message =
        ⟨.error .notSecured, p.channel, p.session, #[], #[]⟩ := if_neg h.state_ne
    show (p.channel.send p.make p.session message).Winds m ∧
      (p.channel.send p.make p.session message).result.map Response.sent = .error .notSecured
    rw [hsend]
    exact ⟨⟨m, h.engine_eq, .nil h.isClosing⟩, rfl⟩

theorem refuses (request : Request) : Refuses request (p.handle request).result := (h.turn_handle request).2

/-- Whatever is asked of a closed end, it winds down and stays closed. -/
theorem handle (request : Request) :
    ∃ m', (p.after (p.handle request)).Closed m' ∧ Winding m.due (p.handle request).calls.toList m' := by
  obtain ⟨⟨m', hengine, hwinding⟩, -⟩ := h.turn_handle request
  refine ⟨m', ⟨hengine, hwinding.isClosing, ?_⟩, hwinding⟩
  show (p.handle request).session.state ≠ .secured
  rw [p.session_handle request]
  exact state_ne_of_winding hwinding h.state_ne

/-- A closed end stays closed for ever. -/
theorem handleAll (requests : List Request) :
    ∃ m', (p.handleAll requests).2.Closed m' ∧
      Winding m.due ((p.handleAll requests).1.flatMap (·.calls.toList)) m' := by
  induction requests generalizing p m with
  | nil => exact ⟨m, h, .nil h.isClosing⟩
  | cons request requests ih =>
    obtain ⟨m', hafter, hfirst⟩ := h.handle request
    obtain ⟨m'', hlast, hrest⟩ := ih hafter
    exact ⟨m'', hlast, hfirst.append hrest⟩

end Closed

/-! ### The read that takes the alert -/

/-- A read winds down behind the call that offers the alert. -/
theorem winding_receive {input : Bytes} {before behind : List Call} {call : Call}
    (hcalls : (p.handle (.receive input)).calls.toList = before ++ call :: behind)
    (halert : call.offersAlert = true) :
    ∃ m due, (p.handle (.receive input)).channel.engine = some m ∧
      due <:+ [Masked.closingRecord.toBytes] ∧ Winding due behind m := by
  obtain ⟨request, hreceive, hrequest⟩ := p.channel.receive_reads p.make p.session input
  change (p.channel.receive p.make p.session input).calls.toList = _ at hcalls
  show ∃ m due, (p.channel.receive p.make p.session input).channel.engine = some m ∧ _
  rw [hreceive] at hcalls ⊢
  rcases p.channel.serve_makes p.make p.session with ⟨e, hfails⟩ | ⟨k, hmakes, -, hserve⟩
  · -- no engine, and so no call of one
    rw [hfails] at hcalls
    have hmem : call ∈ [Call.create (Session.attributes p.session).peer] := by
      show call ∈ (#[Call.create (Session.attributes p.session).peer]).toList
      rw [hcalls]
      exact List.mem_append_right _ List.mem_cons_self
    rw [List.mem_singleton.1 hmem] at halert
    cases halert
  · rw [hserve] at hcalls ⊢
    have hquiet := hmakes.quiet (by decide)
    rcases hrequest k with ⟨e, hturn⟩ | ⟨pending, backlog, result, hturn, -⟩
    · rw [hturn] at hcalls ⊢
      obtain ⟨due, hdue, hwinding⟩ := (Link.Closes.quiet hquiet).winding_of_split rfl hcalls halert
      exact ⟨_, due, rfl, hdue, hwinding⟩
    · rw [hturn] at hcalls ⊢
      have hcloses := hquiet.closes (k.closes_read p.channel.pool p.channel.runner pending)
      obtain ⟨due, hdue, hwinding⟩ := hcloses.winding_of_split rfl hcalls halert
      exact ⟨_, due, rfl, hdue, hwinding⟩

/-- When the engine of an end has been offered an alert, in whatever state, then from this call on, for the
rest of the read and for any requests that follow: the session is not secured again, no message is handed
over, and nothing is put into the outgoing queue but, at most once, an alert that answers.  In the end no
message can be sent, because the channel is not open, and no handshake can be started and nothing read. -/
theorem closed_of_alert {isClient : Bool} {options : MaskedOptions} {pool : Pool}
    (h : p.Reached isClient options pool) {input : Bytes} {before behind : List Call} {call : Call}
    (hcalls : (p.handle (.receive input)).calls.toList = before ++ call :: behind)
    (halert : call.offersAlert = true) (requests : List Request) :
    let turns := ((p.after (p.handle (.receive input))).handleAll requests).1
    let last := ((p.after (p.handle (.receive input))).handleAll requests).2
    let later := behind ++ turns.flatMap (·.calls.toList)
    last.session.state ≠ .secured ∧ .moveTo .secured ∉ later ∧
      (∀ message, .deliver message ∉ later) ∧
      last.session.received.toList = p.session.received.toList ++ before.filterMap Call.delivered? ∧
      (later.filterMap Call.enqueued? = [] ∨
        later.filterMap Call.enqueued? = [Masked.closingRecord.toBytes]) ∧
      Record.IsAlert Masked.closingRecord.toBytes ∧
      (∀ message, (last.handle (.send message)).result = .error .notSecured) ∧
      (∃ e, (last.handle .start).result = .error e) ∧
      ∀ bytes, ∃ e, (last.handle (.receive bytes)).result = .error e := by
  intro turns last later
  obtain ⟨m, due, hengine, hdue, hbehind⟩ := winding_receive hcalls halert
  have hclosed : (p.after (p.handle (.receive input))).Closed m := by
    refine ⟨hengine, hbehind.isClosing, ?_⟩
    intro hsecured
    -- the engine would be established
    obtain ⟨m', hm', hphase⟩ := (h.handle (.receive input)).isSecured_iff.1 hsecured
    have hsame : some m = some m' := hengine.symm.trans hm'
    cases hsame
    rcases hbehind.isClosing with hclosing | hclosing <;> (rw [hclosing] at hphase; cases hphase)
  obtain ⟨m', hlast, hturns⟩ := hclosed.handleAll requests
  have hlater : Winding due later m' := hbehind.append hturns
  refine ⟨hlast.state_ne, ?_, ?_, ?_, hlater.enqueued_cases hdue, Masked.isAlert_closingRecord, ?_, ?_, ?_⟩
  · intro hmem
    exact absurd (hlater.kinds _ hmem) (by decide)
  · intro message hmem
    exact absurd (hlater.kinds _ hmem) (by simp [closingKinds, Call.kind])
  · have hsession : last.session = Call.onAll p.session (before ++ call :: later) := by
      have hlog : (p.handle (.receive input)).calls.toList ++ turns.flatMap (·.calls.toList) =
          before ++ call :: later := by
        rw [hcalls, List.append_assoc, List.cons_append]
      rw [← hlog]
      exact p.session_handleAll (.receive input :: requests)
    have hnone := Call.filterMap_of_kinds Call.delivered?_of_kind hlater.kinds (by decide)
    have hcall : call.delivered? = none :=
      Call.delivered?_of_kind (by rw [Call.kind_of_offersAlert halert]; decide)
    rw [hsession, Call.received_onAll, List.filterMap_append, List.filterMap_cons, hcall, hnone,
      List.append_nil]
  · exact fun message => hlast.refuses (.send message)
  · exact hlast.refuses .start
  · exact fun bytes => hlast.refuses (.receive bytes)

/-- A client takes an alert in the middle of its handshake, answers it with the next read and does not answer
it once more. -/
theorem closed_of_alert_in_handshake :
    let p := ((connected true .usual .usual).handleAll [.start]).2
    let read := p.handle (.receive Masked.closingRecord.toBytes)
    let last := ((p.after read).handleAll [.receive [], .receive []]).2
    read.result.isOk = false ∧
      last.session.queued = #[Masked.helloRecord.toBytes, Masked.closingRecord.toBytes] ∧
      Record.IsAlert Masked.closingRecord.toBytes ∧ last.session.state ≠ .secured ∧
      (∀ message, (last.handle (.send message)).result = .error .notSecured) ∧
      (∃ e, (last.handle .start).result = .error e) ∧
      ∀ bytes, ∃ e, (last.handle (.receive bytes)).result = .error e := by
  intro p read last
  have hreached : p.Reached true .usual .usual := Reached.connected.handleAll [.start]
  have hresult : read.result.isOk = false := by decide +kernel
  have hqueued : last.session.queued = #[Masked.helloRecord.toBytes, Masked.closingRecord.toBytes] := by
    decide +kernel
  have hoffered : read.calls.toList.any Call.offersAlert = true := by decide +kernel
  obtain ⟨call, hmem, halert⟩ := List.any_eq_true.1 hoffered
  obtain ⟨before, behind, hcalls⟩ := List.append_of_mem hmem
  obtain ⟨hstate, -, -, -, -, hanswer, hrest⟩ := closed_of_alert hreached hcalls halert [.receive [], .receive []]
  exact ⟨hresult, hqueued, hanswer, hstate, hrest⟩

end Endpoint

end SecureStream
