import SecureStream.Engine.Playback
import SecureStream.Proofs.Channel.Calls

/-!
# Messages pass only on an open channel

A channel hands a message to its journal only while the journal is secured, and never an empty one.  In front
of the first message of a call stands the move to the secured state, right after the engine has said that the
handshake is completed, unless the journal was secured before.  Nothing else that an engine unwraps is handed
over, however the call ends (`Channel.deliver_of_secured`).

* (a) Along a log, `Call.Gated` is kept by calls that hand nothing over (`Call.gated_of_kinds`) and can be put
  together from parts (`Call.Gated.append`).
* (b) The loop over the records of an open channel leaves the state of the journal alone until the channel is
  closed, behind which nothing is handed over (`Link.gates_unwrapAll`).
* (c) A handshake hands nothing over, and is completed only by securing the journal
  (`Link.secured_of_shake`).
-/

namespace SecureStream

/-! ### Logs -/

namespace Call

/-- Every message of a log is handed over to a secured journal, and none is empty. -/
def Gated (j : Journal) (calls : List Call) : Prop :=
  ∀ before message after, calls = before ++ .deliver message :: after →
    message ≠ [] ∧ (onAll j before).state = .secured

variable {j : Journal} {a b calls : List Call}

theorem gated_nil : Gated j [] := by
  intro before message after hcalls
  simp at hcalls

theorem Gated.append (ha : Gated j a) (hb : Gated (onAll j a) b) : Gated j (a ++ b) := by
  intro before message after hcalls
  rcases split_append hcalls with ⟨rest, hfirst, -⟩ | ⟨pre, rfl, hsecond⟩
  · exact ha before message rest hfirst
  · rw [onAll_append]
    exact hb pre message after hsecond

theorem gated_of_kinds {kinds : List CallKind} (h : ∀ call ∈ calls, call.kind ∈ kinds)
    (hkinds : .deliver ∉ kinds) : Gated j calls := by
  intro before message after hcalls
  have hmem : .deliver message ∈ calls := by
    rw [hcalls]
    exact List.mem_append_right _ List.mem_cons_self
  exact absurd (h _ hmem) hkinds

theorem gated_deliver {message : Bytes} (hmessage : message ≠ []) (hstate : j.state = .secured) :
    Gated j [.deliver message] := by
  intro before other after hcalls
  cases before with
  | nil =>
    obtain ⟨hother, -⟩ := List.cons.inj hcalls
    cases hother
    exact ⟨hmessage, hstate⟩
  | cons call before =>
    have hlength := congrArg List.length hcalls
    simp at hlength

end Call

/-! ### Links -/

namespace Link

variable {E : Type} [Engine E] {k k' k'' : Link E Journal}

/-- The link has become another with calls that are gated. -/
def Gates (k k' : Link E Journal) : Prop := ∃ calls, Made calls k k' ∧ Call.Gated k.session calls

omit [Engine E] in
theorem Gates.refl (k : Link E Journal) : Gates k k := ⟨[], ⟨(List.append_nil _).symm, rfl⟩, Call.gated_nil⟩

omit [Engine E] in
theorem Gates.trans (h : Gates k k') (h' : Gates k' k'') : Gates k k'' := by
  obtain ⟨a, hmade, ha⟩ := h
  obtain ⟨b, hmade', hb⟩ := h'
  rw [hmade.session_eq] at hb
  exact ⟨a ++ b, hmade.trans hmade', ha.append hb⟩

omit [Engine E] in
theorem Makes.gates {kinds : List CallKind} (h : Makes kinds k k') (hkinds : .deliver ∉ kinds) :
    Gates k k' := by
  obtain ⟨calls, hmade, hcalls⟩ := h
  exact ⟨calls, hmade, Call.gated_of_kinds hcalls hkinds⟩

theorem gates_unwrap {input : Bytes} {room : Nat} {answer : Except EngineError Reply}
    (h : k.unwrap input room = (answer, k')) : Gates k k' := (makes_unwrap h).gates (by simp)

variable (k)

omit [Engine E] in
theorem gates_handOver (consumed : Nat) (b : Scratch) (hstate : k.session.state = .secured) :
    Gates k (k.handOver consumed b) := by
  refine ⟨_, k.made_handOver consumed b, ?_⟩
  split
  · exact Call.gated_nil
  · next hne => exact Call.gated_deliver hne hstate

omit [Engine E] in
theorem state_handOver (consumed : Nat) (b : Scratch) :
    (k.handOver consumed b).session.state = k.session.state := by
  unfold handOver
  split <;> rfl

theorem gates_answerClose (pool : Pool) (demand : Demand) : Gates k (k.answerClose pool demand).2 :=
  (k.makes_answerClose pool demand).gates (by simp)

/-- The loop over the records of an open channel. -/
theorem gates_unwrapAll (pool : Pool) (input : Bytes) (b : Scratch) (n : Nat)
    (hstate : k.session.state = .secured) : Gates k (k.unwrapAll pool input b n).2 := by
  -- the engine is called without the session, and what is handed over leaves its state as it is
  have hsame : ∀ {k after : Link E Journal} {input : Bytes} {room : Nat} {answer : Except EngineError Reply},
      k.unwrap input room = (answer, after) → after.session = k.session := by
    intro k after input room answer hunwrap
    cases hunwrap
    rfl
  fun_induction unwrapAll pool k input b n with
  | case3 k input b n r after hunwrap rest filled =>
    have hafter : after.session.state = .secured := by rw [hsame hunwrap, hstate]
    exact (gates_unwrap hunwrap).trans (after.gates_handOver r.consumed filled hafter)
  | case4 k input b n r after hunwrap rest filled hverdict hprogress served hrest ih =>
    have hafter : after.session.state = .secured := by rw [hsame hunwrap, hstate]
    have hserved : served.session.state = .secured := by rw [after.state_handOver, hafter]
    have hgates := (gates_unwrap hunwrap).trans (after.gates_handOver r.consumed filled hafter)
    exact hgates.trans (ih hserved)
  | case5 k input b n r after hunwrap rest hverdict =>
    have hnoted : Makes [.unwrap] after (after.note (.recordRetained rest.length)) := makes_note ..
    exact (gates_unwrap hunwrap).trans (hnoted.gates (by simp))
  | case7 k input b n r after hunwrap rest filled hverdict grown hgrow ih =>
    exact (gates_unwrap hunwrap).trans (ih (by rw [hsame hunwrap, hstate]))
  | case8 k input b n r after hunwrap hverdict hopen e last hanswer =>
    have hclosed := after.gates_answerClose pool r.demand
    rw [hanswer] at hclosed
    exact (gates_unwrap hunwrap).trans hclosed
  | case9 k input b n r after hunwrap rest hverdict hopen last hanswer =>
    have hclosed := after.gates_answerClose pool r.demand
    rw [hanswer] at hclosed
    exact (gates_unwrap hunwrap).trans hclosed
  | _ => exact gates_unwrap ‹_›

theorem gates_unwrapRecords (pool : Pool) (input : Bytes) (hstate : k.session.state = .secured) :
    Gates k (k.unwrapRecords pool input).2 := by
  unfold unwrapRecords
  split
  · exact .refl k
  · split
    · exact .refl k
    · exact k.gates_unwrapAll pool input _ 0 hstate

variable {k}

/-- A handshake that is completed has secured the journal. -/
theorem secured_of_shake {pool : Pool} {runner : Runner} {total : Nat} {demand : Demand} {input left : Bytes}
    (h : k.shake pool runner total demand input = (.ok (true, left), k')) : k'.session.state = .secured := by
  fun_induction shake pool runner total k demand input with
  | case1 k input noted =>
    cases h
    rfl
  | case3 k input next after noted htasks ih => exact ih h
  | case5 k input next after noted hfetch ih => exact ih h
  | case8 k input next rest after noted hbring ih => exact ih h
  | case11 k input next rest after noted hbring ih => exact ih h
  | _ => cases h

variable (k)

theorem gates_read (pool : Pool) (runner : Runner) (input : Bytes) :
    Gates k (k.read pool runner input).2 := by
  unfold read
  split
  · next hstate => exact k.gates_unwrapRecords pool input hstate
  · have hentered : Gates k k.enterHandshake := k.makes_enterHandshake.gates (by simp)
    have hshook := (k.enterHandshake.makes_shake pool runner input.length k.enterHandshake.demand input).gates
      (by decide)
    unfold readSecuring
    dsimp only
    rcases hshake : k.enterHandshake.shake pool runner input.length k.enterHandshake.demand input with
      ⟨e | ⟨_ | _, left⟩, after⟩
    · rw [hshake] at hshook
      exact hentered.trans hshook
    · rw [hshake] at hshook
      exact hentered.trans hshook
    · rw [hshake] at hshook
      have hrecords := after.gates_unwrapRecords pool left (secured_of_shake hshake)
      have hall := (hentered.trans hshook).trans hrecords
      dsimp only
      split <;> (next heq => rwa [heq] at hall)

end Link

/-! ### Requests -/

namespace Channel

variable {E : Type} [Engine E] (c : Channel E) (make : EngineMaker E) (s : Journal)

/-- A request that a link serves with gated calls is gated. -/
private theorem gated_serve {α : Type} (request : Link E Journal → Turn E Journal α)
    (hrequest : ∀ k : Link E Journal, ∃ k' : Link E Journal, Link.Gates k k' ∧ (request k).calls = k'.calls) :
    Call.Gated s (c.serve make s request).calls.toList := by
  rcases c.serve_makes make s with ⟨e, hfails⟩ | ⟨k, hmakes, -, hserve⟩
  · have hkinds : ∀ call ∈ [Call.create (Session.attributes s).peer], call.kind ∈ [CallKind.create] := by
      simp [Call.kind]
    rw [hfails]
    exact Call.gated_of_kinds hkinds (by simp)
  · obtain ⟨k', hgates, hcalls⟩ := hrequest k
    obtain ⟨calls, hmade, hgated⟩ := (hmakes.gates (by decide)).trans hgates
    have hlist : k'.calls.toList = calls := hmade.calls_eq
    rw [hserve, hcalls, hlist]
    exact hgated

theorem gated_handle (request : Request) : Call.Gated s (c.handle make s request).calls.toList := by
  cases request with
  | prepare => exact c.gated_serve make s _ fun k => ⟨k, .refl k, rfl⟩
  | start =>
    refine c.gated_serve make s _ fun k => ⟨_, ?_, rfl⟩
    exact (k.makes_start c.pool c.runner).gates (by decide)
  | receive input =>
    obtain ⟨request, hreceive, hrequest⟩ := c.receive_reads make s input
    show Call.Gated s (c.receive make s input).calls.toList
    rw [hreceive]
    refine c.gated_serve make s request fun k => ?_
    rcases hrequest k with ⟨e, hturn⟩ | ⟨pending, backlog, result, hturn, -⟩
    · exact ⟨k, .refl k, by rw [hturn]; rfl⟩
    · exact ⟨_, k.gates_read c.pool c.runner pending, by rw [hturn]; rfl⟩
  | send message =>
    show Call.Gated s (c.send make s message).calls.toList
    unfold send
    split
    · refine c.gated_serve make s _ fun k => ⟨_, ?_, rfl⟩
      exact (k.makes_write c.pool message).gates (by simp)
    · exact Call.gated_nil

/-- Whatever an engine answers, whatever has happened before, and however the request ends: a message is
handed over only while the journal is secured, and is not empty.  If the journal was not secured to begin
with, then it has been secured in between, and the engine had just said that the handshake is completed.  The
journal has received these messages and no others.  A message that is to be sent before that changes nothing,
and no engine is made or called for it. -/
theorem deliver_of_secured (request : Request) :
    let turn := c.handle make s request
    turn.session.received.toList = s.received.toList ++ turn.calls.toList.filterMap Call.delivered? ∧
      (∀ before message after, turn.calls.toList = before ++ .deliver message :: after →
        message ≠ [] ∧ ((c.scene s).replay make c.runner before).session.state = .secured ∧
          (s.state = .secured ∨ ∃ first second, before = first ++ .moveTo .secured :: second ∧
            ((c.scene s).replay make c.runner first).said = some .finished)) ∧
      (∀ message, request = .send message → s.state ≠ .secured →
        turn = ⟨.error .notSecured, c, s, #[], #[]⟩) := by
  intro turn
  refine ⟨?_, ?_, ?_⟩
  · rw [c.session_handle make s request, Call.received_onAll]
  · intro before message after hcalls
    obtain ⟨hmessage, hstate⟩ := c.gated_handle make s request before message after hcalls
    rw [Call.session_replay]
    refine ⟨hmessage, hstate, ?_⟩
    rcases Call.secured_of_onAll s before hstate with hsecured | hmem
    · exact .inl hsecured
    · obtain ⟨first, second, rfl⟩ := List.append_of_mem hmem
      have hsplit : turn.calls.toList =
          first ++ .moveTo .secured :: (second ++ .deliver message :: after) := by
        rw [hcalls, List.append_assoc, List.cons_append]
      exact .inr ⟨first, second, rfl, c.said_of_secured make s request hsplit⟩
  · rintro message rfl hstate
    have hsend : c.send make s message = ⟨.error .notSecured, c, s, #[], #[]⟩ := if_neg hstate
    show (c.send make s message).map Response.sent = _
    rw [hsend]
    rfl

/-- An engine unwraps three bytes together with the end of the handshake, which are thrown away, and then a
message in the same call. -/
theorem deliver_of_secured_script :
    let script : List ScriptStep :=
      [.unwrap ⟨.ok, .finished, 2, 3, [1, 2, 3]⟩, .unwrap ⟨.ok, .none, 1, 1, [5]⟩]
    let make : EngineMaker Playback := fun _ => .ok (.start .input script 256)
    let c : Channel Playback := closed .usual .onTheSpot
    let s := Journal.connected true .unknown
    let turn := c.handle make s (.receive [9, 9, 8])
    turn.session.received = #[[5]] ∧
      (∃ first second, ((c.scene s).replay make c.runner first).said = some .finished ∧
        ((c.scene s).replay make c.runner (first ++ .moveTo .secured :: second)).session.state = .secured) ∧
      c.handle make s (.send [7]) = ⟨.error .notSecured, c, s, #[], #[]⟩ := by
  intro script make c s turn
  have hreceived : turn.session.received = #[[5]] := by decide +kernel
  have hunsecured : s.state ≠ .secured := by decide
  obtain ⟨hlog, hgated, -⟩ := c.deliver_of_secured make s (.receive [9, 9, 8])
  obtain ⟨-, -, hearly⟩ := c.deliver_of_secured make s (.send [7])
  refine ⟨hreceived, ?_, hearly [7] rfl hunsecured⟩
  have hmem : [5] ∈ turn.calls.toList.filterMap Call.delivered? := by
    have hlist : turn.session.received.toList = [[5]] := by rw [hreceived]
    rw [hlog] at hlist
    have hdelivered : turn.calls.toList.filterMap Call.delivered? = [[5]] := hlist
    rw [hdelivered]
    exact List.mem_singleton_self _
  obtain ⟨call, hcall, hdelivers⟩ := List.mem_filterMap.1 hmem
  cases call with
  | deliver message =>
    cases hdelivers
    obtain ⟨before, after, hcalls⟩ := List.append_of_mem hcall
    obtain ⟨-, hstate, hsecured⟩ := hgated before _ after hcalls
    rcases hsecured with hsecured | ⟨first, second, rfl, hsaid⟩
    · exact absurd hsecured hunsecured
    · exact ⟨first, second, hsaid, hstate⟩
  | _ => cases hdelivers

end Channel

end SecureStream
