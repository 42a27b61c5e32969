import SecureStream.Proofs.Channel.Opened
import SecureStream.Proofs.Channel.Rounds

/-!
# Outcomes tell the truth

What a read says of itself agrees with what it has done (`Channel.outcome_tells`), whatever the engine answers
and whatever has happened before: that the handshake goes on, that it has been completed, that the channel is
closed, and how many bytes were delivered.

* (a) The loop over the records has come to its outcome by its calls (`Call.Yields`, `Link.yields_unwrapAll`).
* (b) A read is such a loop, or a handshake that is not completed, or a handshake that is completed and such a
  loop behind it (`Call.Reads`, `Link.reads_read`).
* (c) Whatever has come about like that is true (`Call.Reads.tells`).
-/

namespace SecureStream

/-- What a read says when it has completed a handshake and then the loop over the records has said this. -/
def Outcome.shaken : Outcome → Outcome
  | delivered n => secured n
  | closed => closed
  | _ => secured 0

namespace Call

variable {j : Journal} {n : Nat} {a b calls : List Call} {o : Outcome}

/-- How many bytes calls hand over. -/
def handedOver (calls : List Call) : Nat := ((calls.filterMap delivered?).map List.length).sum

theorem handedOver_append (a b : List Call) : handedOver (a ++ b) = handedOver a + handedOver b := by
  simp [handedOver, List.filterMap_append]

theorem handedOver_of_none (h : calls.filterMap delivered? = []) : handedOver calls = 0 := by
  rw [handedOver, h]
  rfl

/-- Calls that ask for no move leave the state of a journal as it is. -/
theorem state_of_unmoved (h : calls.filterMap move? = []) : (onAll j calls).state = j.state := by
  induction calls generalizing j with
  | nil => rfl
  | cons call calls ih =>
    cases call with
    | moveTo state => cases h
    | _ => exact ih h

/-- Calls lead a journal to a state only by moving it there. -/
theorem state_ne_of_kinds {kinds : List CallKind} {state : SessionState} (h : ∀ call ∈ calls, call.kind ∈ kinds)
    (hkinds : .moveTo state ∉ kinds) (hstate : j.state ≠ state) : (onAll j calls).state ≠ state := by
  induction calls generalizing j with
  | nil => exact hstate
  | cons call calls ih =>
    refine ih (fun c hc => h c (List.mem_cons_of_mem _ hc)) ?_
    cases call with
    | moveTo other =>
      rintro rfl
      exact hkinds (h _ List.mem_cons_self)
    | _ => exact hstate

theorem unmoved_of_kinds {kinds : List CallKind} (h : ∀ call ∈ calls, call.kind ∈ kinds)
    (hkinds : ∀ state, .moveTo state ∉ kinds) : calls.filterMap move? = [] := by
  rw [List.filterMap_eq_nil_iff]
  intro call hmem
  have hkind := h call hmem
  cases call with
  | moveTo state => exact absurd hkind (hkinds state)
  | _ => rfl

/-- What has come of calls on an open channel, when so many bytes were handed over before them. -/
inductive Yields (j : Journal) (n : Nat) (calls : List Call) : Outcome → Prop where
  | delivered {total : Nat} (hmoves : calls.filterMap move? = []) (htotal : total = n + handedOver calls) :
    Yields j n calls (.delivered total)
  | starved (hmoves : calls.filterMap move? = []) (hnone : n + handedOver calls = 0) : Yields j n calls .starved
  | closed {first rest : List Call} {input : Bytes} {room : Nat} {r : Reply}
    (hcalls : calls = first ++ .unwrap input room (.ok r) :: rest) (hverdict : r.verdict = .closed)
    (hopen : (onAll j first).state = .secured) (hstate : (onAll j calls).state ≠ .securing) :
    Yields j n calls .closed

/-- Calls that only hand over bytes may stand in front. -/
theorem Yields.prepend (ha : a.filterMap move? = []) (h : Yields (onAll j a) (n + handedOver a) b o) :
    Yields j n (a ++ b) o := by
  have hmoves : ∀ {calls}, calls.filterMap move? = [] → (a ++ calls).filterMap move? = [] := by
    intro calls hcalls
    rw [List.filterMap_append, ha, hcalls]
    rfl
  have hsum := handedOver_append a b
  cases h with
  | delivered hb htotal => exact .delivered (hmoves hb) (by omega)
  | starved hb hnone => exact .starved (hmoves hb) (by omega)
  | @closed first rest input room r hcalls hverdict hopen hstate =>
    have hsplit : a ++ b = (a ++ first) ++ .unwrap input room (.ok r) :: rest := by
      rw [hcalls, List.append_assoc]
    rw [← onAll_append] at hopen hstate
    exact .closed hsplit hverdict hopen hstate

/-- What has come of the calls of a read. -/
inductive Reads (j : Journal) (calls : List Call) : Outcome → Prop where
  | still {o : Outcome} (hopen : j.state = .secured) (h : Yields j 0 calls o) : Reads j calls o
  | shaking (hstate : (onAll j calls).state = .securing) (hnone : calls.filterMap delivered? = []) :
    Reads j calls .handshaking
  | shaken {first rest : List Call} {o : Outcome} (hcalls : calls = first ++ .moveTo .secured :: rest)
    (hnone : first.filterMap delivered? = []) (h : Yields (onAll j (first ++ [.moveTo .secured])) 0 rest o) :
    Reads j calls o.shaken

/-- Calls that neither move nor hand over may stand in front. -/
theorem Reads.prepend (hmoves : a.filterMap move? = []) (ha : a.filterMap delivered? = [])
    (h : Reads (onAll j a) b o) : Reads j (a ++ b) o := by
  cases h with
  | still hopen h =>
    rw [state_of_unmoved hmoves] at hopen
    refine .still hopen (.prepend hmoves ?_)
    rwa [handedOver_of_none ha]
  | shaking hstate hnone =>
    refine .shaking ?_ ?_
    · rwa [onAll_append]
    · rw [List.filterMap_append, ha, hnone]
      rfl
  | @shaken first rest o hcalls hnone h =>
    have hsplit : a ++ b = (a ++ first) ++ .moveTo .secured :: rest := by
      rw [hcalls, List.append_assoc]
    rw [← onAll_append, ← List.append_assoc] at h
    refine .shaken hsplit ?_ h
    rw [List.filterMap_append, ha, hnone]
    rfl

/-! ### What is true of an outcome -/

/-- What a read says agrees with what it has done: with its calls, and with the journal before and after. -/
structure Tells (before : Journal) (calls : List Call) (after : Journal) (o : Outcome) : Prop where
  handshaking_iff : o = .handshaking ↔ after.state = .securing ∧ calls.filterMap delivered? = []
  secured_iff : (∃ n, o = .secured n) ↔
    .secured ∈ calls.filterMap move? ∧ after.state = .secured ∧ o ≠ .closed
  of_open : (∃ n, o = .delivered n) ∨ o = .starved →
    before.state = .secured ∧ after.state = .secured ∧ calls.filterMap move? = []
  of_closed : o = .closed → ∃ first input room r rest, calls = first ++ .unwrap input room (.ok r) :: rest ∧
    r.verdict = .closed ∧ (onAll before first).state = .secured
  count : ∀ n, o = .delivered n ∨ o = .secured n → n = handedOver calls
  of_starved : o = .starved → handedOver calls = 0

/-- The loop over the records of an open channel. -/
private theorem Yields.tells (hopen : j.state = .secured) (h : Yields j 0 calls o) :
    Tells j calls (onAll j calls) o := by
  cases h with
  | @delivered total hmoves htotal =>
    have hstate := (state_of_unmoved (j := j) hmoves).trans hopen
    refine ⟨⟨nofun, ?_⟩, ⟨nofun, ?_⟩, fun _ => ⟨hopen, hstate, hmoves⟩, nofun, ?_, nofun⟩
    · rw [hstate]
      nofun
    · rw [hmoves]
      nofun
    · rintro n (heq | heq)
      · cases heq
        omega
      · cases heq
  | starved hmoves hnone =>
    have hstate := (state_of_unmoved (j := j) hmoves).trans hopen
    refine ⟨⟨nofun, ?_⟩, ⟨nofun, ?_⟩, fun _ => ⟨hopen, hstate, hmoves⟩, nofun, by simp, fun _ => by omega⟩
    · rw [hstate]
      nofun
    · rw [hmoves]
      nofun
  | closed hcalls hverdict hfirst hstate =>
    refine ⟨⟨nofun, fun h => absurd h.1 hstate⟩, ⟨nofun, fun h => absurd rfl h.2.2⟩, by simp, ?_, by simp, nofun⟩
    exact fun _ => ⟨_, _, _, _, _, hcalls, hverdict, hfirst⟩

/-- Whatever a read says is true. -/
theorem Reads.tells (h : Reads j calls o) : Tells j calls (onAll j calls) o := by
  cases h with
  | still hopen h => exact h.tells hopen
  | shaking hstate hnone =>
    refine ⟨⟨fun _ => ⟨hstate, hnone⟩, fun _ => rfl⟩, ⟨nofun, ?_⟩, by simp, nofun, by simp, nofun⟩
    rw [hstate]
    nofun
  | @shaken first rest o hcalls hnone h =>
    have hsplit : calls = (first ++ [.moveTo .secured]) ++ rest := by
      rw [hcalls, List.append_assoc]
      rfl
    have hsecured : (onAll j (first ++ [.moveTo .secured])).state = .secured := by
      rw [onAll_append]
      rfl
    have hmem : .secured ∈ calls.filterMap move? := by
      rw [hcalls, List.filterMap_append]
      exact List.mem_append_right _ List.mem_cons_self
    have hsum : handedOver calls = handedOver rest := by
      have hfirst : handedOver (first ++ [.moveTo .secured]) = 0 :=
        handedOver_of_none (by rw [List.filterMap_append, hnone]; rfl)
      rw [hsplit, handedOver_append, hfirst, Nat.zero_add]
    have hafter : onAll j calls = onAll (onAll j (first ++ [.moveTo .secured])) rest := by
      rw [hsplit, onAll_append]
    rw [hafter]
    cases h with
    | @delivered total hmoves htotal =>
      have hstate := (state_of_unmoved hmoves).trans hsecured
      refine ⟨⟨nofun, fun h => ?_⟩, ⟨fun _ => ⟨hmem, hstate, nofun⟩, fun _ => ⟨total, rfl⟩⟩, ?_, nofun, ?_, nofun⟩
      · rw [hstate] at h
        cases h.1
      · simp [Outcome.shaken]
      · rintro n (heq | heq)
        · cases heq
        · cases heq
          omega
    | starved hmoves htotal =>
      have hstate := (state_of_unmoved hmoves).trans hsecured
      refine ⟨⟨nofun, fun h => ?_⟩, ⟨fun _ => ⟨hmem, hstate, nofun⟩, fun _ => ⟨0, rfl⟩⟩, ?_, nofun, ?_, nofun⟩
      · rw [hstate] at h
        cases h.1
      · simp [Outcome.shaken]
      · rintro n (heq | heq)
        · cases heq
        · cases heq
          omega
    | @closed before after input room r hrest hverdict hopen hstate =>
      refine ⟨⟨nofun, fun h => absurd h.1 hstate⟩, ⟨nofun, fun h => absurd rfl h.2.2⟩, ?_, fun _ => ?_, ?_, nofun⟩
      · simp [Outcome.shaken]
      · rw [← onAll_append] at hopen
        exact ⟨_, input, room, r, after, by rw [hsplit, hrest, ← List.append_assoc], hverdict, hopen⟩
      · simp [Outcome.shaken]

end Call

/-! ### Links -/

namespace Link

variable {E : Type} [Engine E] {k k' : Link E Journal}

/-- The calls for one record: they hand over what the buffer holds. -/
private theorem made_record {input : Bytes} {room : Nat} {answer : Except EngineError Reply}
    (h : k.unwrap input room = (answer, k')) (consumed : Nat) (b : Scratch) :
    ∃ calls, Made calls k (k'.handOver consumed b) ∧ calls.filterMap Call.move? = [] ∧
      Call.handedOver calls = b.size := by
  refine ⟨_, (made_unwrap h).trans (k'.made_handOver consumed b), ?_, ?_⟩
  · split <;> rfl
  · split
    · next hempty => exact (congrArg List.length hempty).symm
    · exact Nat.add_zero _

theorem yields_unwrapAll {pool : Pool} {input left : Bytes} {b : Scratch} {n : Nat} {o : Outcome}
    (h : k.unwrapAll pool input b n = (.ok (o, left), k')) :
    ∃ calls, Made calls k k' ∧ Call.Yields k.session n calls o := by
  fun_induction unwrapAll pool k input b n with
  | case3 k input b n r after hunwrap rest filled hverdict hprogress served hrest =>
    simp only [Prod.mk.injEq, Except.ok.injEq] at h
    obtain ⟨⟨rfl, -⟩, rfl⟩ := h
    obtain ⟨calls, hmade, hmoves, hsum⟩ := made_record hunwrap r.consumed filled
    exact ⟨calls, hmade, .delivered hmoves (by rw [hsum])⟩
  | case4 k input b n r after hunwrap rest filled hverdict hprogress served hrest ih =>
    obtain ⟨calls, hmade, hmoves, hsum⟩ := made_record hunwrap r.consumed filled
    obtain ⟨calls', hmade', hyields⟩ := ih h
    rw [hmade.session_eq, ← hsum] at hyields
    exact ⟨calls ++ calls', hmade.trans hmade', hyields.prepend hmoves⟩
  | case5 k input b n r after hunwrap rest hverdict =>
    simp only [Prod.mk.injEq, Except.ok.injEq] at h
    obtain ⟨⟨rfl, -⟩, rfl⟩ := h
    have hnoted : Made [] after (after.note (.recordRetained rest.length)) := ⟨(List.append_nil _).symm, rfl⟩
    refine ⟨_, (made_unwrap hunwrap).trans hnoted, ?_⟩
    split
    · next hzero => exact .starved rfl hzero
    · exact .delivered rfl rfl
  | case7 k input b n r after hunwrap rest filled hverdict grown hgrow ih =>
    have hmade := made_unwrap hunwrap
    obtain ⟨calls, hmade', hyields⟩ := ih h
    rw [hmade.session_eq] at hyields
    exact ⟨_, hmade.trans hmade', hyields.prepend rfl⟩
  | case9 k input b n r after hunwrap rest hverdict hopen last hanswer =>
    simp only [Prod.mk.injEq, Except.ok.injEq] at h
    obtain ⟨⟨rfl, -⟩, rfl⟩ := h
    have hmade := made_unwrap hunwrap
    have hanswered := after.makes_answerClose pool r.demand
    rw [hanswer] at hanswered
    obtain ⟨calls, hmade', hcalls⟩ := hanswered
    have hsession : after.session = k.session := hmade.session_eq
    change after.session.state = .secured at hopen
    refine ⟨_, hmade.trans hmade', .closed (List.nil_append _).symm hverdict ?_ ?_⟩
    · rw [← hsession]
      exact hopen
    · rw [Call.onAll_append, ← hmade.session_eq]
      refine Call.state_ne_of_kinds hcalls (by decide) ?_
      rw [hopen]
      decide
  | _ => cases h

theorem yields_unwrapRecords {pool : Pool} {input left : Bytes} {o : Outcome}
    (h : k.unwrapRecords pool input = (.ok (o, left), k')) :
    ∃ calls, Made calls k k' ∧ Call.Yields k.session 0 calls o := by
  unfold unwrapRecords at h
  split at h
  · cases h
    exact ⟨[], ⟨(List.append_nil _).symm, rfl⟩, .starved rfl rfl⟩
  · split at h
    · cases h
    · exact yields_unwrapAll h

omit [Engine E] in
/-- A handshake that is entered makes the session securing, if it has not been so before. -/
theorem state_enterHandshake (k : Link E Journal) (hgoing : k.handshaking = true → k.session.state = .securing) :
    k.enterHandshake.session.state = .securing := by
  unfold enterHandshake
  split
  · next h => exact hgoing h
  · rfl

theorem reads_read {pool : Pool} {runner : Runner} {input left : Bytes} {o : Outcome}
    (hgoing : k.handshaking = true → k.session.state = .securing)
    (h : k.read pool runner input = (.ok (o, left), k')) :
    ∃ calls, Made calls k k' ∧ Call.Reads k.session calls o := by
  unfold read at h
  split at h
  · next hopen =>
    obtain ⟨calls, hmade, hyields⟩ := yields_unwrapRecords h
    exact ⟨calls, hmade, .still hopen hyields⟩
  · have hsecuring := k.state_enterHandshake hgoing
    obtain ⟨entering, hentered, hentering⟩ := k.makes_enterHandshake
    have hshook := k.enterHandshake.shake_cases pool runner input.length k.enterHandshake.demand input
    have hquiet := Call.filterMap_of_kinds Call.delivered?_of_kind hentering (by decide)
    unfold readSecuring at h
    dsimp only at h
    rcases hshake : k.enterHandshake.shake pool runner input.length k.enterHandshake.demand input with
      ⟨e | ⟨_ | _, rest⟩, after⟩
    · rw [hshake] at h
      cases h
    · rw [hshake] at h hshook
      cases h
      rcases hshook with ⟨⟨calls, hmade, hcalls⟩, -⟩ | ⟨last, -, -, left', hdone⟩
      · refine ⟨entering ++ calls, hentered.trans hmade, .shaking ?_ ?_⟩
        · have hunmoved := Call.unmoved_of_kinds hcalls (by simp [roundKinds])
          rw [Call.onAll_append, ← hentered.session_eq, Call.state_of_unmoved hunmoved]
          exact hsecuring
        · rw [List.filterMap_append, hquiet, Call.filterMap_of_kinds Call.delivered?_of_kind hcalls (by decide)]
          rfl
      · cases hdone
    · rw [hshake] at h hshook
      rcases hshook with ⟨-, hopen⟩ | ⟨last, ⟨calls, hmade, hcalls⟩, hsecured, -⟩
      · exact absurd rfl (hopen rest)
      · have hsilent := Call.filterMap_of_kinds Call.delivered?_of_kind hcalls (by decide)
        have hfirst : Made (entering ++ calls ++ [.moveTo .secured]) k after :=
          (hentered.trans hmade).trans hsecured
        dsimp only at h
        rcases hrecords : after.unwrapRecords pool rest with ⟨e | ⟨o', left'⟩, final⟩
        · rw [hrecords] at h
          cases h
        · obtain ⟨calls', hmade', hyields⟩ := yields_unwrapRecords hrecords
          rw [hfirst.session_eq] at hyields
          have ho : o'.shaken = o ∧ final = k' := by
            rw [hrecords] at h
            cases o' <;> (cases h; exact ⟨rfl, rfl⟩)
          obtain ⟨rfl, rfl⟩ := ho
          refine ⟨_, hfirst.trans hmade', .shaken (List.append_assoc ..) ?_ hyields⟩
          rw [List.filterMap_append, hquiet, hsilent]
          rfl

end Link

/-! ### Requests -/

namespace Channel

/-- A read that succeeds has come to its outcome by its calls. -/
theorem reads_receive {E : Type} [Engine E] {c : Channel E} {make : EngineMaker E} {s : Journal} {input : Bytes}
    {o : Outcome} (hgoing : c.handshaking = true → s.state = .securing)
    (h : (c.receive make s input).result = .ok o) : Call.Reads s (c.receive make s input).calls.toList o := by
  obtain ⟨request, hreceive, hrequest⟩ := c.receive_reads make s input
  rw [hreceive] at h ⊢
  rcases c.serve_makes make s with ⟨e, hfails⟩ | ⟨k, ⟨made, hmade, hmakes⟩, hhandshaking, hserve⟩
  · rw [hfails] at h
    cases h
  · rw [hserve] at h ⊢
    have hmoves := Call.unmoved_of_kinds hmakes (by simp [prepareKinds])
    have hsilent := Call.filterMap_of_kinds Call.delivered?_of_kind hmakes (by decide)
    have hsession : k.session = Call.onAll s made := hmade.session_eq
    have hsecuring : k.handshaking = true → k.session.state = .securing := by
      intro hk
      rw [hsession, Call.state_of_unmoved hmoves]
      exact hgoing (hhandshaking ▸ hk)
    rcases hrequest k with ⟨e, hturn⟩ | ⟨pending, backlog, result, hturn, -, -, -, hok⟩
    · rw [hturn] at h
      cases h
    · rw [hturn] at h ⊢
      obtain ⟨left, hread⟩ := hok o h
      obtain ⟨calls, hmade', hreads⟩ := Link.reads_read hsecuring (Prod.ext hread rfl)
      have hlist : (k.read c.pool c.runner pending).2.calls.toList = made ++ calls := by
        rw [hmade'.calls_eq, hmade.calls_eq]
        rfl
      show Call.Reads s (k.read c.pool c.runner pending).2.calls.toList o
      rw [hlist]
      rw [hsession] at hreads
      exact hreads.prepend hmoves hsilent

/-- Whatever an engine answers and whatever has happened before, a read that succeeds tells the truth: its
outcome agrees with the moves of the journal, with the messages that the journal has received, and with the
replies of the engine.  If all answers to unwrapping in the scripts are exact, then the messages are what the
engine has opened while the journal was secured, one message for each output that is not empty. -/
theorem outcome_tells (pool : Pool) (runner : Runner) (j : Journal) (hne : j.state ≠ .securing)
    (hnone : j.transitions = #[]) :
    (∀ {E : Type} [Engine E] (history : List (EngineMaker E × Request)) (make : EngineMaker E) (input : Bytes)
        (o : Outcome),
      let c := ((closed pool runner).handleAll j history).2.1
      let s := ((closed pool runner).handleAll j history).2.2
      let turn := c.receive make s input
      turn.result = .ok o →
        turn.session.transitions.toList = s.transitions.toList ++ turn.calls.toList.filterMap Call.move? ∧
          turn.session.received.toList = s.received.toList ++ turn.calls.toList.filterMap Call.delivered? ∧
          Call.Tells s turn.calls.toList turn.session o) ∧
      ∀ (history : List (EngineMaker Playback × Request)) (make : EngineMaker Playback) (input : Bytes)
        (o : Outcome),
        (∀ entry ∈ (make, .receive input) :: history, ∀ peer p, entry.1 peer = .ok p → p.IsExact) →
        let c := ((closed pool runner).handleAll j history).2.1
        let s := ((closed pool runner).handleAll j history).2.2
        let turn := c.receive make s input
        turn.result = .ok o →
          turn.calls.toList.filterMap Call.delivered? = Call.opened s turn.calls.toList := by
  refine ⟨?_, ?_⟩
  · intro E _ history make input o c s turn hresult
    have hbegin : GoesRound j.state (closed (E := E) pool runner).handshaking j := .of_unmoved hne hnone
    have hround : GoesRound j.state c.handshaking s := hbegin.handleAll history
    have hsession : turn.session = Call.onAll s turn.calls.toList := c.session_handle make s (.receive input)
    have hreads : Call.Reads s turn.calls.toList o := reads_receive hround.handshaking_iff.1 hresult
    refine ⟨c.transitions_handle make s (.receive input), ?_, ?_⟩
    · rw [hsession, Call.received_onAll]
    · rw [hsession]
      exact hreads.tells
  · intro history make input o hexact c s turn hresult
    have hmake := List.forall_mem_cons.1 hexact
    have hengine := Playback.keeps_exact.handleAll (s := j) hmake.2 (c := closed pool runner) nofun
    have hreplies := Playback.keeps_exact.receive (R := fun offered room answer =>
      (Call.unwrap offered room answer).IsExact) Playback.exact_answer (s := s) hengine hmake.1 input
    refine c.delivered_receive make s input fun call hmem => ?_
    cases call with
    | unwrap offered room answer => exact hreplies offered room answer hmem
    | _ => trivial

/-- A script completes a handshake, asks for a larger buffer once, and opens two records behind it.  The read
after that finds the channel closed. -/
theorem outcome_tells_script :
    let script : List ScriptStep :=
      [.wrap ⟨.ok, .input, 0, 1, [7]⟩ false, .unwrap ⟨.underflow, .input, 0, 0, []⟩,
        .unwrap ⟨.ok, .finished, 2, 3, [1, 2, 3]⟩, .unwrap ⟨.overflow, .none, 0, 0, []⟩,
        .unwrap ⟨.ok, .none, 1, 2, [5, 6]⟩, .unwrap ⟨.ok, .none, 1, 1, [8]⟩]
    let make : EngineMaker Playback := fun _ => .ok (.start .output script 256)
    let j := Journal.connected true .unknown
    let c := ((closed .usual .onTheSpot).handleAll j [(make, .start)]).2.1
    let s := ((closed .usual .onTheSpot).handleAll j [(make, .start)]).2.2
    let turn := c.receive make s [9, 9, 4, 4]
    j.state ≠ .securing ∧ j.transitions = #[] ∧ turn.result = .ok (.secured 3) ∧
      Call.handedOver turn.calls.toList = 3 ∧ turn.session.state = .secured ∧
      turn.calls.toList.filterMap Call.delivered? = Call.opened s turn.calls.toList ∧
      Call.opened s turn.calls.toList = [[5, 6], [8]] := by
  intro script make j c s turn
  have hne : j.state ≠ .securing := by decide
  have hexact : ∀ entry ∈ [(make, Request.receive [9, 9, 4, 4]), (make, .start)], ∀ peer p,
      entry.1 peer = .ok p → p.IsExact := by
    intro entry hentry peer p hmade reply hmem
    have hp : p = .start .output script 256 := by
      rcases List.mem_cons.1 hentry with rfl | hentry
      · exact (Except.ok.inj hmade).symm
      · obtain rfl := List.mem_singleton.1 hentry
        exact (Except.ok.inj hmade).symm
    subst hp
    simp only [Playback.start, script, List.mem_cons, ScriptStep.unwrap.injEq, reduceCtorEq, List.not_mem_nil,
      false_or, or_false] at hmem
    rcases hmem with rfl | rfl | rfl | rfl | rfl <;> exact ⟨rfl, by simp⟩
  obtain ⟨htells, hopened⟩ := outcome_tells .usual .onTheSpot j hne rfl
  have hresult : turn.result = .ok (.secured 3) := by
    have hoption : turn.result.toOption = some (.secured 3) := by decide +kernel
    rcases hturn : turn.result with e | o
    · rw [hturn] at hoption
      cases hoption
    · rw [hturn] at hoption
      exact congrArg Except.ok (Option.some.inj hoption)
  obtain ⟨-, -, h⟩ := htells [(make, .start)] make [9, 9, 4, 4] (.secured 3) hresult
  have hopens := hopened [(make, .start)] make [9, 9, 4, 4] (.secured 3) hexact hresult
  refine ⟨hne, rfl, hresult, (h.count 3 (.inr rfl)).symm, (h.secured_iff.1 ⟨3, rfl⟩).2.1, hopens, ?_⟩
  decide +kernel

end Channel

end SecureStream
