import SecureStream.Channel.Request
import SecureStream.Proofs.Channel.Log
import SecureStream.Session.Journal

/-!
# Which calls are made

The functions on links differ in the kinds of calls that they make.  `Link.Makes kinds k k'` says that the
link `k` has become `k'` with calls of these kinds and no others, and that nothing was done to the session but
what these calls did to it.  There is one such fact for every function that hands nothing over
(`Link.makes_wrapAll`, `Link.makes_shake`, `Link.makes_answerClose` and so on), so that whoever has to know
that a function makes no call of some kind need not go through its loop again.

What a journal is in the end can be read off the calls (`Call.received_onAll`, `Call.queued_onAll`).
-/

namespace SecureStream

/-- A list that is cut once into two parts, and once at one of its items. -/
theorem split_append {α : Type} {a b before after : List α} {x : α} (h : a ++ b = before ++ x :: after) :
    (∃ rest, a = before ++ x :: rest ∧ after = rest ++ b) ∨
      ∃ pre, before = a ++ pre ∧ b = pre ++ x :: after := by
  rcases List.append_eq_append_iff.1 h with ⟨pre, hbefore, hb⟩ | ⟨rest, ha, hafter⟩
  · exact .inr ⟨pre, hbefore, hb⟩
  · cases rest with
    | nil => exact .inr ⟨[], by simpa using ha.symm, hafter.symm⟩
    | cons y rest =>
      obtain ⟨rfl, hrest⟩ := List.cons.inj hafter
      exact .inl ⟨rest, ha, hrest⟩

/-- What a call is, without what it is given and what comes of it. -/
inductive CallKind where
  | create
  | setSide
  | setCertificatePolicy
  | startHandshake
  | wrap
  | unwrap
  | takeTask
  | runTask
  | moveTo (state : SessionState)
  | enqueue
  | deliver
  deriving DecidableEq

/-- The call is one of the session. -/
def CallKind.isOfSession : CallKind → Bool
  | moveTo _ | enqueue | deliver => true
  | _ => false

namespace Call

def kind : Call → CallKind
  | create _ => .create
  | setSide _ => .setSide
  | setCertificatePolicy _ => .setCertificatePolicy
  | startHandshake => .startHandshake
  | wrap .. => .wrap
  | unwrap .. => .unwrap
  | takeTask _ => .takeTask
  | runTask => .runTask
  | moveTo state => .moveTo state
  | enqueue _ => .enqueue
  | deliver _ => .deliver

/-- The piece that a call adds to the outgoing queue. -/
def enqueued? : Call → Option Bytes
  | enqueue piece => some piece
  | _ => none

/-- The message that a call hands over. -/
def delivered? : Call → Option Bytes
  | deliver message => some message
  | _ => none

theorem enqueued?_of_kind {call : Call} (h : call.kind ≠ .enqueue) : call.enqueued? = none := by
  cases call with
  | enqueue => exact absurd rfl h
  | _ => rfl

theorem delivered?_of_kind {call : Call} (h : call.kind ≠ .deliver) : call.delivered? = none := by
  cases call with
  | deliver => exact absurd rfl h
  | _ => rfl

/-- Calls of other kinds give nothing. -/
theorem filterMap_of_kinds {α : Type} {f : Call → Option α} {kind : CallKind}
    (hf : ∀ {call : Call}, call.kind ≠ kind → f call = none) {calls : List Call} {kinds : List CallKind}
    (h : ∀ call ∈ calls, call.kind ∈ kinds) (hkinds : kind ∉ kinds) : calls.filterMap f = [] := by
  rw [List.filterMap_eq_nil_iff]
  intro call hmem
  have hkind := h call hmem
  exact hf fun heq => hkinds (heq ▸ hkind)

/-- How many calls are of a kind. -/
def countOf (kind : CallKind) (calls : List Call) : Nat := calls.countP fun call => decide (call.kind = kind)

@[simp] theorem countOf_append (kind : CallKind) (a b : List Call) :
    countOf kind (a ++ b) = countOf kind a + countOf kind b := List.countP_append

@[simp] theorem countOf_cons (kind : CallKind) (call : Call) (calls : List Call) :
    countOf kind (call :: calls) = countOf kind calls + if call.kind = kind then 1 else 0 := by
  simp [countOf, List.countP_cons]

theorem countOf_of_kinds {kind : CallKind} {calls : List Call} {kinds : List CallKind}
    (h : ∀ call ∈ calls, call.kind ∈ kinds) (hkinds : kind ∉ kinds) : countOf kind calls = 0 := by
  rw [countOf, List.countP_eq_zero]
  intro call hmem hkind
  exact hkinds (of_decide_eq_true hkind ▸ h call hmem)

section Session

variable {S : Type} [Session S]

/-- What a call does to the session. -/
def on (s : S) : Call → S
  | moveTo state => Session.moveTo s state
  | enqueue piece => Session.enqueue s piece
  | deliver message => Session.deliver s message
  | _ => s

/-- What calls do to the session, one after the other. -/
def onAll (s : S) (calls : List Call) : S := calls.foldl on s

/-- Calls of the engine do nothing to the session. -/
theorem onAll_of_kinds (s : S) {calls : List Call} {kinds : List CallKind}
    (h : ∀ call ∈ calls, call.kind ∈ kinds) (hkinds : ∀ kind ∈ kinds, kind.isOfSession = false) :
    onAll s calls = s := by
  induction calls with
  | nil => rfl
  | cons call calls ih =>
    obtain ⟨hcall, hrest⟩ := List.forall_mem_cons.1 h
    have hkind := hkinds call.kind hcall
    have hsame : on s call = s := by
      cases call with
      | moveTo | enqueue | deliver => cases hkind
      | _ => rfl
    show onAll (on s call) calls = s
    rw [hsame]
    exact ih hrest

theorem onAll_append (s : S) (a b : List Call) : onAll s (a ++ b) = onAll (onAll s a) b := List.foldl_append

/-- The session of a scene that is replayed. -/
theorem session_replay {E : Type} [Engine E] (make : EngineMaker E) (runner : Runner) (x : Scene E S)
    (calls : List Call) : (x.replay make runner calls).session = onAll x.session calls := by
  induction calls generalizing x with
  | nil => rfl
  | cons call calls ih =>
    have hsession : (x.after make runner call).session = on x.session call := by cases call <;> rfl
    show ((x.after make runner call).replay make runner calls).session = onAll (on x.session call) calls
    rw [ih, hsession]

end Session

/-! ### What a journal remembers -/

variable (j : Journal) (calls : List Call)

theorem received_onAll :
    (onAll j calls).received.toList = j.received.toList ++ calls.filterMap delivered? := by
  induction calls generalizing j with
  | nil => exact (List.append_nil _).symm
  | cons call calls ih =>
    refine (ih (on j call)).trans ?_
    cases call with
    | deliver message =>
      have hpush : (j.deliver message).received.toList = j.received.toList ++ [message] := Array.toList_push
      show (j.deliver message).received.toList ++ _ = _
      rw [hpush, List.append_assoc]
      rfl
    | _ => rfl

theorem queued_onAll :
    (onAll j calls).queued.toList = j.queued.toList ++ calls.filterMap enqueued? := by
  induction calls generalizing j with
  | nil => exact (List.append_nil _).symm
  | cons call calls ih =>
    refine (ih (on j call)).trans ?_
    cases call with
    | enqueue piece =>
      have hpush : (j.enqueue piece).queued.toList = j.queued.toList ++ [piece] := Array.toList_push
      show (j.enqueue piece).queued.toList ++ _ = _
      rw [hpush, List.append_assoc]
      rfl
    | _ => rfl

/-- A journal is secured only if it was so or has been asked to. -/
theorem secured_of_onAll (h : (onAll j calls).state = .secured) :
    j.state = .secured ∨ .moveTo .secured ∈ calls := by
  induction calls generalizing j with
  | nil => exact .inl h
  | cons call calls ih =>
    rcases ih (on j call) h with hstate | hmem
    · cases call with
      | moveTo state =>
        obtain rfl : state = .secured := hstate
        exact .inr List.mem_cons_self
      | _ => exact .inl hstate
    · exact .inr (List.mem_cons_of_mem _ hmem)

end Call

namespace Link

variable {E S : Type} [Session S] {k k' k'' : Link E S}

/-! ### Calls behind a log -/

/-- The link has made these calls, and they are all that was done to its session. -/
structure Made (calls : List Call) (k k' : Link E S) : Prop where
  calls_eq : k'.calls.toList = k.calls.toList ++ calls
  session_eq : k'.session = Call.onAll k.session calls

theorem Made.refl (k : Link E S) : Made [] k k := ⟨(List.append_nil _).symm, rfl⟩

theorem Made.trans {a b : List Call} (h : Made a k k') (h' : Made b k' k'') : Made (a ++ b) k k'' := by
  refine ⟨?_, ?_⟩
  · rw [h'.calls_eq, h.calls_eq, List.append_assoc]
  · rw [h'.session_eq, h.session_eq, Call.onAll_append]

theorem made_of_push {call : Call} (hcalls : k'.calls = k.calls.push call)
    (hsession : k'.session = call.on k.session) : Made [call] k k' := by
  refine ⟨?_, hsession⟩
  rw [hcalls, Array.toList_push]

theorem made_note (k : Link E S) (notice : Notice) : Made [] k (k.note notice) := ⟨(List.append_nil _).symm, rfl⟩

theorem Made.of_note {calls : List Call} {notice : Notice} (h : Made calls (k.note notice) k') : Made calls k k' :=
  ⟨h.calls_eq, h.session_eq⟩

/-- The link has made calls of these kinds only. -/
def Makes (kinds : List CallKind) (k k' : Link E S) : Prop :=
  ∃ calls, Made calls k k' ∧ ∀ call ∈ calls, call.kind ∈ kinds

variable {kinds kinds' : List CallKind}

theorem Makes.of_eq (hcalls : k'.calls = k.calls) (hsession : k'.session = k.session) : Makes kinds k k' := by
  refine ⟨[], ⟨?_, hsession⟩, nofun⟩
  rw [hcalls, List.append_nil]

theorem Makes.refl (k : Link E S) : Makes kinds k k := .of_eq rfl rfl

theorem makes_note (k : Link E S) (notice : Notice) : Makes kinds k (k.note notice) := .of_eq rfl rfl

theorem Made.makes {calls : List Call} (h : Made calls k k') (hkinds : ∀ call ∈ calls, call.kind ∈ kinds) :
    Makes kinds k k' := ⟨calls, h, hkinds⟩

theorem Makes.of_push (call : Call) (hcalls : k'.calls = k.calls.push call)
    (hsession : k'.session = call.on k.session) (hkind : call.kind ∈ kinds) : Makes kinds k k' :=
  ⟨[call], made_of_push hcalls hsession, List.forall_mem_singleton.2 hkind⟩

theorem Makes.trans (h : Makes kinds k k') (h' : Makes kinds k' k'') : Makes kinds k k'' := by
  obtain ⟨a, hmade, ha⟩ := h
  obtain ⟨b, hmade', hb⟩ := h'
  exact ⟨a ++ b, hmade.trans hmade', List.forall_mem_append.2 ⟨ha, hb⟩⟩

theorem Makes.mono (h : Makes kinds k k') (hkinds : kinds ⊆ kinds') : Makes kinds' k k' := by
  obtain ⟨calls, hmade, hcalls⟩ := h
  exact ⟨calls, hmade, fun call hmem => hkinds (hcalls call hmem)⟩

/-- A call of the engine, which does nothing to the session. -/
theorem makes_log (k : Link E S) {call : Call} (hsession : call.on k.session = k.session)
    (hkind : call.kind ∈ kinds) : Makes kinds k (k.log call) := .of_push call rfl hsession.symm hkind

theorem makes_enqueue (k : Link E S) (piece : Bytes) : Makes [.enqueue] k (k.enqueue piece) :=
  .of_push (.enqueue piece) rfl rfl (by simp [Call.kind])

theorem makes_moveTo (k : Link E S) (state : SessionState) : Makes [.moveTo state] k (k.moveTo state) :=
  .of_push (.moveTo state) rfl rfl (by simp [Call.kind])

variable [Engine E] (pool : Pool) (runner : Runner)

theorem made_wrap {input : Bytes} {room : Nat} {answer : Except EngineError Reply}
    (h : k.wrap input room = (answer, k')) : Made [.wrap input room answer] k k' := by
  cases h
  exact made_of_push rfl rfl

theorem makes_wrap {input : Bytes} {room : Nat} {answer : Except EngineError Reply}
    (h : k.wrap input room = (answer, k')) : Makes [.wrap] k k' :=
  (made_wrap h).makes (by simp [Call.kind])

theorem made_unwrap {input : Bytes} {room : Nat} {answer : Except EngineError Reply}
    (h : k.unwrap input room = (answer, k')) : Made [.unwrap input room answer] k k' := by
  cases h
  exact made_of_push rfl rfl

theorem made_startHandshake {answer : Except EngineError Unit} (h : k.startHandshake = (answer, k')) :
    Made [.startHandshake] k k' := by
  cases h
  exact made_of_push rfl rfl

theorem makes_unwrap {input : Bytes} {room : Nat} {answer : Except EngineError Reply}
    (h : k.unwrap input room = (answer, k')) : Makes [.unwrap] k k' :=
  (made_unwrap h).makes (by simp [Call.kind])

/-! ### Output -/

variable (k)

theorem makes_wrapAll (purpose : Purpose) (input : Bytes) (b : Scratch) :
    Makes [.wrap] k (k.wrapAll purpose input b).2 := by
  fun_induction wrapAll purpose k input b with
  | case3 k input b r after hwrap filled hverdict grown hgrow ih =>
    exact (makes_wrap hwrap).trans ((makes_note ..).trans ih)
  | case6 k input b r after hwrap filled hverdict hrest hconsumed ih => exact (makes_wrap hwrap).trans ih
  | _ => exact makes_wrap ‹_›

theorem makes_wrapNew (purpose : Purpose) (capacity : Nat) (input : Bytes) :
    Makes [.wrap] k (k.wrapNew pool purpose capacity input).2 := by
  unfold wrapNew
  split
  · exact .refl k
  · next b _ =>
    have hall := k.makes_wrapAll purpose input b
    split <;> (next heq => rwa [heq] at hall)

theorem makes_fetchOutput : Makes [.wrap, .enqueue] k (k.fetchOutput pool).2 := by
  have hnew := k.makes_wrapNew pool .handshake (pool.cap (Engine.largestRecord k.engine)) []
  unfold fetchOutput
  split
  · next heq =>
    rw [heq] at hnew
    exact hnew.mono (by simp)
  · next output demand after heq =>
    rw [heq] at hnew
    have hwrapped : Makes [.wrap, .enqueue] k after := hnew.mono (by simp)
    dsimp only
    split
    · exact hwrapped
    · exact hwrapped.trans ((makes_enqueue after output).mono (by simp))

theorem makes_write (message : Bytes) : Makes [.wrap, .enqueue] k (k.write pool message).2 := by
  have hnew := k.makes_wrapNew pool .application (pool.ciphertextRoom message.length) message
  unfold write
  split
  · next heq =>
    rw [heq] at hnew
    exact hnew.mono (by simp)
  · next piece demand after heq =>
    rw [heq] at hnew
    have hwrapped : Makes [.wrap, .enqueue] k after := hnew.mono (by simp)
    exact (hwrapped.trans (makes_note ..)).trans ((makes_enqueue _ piece).mono (by simp))

theorem makes_sendClosing (count : Nat) : Makes [.wrap, .enqueue] k (k.sendClosing pool count).2 := by
  fun_induction sendClosing pool k count with
  | case1 k => exact .refl k
  | case2 k count hopen e after hwrap | case3 k count hopen output demand after hwrap
  | case4 k count hopen output demand after hwrap =>
    have hnew := k.makes_wrapNew pool .close (pool.cap (Engine.largestRecord k.engine)) []
    rw [hwrap] at hnew
    exact hnew.mono (by simp)
  | case5 k count hopen output demand after hwrap hempty ih =>
    have hnew := k.makes_wrapNew pool .close (pool.cap (Engine.largestRecord k.engine)) []
    rw [hwrap] at hnew
    have hwrapped : Makes [.wrap, .enqueue] k after := hnew.mono (by simp)
    exact (hwrapped.trans ((makes_enqueue after output).mono (by simp))).trans ih

theorem makes_answerClose (demand : Demand) :
    Makes [.moveTo .connected, .wrap, .enqueue] k (k.answerClose pool demand).2 := by
  unfold answerClose
  dsimp only
  split
  · have hmoved : Makes [.moveTo .connected, .wrap, .enqueue] k
        ((k.note (.closeReceived demand)).moveTo .connected) :=
      (makes_note ..).trans ((makes_moveTo _ .connected).mono (by simp))
    have hsent := ((k.note (.closeReceived demand)).moveTo .connected).makes_sendClosing pool 0
    split
    · next heq =>
      rw [heq] at hsent
      exact hmoved.trans (hsent.mono (by simp))
    · next heq =>
      rw [heq] at hsent
      exact hmoved.trans ((hsent.mono (by simp)).trans (makes_note ..))
  · exact makes_note ..

/-! ### Tasks and input -/

theorem makes_drainTasks (count : Nat) : Makes [.takeTask, .runTask] k (k.drainTasks runner count).2 := by
  fun_induction drainTasks runner k count with
  | case1 k count htask => exact .of_push (.takeTask false) rfl rfl (by simp [Call.kind])
  | case2 k count engine htask ih =>
    have htaken : Makes [.takeTask, .runTask] k
        ({ k with engine := runner.run engine }.log (.takeTask true)) :=
      .of_push (.takeTask true) rfl rfl (by simp [Call.kind])
    exact (htaken.trans (makes_log _ rfl (by simp [Call.kind]))).trans ih

theorem makes_runTasks : Makes [.takeTask, .runTask] k (k.runTasks runner).2 := by
  have hdrained := k.makes_drainTasks runner 0
  unfold runTasks
  dsimp only
  split
  · exact hdrained
  · exact hdrained.trans (makes_note ..)

theorem makes_unwrapStep (input : Bytes) (b : Scratch) : Makes [.unwrap] k (k.unwrapStep input b).2 := by
  fun_induction unwrapStep k input b with
  | case6 k input b r after hunwrap rest filled hverdict grown hgrow ih =>
    exact (makes_unwrap hunwrap).trans ih
  | _ => exact makes_unwrap ‹_›

omit k [Session S] [Engine E] in
/-- A message that is handed over unless it is empty. -/
theorem kind_of_handed {message : Bytes} :
    ∀ call ∈ if message = [] then [] else [Call.deliver message], call.kind ∈ [CallKind.deliver] := by
  split
  · nofun
  · exact List.forall_mem_singleton.2 (List.mem_singleton.2 rfl)

omit [Engine E] in
theorem made_handOver (consumed : Nat) (b : Scratch) :
    Made (if b.bytes = [] then [] else [.deliver b.bytes]) k (k.handOver consumed b) := by
  unfold handOver
  by_cases hempty : b.bytes = []
  · rw [if_pos (Scratch.isEmpty_iff.2 hempty), if_pos hempty]
    exact ⟨(List.append_nil _).symm, rfl⟩
  · rw [if_neg (mt Scratch.isEmpty_iff.1 hempty), if_neg hempty]
    exact made_of_push rfl rfl

theorem makes_bringInput (input : Bytes) : Makes [.unwrap] k (k.bringInput pool input).2 := by
  unfold bringInput
  split
  · exact .refl k
  · exact k.makes_unwrapStep input _

/-! ### The handshake -/

/-- The kinds of calls that a handshake makes until it is completed. -/
def roundKinds : List CallKind := [.wrap, .enqueue, .takeTask, .runTask, .unwrap]

/-- A handshake is completed by securing the session, and makes no other move. -/
theorem shake_cases (total : Nat) (demand : Demand) (input : Bytes) :
    (Makes roundKinds k (k.shake pool runner total demand input).2 ∧
        ∀ left, (k.shake pool runner total demand input).1 ≠ .ok (true, left)) ∨
      ∃ last, Makes roundKinds k last ∧ Made [.moveTo .secured] last (k.shake pool runner total demand input).2 ∧
        ∃ left, (k.shake pool runner total demand input).1 = .ok (true, left) := by
  fun_induction shake pool runner total k demand input with
  | case1 k input noted =>
    exact .inr ⟨noted, makes_note .., made_of_push rfl rfl, input, rfl⟩
  | case2 k input e after noted htasks =>
    have hran := noted.makes_runTasks runner
    rw [htasks] at hran
    exact .inl ⟨(makes_note ..).trans (hran.mono (by decide)), fun _ h => by cases h⟩
  | case3 k input next after noted htasks ih =>
    have hran := noted.makes_runTasks runner
    rw [htasks] at hran
    have hbefore : Makes roundKinds k after := (makes_note ..).trans (hran.mono (by decide))
    exact ih.imp (And.imp_left hbefore.trans) (Exists.imp fun _ => And.imp_left hbefore.trans)
  | case4 k input e after noted hfetch =>
    have hfetched := noted.makes_fetchOutput pool
    rw [hfetch] at hfetched
    exact .inl ⟨(makes_note ..).trans (hfetched.mono (by decide)), fun _ h => by cases h⟩
  | case5 k input next after noted hfetch ih =>
    have hfetched := noted.makes_fetchOutput pool
    rw [hfetch] at hfetched
    have hbefore : Makes roundKinds k after := (makes_note ..).trans (hfetched.mono (by decide))
    exact ih.imp (And.imp_left hbefore.trans) (Exists.imp fun _ => And.imp_left hbefore.trans)
  | case6 k input e after noted hbring | case7 k input rest after noted hbring
  | case9 k input e after noted hbring | case10 k input rest after noted hbring =>
    have hbrought := noted.makes_bringInput pool input
    rw [hbring] at hbrought
    exact .inl ⟨(makes_note ..).trans (hbrought.mono (by decide)), fun _ h => by cases h⟩
  | case8 k input next rest after noted hbring ih | case11 k input next rest after noted hbring ih =>
    have hbrought := noted.makes_bringInput pool input
    rw [hbring] at hbrought
    have hbefore : Makes roundKinds k after := (makes_note ..).trans (hbrought.mono (by decide))
    exact ih.imp (And.imp_left hbefore.trans) (Exists.imp fun _ => And.imp_left hbefore.trans)

/-- The kinds of calls that a handshake makes. -/
def shakeKinds : List CallKind := [.wrap, .enqueue, .takeTask, .runTask, .unwrap, .moveTo .secured]

theorem makes_shake (total : Nat) (demand : Demand) (input : Bytes) :
    Makes shakeKinds k (k.shake pool runner total demand input).2 := by
  rcases k.shake_cases pool runner total demand input with ⟨hmakes, -⟩ | ⟨last, hmakes, hmade, -⟩
  · exact hmakes.mono (by decide)
  · exact (hmakes.mono (by decide)).trans (hmade.makes (by simp [shakeKinds, Call.kind]))

omit [Engine E] in
theorem makes_enterHandshake : Makes [.moveTo .securing] k k.enterHandshake := by
  unfold enterHandshake
  split
  · exact .refl k
  · exact .of_push (.moveTo .securing) rfl rfl (by simp [Call.kind])

/-- The kinds of calls that a link makes to start a handshake. -/
def startKinds : List CallKind := .startHandshake :: .moveTo .securing :: shakeKinds

theorem makes_start : Makes startKinds k (k.start pool runner).2 := by
  unfold start
  split
  · exact .refl k
  · have hstarted : Makes startKinds k k.startHandshake.2 := .of_push .startHandshake rfl rfl (by decide)
    split
    · next heq =>
      rw [heq] at hstarted
      exact hstarted
    · next after heq =>
      rw [heq] at hstarted
      have hentered : Makes startKinds after after.enterHandshake :=
        after.makes_enterHandshake.mono (by decide)
      have hshook := after.enterHandshake.makes_shake pool runner 0 after.enterHandshake.demand []
      have hall : Makes startKinds k _ := hstarted.trans (hentered.trans (hshook.mono (by decide)))
      dsimp only
      split <;> (next heq' => rwa [heq'] at hall)

/-! ### Making the engine -/

theorem makes_configure : Makes [.setSide, .setCertificatePolicy] k k.configure := by
  have hsided : Makes [.setSide, .setCertificatePolicy] k
      ({ k with engine := Engine.setSide k.engine (Session.isClient k.session) }.log
        (.setSide (Session.isClient k.session))) := .of_push (.setSide _) rfl rfl (by simp [Call.kind])
  unfold configure
  dsimp only
  split
  · exact hsided.trans (makes_note ..)
  · refine hsided.trans (Makes.trans ?_ (makes_note ..))
    exact .of_push (.setCertificatePolicy _) rfl rfl (by simp [Call.kind])

end Link

theorem Turn.result_of_toOption {E S α : Type} {turn : Turn E S α} {a : α} (h : turn.result.toOption = some a) :
    turn.result = .ok a := by
  rcases hresult : turn.result with e | b
  · rw [hresult] at h
    cases h
  · rw [hresult] at h
    exact congrArg Except.ok (Option.some.inj h)

namespace Channel

variable {E S : Type} [Engine E] [Session S]

/-- The kinds of calls by which a request makes the engine. -/
def prepareKinds : List CallKind := [.create, .setSide, .setCertificatePolicy]

/-- Either no engine can be made, or a link serves every request that has only made the engine. -/
theorem serve_told (c : Channel E) (make : EngineMaker E) (s : S) :
    (∃ e, ∀ {α : Type} (request : Link E S → Turn E S α), c.serve make s request =
        ⟨.error (.creation e), c, s, #[.create (Session.attributes s).peer], #[]⟩) ∨
      ∃ k : Link E S, Link.Makes prepareKinds ⟨k.engine, s, c.handshaking, #[], #[]⟩ k ∧
        k.handshaking = c.handshaking ∧
        (∀ input, Moment.Told make c.runner (c.scene s) input ⟨k, k.demand, input⟩) ∧
        ∀ {α : Type} (request : Link E S → Turn E S α), c.serve make s request = request k := by
  rcases c.serve_cases make s with ⟨e, -, -, hfails⟩ |
    ⟨k, -, hhandshaking, ⟨engine, rfl | rfl⟩, htold, hserve⟩
  · exact .inl ⟨e, hfails⟩
  · exact .inr ⟨_, .of_eq rfl rfl, hhandshaking, htold, hserve⟩
  · let created : Link E S := ⟨engine, s, c.handshaking, #[.create (Session.attributes s).peer], #[]⟩
    have hcreated : Link.Makes prepareKinds ⟨created.configure.engine, s, c.handshaking, #[], #[]⟩ created :=
      .of_push (.create (Session.attributes s).peer) rfl rfl (by simp [prepareKinds, Call.kind])
    exact .inr ⟨_, hcreated.trans (created.makes_configure.mono (by decide)), hhandshaking, htold, hserve⟩

/-- The same without what its log tells. -/
theorem serve_makes (c : Channel E) (make : EngineMaker E) (s : S) :
    (∃ e, ∀ {α : Type} (request : Link E S → Turn E S α), c.serve make s request =
        ⟨.error (.creation e), c, s, #[.create (Session.attributes s).peer], #[]⟩) ∨
      ∃ k : Link E S, Link.Makes prepareKinds ⟨k.engine, s, c.handshaking, #[], #[]⟩ k ∧
        k.handshaking = c.handshaking ∧
        ∀ {α : Type} (request : Link E S → Turn E S α), c.serve make s request = request k := by
  rcases c.serve_told make s with hfails | ⟨k, hmakes, hhandshaking, -, hserve⟩
  · exact .inl hfails
  · exact .inr ⟨k, hmakes, hhandshaking, hserve⟩

/-- A link that is given input leaves things as they are, when the input cannot be put behind what waits, or
reads.  What follows a read is nothing to it. -/
theorem receive_reads (c : Channel E) (make : EngineMaker E) (s : S) (input : Bytes) :
    ∃ request : Link E S → Turn E S Outcome, c.receive make s input = c.serve make s request ∧ ∀ k,
      (∃ e, request k = c.turn none (.error e) k) ∨
        ∃ pending backlog result, request k = c.turn backlog result (k.read c.pool c.runner pending).2 ∧
          pending = c.pending ++ input ∧
          (∀ e, (k.read c.pool c.runner pending).1 = .error e → result = .error e) ∧
          (∀ left, (k.read c.pool c.runner pending).1 = .ok (.closed, left) → result = .ok .closed) ∧
          ∀ o, result = .ok o → ∃ left, (k.read c.pool c.runner pending).1 = .ok (o, left) := by
  refine ⟨_, rfl, fun k => ?_⟩
  rcases hgather : gather c.backlog input with e | ⟨backlog, pending⟩
  · exact .inl ⟨.buffer e, rfl⟩
  · refine .inr ⟨pending, ?_⟩
    have hpending : pending = c.pending ++ input := gather_ok hgather
    dsimp only
    rcases k.read c.pool c.runner pending with ⟨e | ⟨o, left⟩, after⟩
    · refine ⟨none, .error e, rfl, hpending, ?_, nofun, nofun⟩
      rintro _ ⟨⟩
      rfl
    · cases o with
      | closed =>
        refine ⟨none, .ok .closed, rfl, hpending, nofun, fun _ _ => rfl, ?_⟩
        rintro _ ⟨⟩
        exact ⟨left, rfl⟩
      | _ =>
        dsimp only
        split
        · exact ⟨none, _, rfl, hpending, nofun, nofun, nofun⟩
        · refine ⟨_, _, rfl, hpending, nofun, nofun, ?_⟩
          rintro _ ⟨⟩
          exact ⟨left, rfl⟩

/-- What a request does to the session, its calls have done. -/
theorem session_handle (c : Channel E) (make : EngineMaker E) (s : S) (request : Request) :
    (c.handle make s request).session = Call.onAll s (c.handle make s request).calls.toList := by
  obtain ⟨said, hreplay⟩ := c.replay_handle make s request
  have hsession := Call.session_replay make c.runner (c.scene s) (c.handle make s request).calls.toList
  rw [hreplay] at hsession
  exact hsession

end Channel

end SecureStream
