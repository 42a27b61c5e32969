import SecureStream.Engine.Playback
import SecureStream.Proofs.Channel.Calls

/-!
# One engine for a channel

A channel asks for an engine only while it has none, and tells it once what it is for: which side it is on and,
as a server, how to ask for a certificate (`Session.briefing`).  What this is for the wishes that a session has is
written out case by case in `Session.Briefs`.  After that no request asks for an engine or tells it anything of the
kind again, whatever comes of the request (`Channel.engine_made_once`).

* (a) A link that serves a request makes no such calls (`Link.makes_read`), and no request that is served fails
  with the error of an engine that could not be made (`Link.notCreation_read` and so on).
* (b) So the calls by which a request makes the engine stand at the front of its log, and `Channel.making` says
  which they are (`Channel.handle_making`).
* (c) Over a whole history they are some attempts that failed and one that succeeded
  (`Channel.making_handleAll`).
-/

namespace SecureStream

namespace Session

variable {S : Type} [Session S]

/-- What a new engine is told: its side, and as a server also how to ask for a certificate. -/
def briefing (s : S) : List Call :=
  .setSide (isClient s) ::
    if isClient s then [] else [.setCertificatePolicy (attributes s).certificatePolicy]

/-- What a new engine has to be told, with the two wishes for a certificate written out. -/
inductive Briefs (s : S) : List Call → Prop where
  /-- A client does not ask for a certificate, whatever its wishes are. -/
  | client (hside : isClient s = true) : Briefs s [.setSide true]
  /-- A server that wants a certificate accepts that there is none, also where it needs one. -/
  | want (hside : isClient s = false) (hwant : (attributes s).want = some true) :
      Briefs s [.setSide false, .setCertificatePolicy .want]
  /-- A server that needs a certificate, and does not want one besides, insists on it. -/
  | need (hside : isClient s = false) (hwant : (attributes s).want ≠ some true)
      (hneed : (attributes s).need = some true) : Briefs s [.setSide false, .setCertificatePolicy .need]
  /-- Without a wish a server does not ask for a certificate. -/
  | none (hside : isClient s = false) (hwant : (attributes s).want ≠ some true)
      (hneed : (attributes s).need ≠ some true) : Briefs s [.setSide false, .setCertificatePolicy .none]

theorem briefs_briefing (s : S) : Briefs s (briefing s) := by
  unfold briefing Attributes.certificatePolicy
  rcases hside : isClient s with _ | _
  · obtain ⟨hwant, hpolicy⟩ | ⟨hwant, hneed, hpolicy⟩ | ⟨hwant, hneed, hpolicy⟩ :=
      CertificatePolicy.resolve_cases (attributes s).want (attributes s).need
    · rw [hpolicy]
      exact .want hside hwant
    · rw [hpolicy]
      exact .need hside hwant hneed
    · rw [hpolicy]
      exact .none hside hwant hneed
  · exact .client hside

variable (S) in
/-- Whatever is done to a session, it stays on its side and what is known of it stays as it is. -/
def IsSteady : Prop :=
  ∀ (s : S) (call : Call), isClient (call.on s) = isClient s ∧ attributes (call.on s) = attributes s

theorem IsSteady.onAll (h : IsSteady S) (s : S) (calls : List Call) :
    isClient (Call.onAll s calls) = isClient s ∧ attributes (Call.onAll s calls) = attributes s := by
  induction calls generalizing s with
  | nil => exact ⟨rfl, rfl⟩
  | cons call calls ih =>
    obtain ⟨hside, hattributes⟩ := ih (call.on s)
    exact ⟨hside.trans (h s call).1, hattributes.trans (h s call).2⟩

end Session

/-- A session that is steady tells its engine always the same. -/
theorem Session.IsSteady.briefing_onAll {S : Type} [Session S] (h : IsSteady S) (s : S) (calls : List Call) :
    briefing (Call.onAll s calls) = briefing s := by
  obtain ⟨hside, hattributes⟩ := h.onAll s calls
  rw [briefing, hside, hattributes]
  rfl

theorem Journal.isSteady : Session.IsSteady Journal := by
  intro j call
  cases call with
  | _ => exact ⟨rfl, rfl⟩

/-- The calls by which an engine is asked for and told what it is for. -/
def Call.making (calls : List Call) : List Call :=
  calls.filter fun call => decide (call.kind ∈ Channel.prepareKinds)

namespace Call

theorem making_append (a b : List Call) : making (a ++ b) = making a ++ making b := List.filter_append ..

theorem making_of_kinds {calls : List Call} (h : ∀ call ∈ calls, call.kind ∉ Channel.prepareKinds) :
    making calls = [] := by
  rw [making, List.filter_eq_nil_iff]
  intro call hmem
  simpa using h call hmem

theorem making_briefing {S : Type} [Session S] (s : S) : making (Session.briefing s) = Session.briefing s := by
  unfold Session.briefing
  split <;> rfl

end Call

namespace Link

variable {E S : Type} [Engine E] [Session S] (k : Link E S) (pool : Pool) (runner : Runner)

theorem calls_configure : k.configure.calls.toList = k.calls.toList ++ Session.briefing k.session := by
  unfold configure Session.briefing
  dsimp only
  split <;> simp [log, note]

/-! ### The calls of a read -/

/-- The kinds of calls that a link makes when it reads. -/
def readKinds : List CallKind := [.moveTo .securing, .moveTo .connected, .deliver] ++ shakeKinds

omit [Engine E] in
theorem makes_handOver (consumed : Nat) (b : Scratch) : Makes [.deliver] k (k.handOver consumed b) :=
  (k.made_handOver consumed b).makes kind_of_handed

theorem makes_unwrapAll (input : Bytes) (b : Scratch) (n : Nat) :
    Makes readKinds k (k.unwrapAll pool input b n).2 := by
  have hunwraps : ∀ {k after : Link E S} {input : Bytes} {room : Nat} {answer : Except EngineError Reply},
      k.unwrap input room = (answer, after) → Makes readKinds k after :=
    fun h => (makes_unwrap h).mono (by decide)
  fun_induction unwrapAll pool k input b n with
  | case3 k input b n r after hunwrap rest filled =>
    have hserved : Makes readKinds after _ := (after.makes_handOver r.consumed filled).mono (by decide)
    exact (hunwraps hunwrap).trans hserved
  | case4 k input b n r after hunwrap rest filled hverdict hprogress served hrest ih =>
    have hserved : Makes readKinds after served := (after.makes_handOver r.consumed filled).mono (by decide)
    exact ((hunwraps hunwrap).trans hserved).trans ih
  | case5 k input b n r after hunwrap rest hverdict => exact (hunwraps hunwrap).trans (makes_note ..)
  | case7 k input b n r after hunwrap rest filled hverdict grown hgrow ih => exact (hunwraps hunwrap).trans ih
  | case8 k input b n r after hunwrap hverdict hopen e last hanswer
  | case9 k input b n r after hunwrap rest hverdict hopen last hanswer =>
    have hanswered := after.makes_answerClose pool r.demand
    rw [hanswer] at hanswered
    exact (hunwraps hunwrap).trans (hanswered.mono (by decide))
  | _ => exact hunwraps ‹_›

theorem makes_unwrapRecords (input : Bytes) : Makes readKinds k (k.unwrapRecords pool input).2 := by
  unfold unwrapRecords
  split
  · exact .refl k
  · split
    · exact .refl k
    · exact k.makes_unwrapAll pool input _ 0

theorem makes_read (input : Bytes) : Makes readKinds k (k.read pool runner input).2 := by
  unfold read
  split
  · exact k.makes_unwrapRecords pool input
  · have hentered : Makes readKinds k k.enterHandshake := k.makes_enterHandshake.mono (by decide)
    have hshook := k.enterHandshake.makes_shake pool runner input.length k.enterHandshake.demand input
    have hbefore : Makes readKinds k _ := hentered.trans (hshook.mono (by decide))
    unfold readSecuring
    dsimp only
    rcases hshake : k.enterHandshake.shake pool runner input.length k.enterHandshake.demand input with
      ⟨e | ⟨_ | _, left⟩, after⟩
    · rwa [hshake] at hbefore
    · rwa [hshake] at hbefore
    · rw [hshake] at hbefore
      have hall := hbefore.trans (after.makes_unwrapRecords pool left)
      dsimp only
      split <;> (next heq => rwa [heq] at hall)

/-! ### Failures -/

/-- The result is not that there is no engine to be had. -/
def NotCreation {α : Type} (result : Except ChannelError α) : Prop := ∀ e, result ≠ .error (.creation e)

section Results

variable {α β : Type}

omit k [Engine E] [Session S]

theorem notCreation_ok (a : α) : NotCreation (.ok a) := fun e h => by cases h

/-- An error that is passed on. -/
theorem NotCreation.pass {e : ChannelError} (h : NotCreation (.error e : Except ChannelError α)) :
    NotCreation (.error e : Except ChannelError β) := by
  intro creation heq
  cases heq
  exact h creation rfl

theorem NotCreation.map {result : Except ChannelError α} (h : NotCreation result) (f : α → β) :
    NotCreation (result.map f) := by
  cases result with
  | ok a => exact notCreation_ok (f a)
  | error e => exact h.pass

end Results

omit [Session S] in
theorem notCreation_wrapAll (purpose : Purpose) (input : Bytes) (b : Scratch) :
    NotCreation (k.wrapAll purpose input b).1 := by
  fun_induction wrapAll purpose k input b with
  | case3 k input b r after hwrap filled hverdict grown hgrow ih => exact ih
  | case6 k input b r after hwrap filled hverdict hrest hconsumed ih => exact ih
  | case9 k input b r after hwrap =>
    intro e h
    split at h <;> cases h
  | _ => exact fun e h => by cases h

omit [Session S] in
theorem notCreation_wrapNew (purpose : Purpose) (capacity : Nat) (input : Bytes) :
    NotCreation (k.wrapNew pool purpose capacity input).1 := by
  unfold wrapNew
  split
  · exact fun e h => by cases h
  · next b _ =>
    have hall := k.notCreation_wrapAll purpose input b
    split
    · next heq =>
      rw [heq] at hall
      exact hall.pass
    · exact notCreation_ok _

theorem notCreation_fetchOutput : NotCreation (k.fetchOutput pool).1 := by
  have hnew := k.notCreation_wrapNew pool .handshake (pool.cap (Engine.largestRecord k.engine)) []
  unfold fetchOutput
  split
  · next heq =>
    rw [heq] at hnew
    exact hnew.pass
  · exact notCreation_ok _

theorem notCreation_write (message : Bytes) : NotCreation (k.write pool message).1 := by
  have hnew := k.notCreation_wrapNew pool .application (pool.ciphertextRoom message.length) message
  unfold write
  split
  · next heq =>
    rw [heq] at hnew
    exact hnew.pass
  · exact notCreation_ok _

theorem notCreation_sendClosing (count : Nat) : NotCreation (k.sendClosing pool count).1 := by
  fun_induction sendClosing pool k count with
  | case2 k count hopen e after hwrap =>
    have hnew := k.notCreation_wrapNew pool .close (pool.cap (Engine.largestRecord k.engine)) []
    rw [hwrap] at hnew
    exact hnew.pass
  | case5 k count hopen output demand after hwrap hempty ih => exact ih
  | _ => exact fun e h => by cases h

theorem notCreation_answerClose (demand : Demand) : NotCreation (k.answerClose pool demand).1 := by
  unfold answerClose
  dsimp only
  split
  · have hsent := ((k.note (.closeReceived demand)).moveTo .connected).notCreation_sendClosing pool 0
    split
    · next heq =>
      rw [heq] at hsent
      exact hsent.pass
    · exact notCreation_ok _
  · exact notCreation_ok _

omit [Session S] in
theorem notCreation_runTasks : NotCreation (k.runTasks runner).1 := by
  unfold runTasks
  dsimp only
  split
  · exact fun e h => by cases h
  · exact notCreation_ok _

omit [Session S] in
theorem notCreation_unwrapStep (input : Bytes) (b : Scratch) : NotCreation (k.unwrapStep input b).1 := by
  fun_induction unwrapStep k input b with
  | case6 k input b r after hunwrap rest filled hverdict grown hgrow ih => exact ih
  | _ => exact fun e h => by cases h

omit [Session S] in
theorem notCreation_bringInput (input : Bytes) : NotCreation (k.bringInput pool input).1 := by
  unfold bringInput
  split
  · exact fun e h => by cases h
  · exact k.notCreation_unwrapStep input _

theorem notCreation_shake (total : Nat) (demand : Demand) (input : Bytes) :
    NotCreation (k.shake pool runner total demand input).1 := by
  fun_induction shake pool runner total k demand input with
  | case2 k input e after noted htasks =>
    have hran := noted.notCreation_runTasks runner
    rw [htasks] at hran
    exact hran.pass
  | case4 k input e after noted hfetch =>
    have hfetched := noted.notCreation_fetchOutput pool
    rw [hfetch] at hfetched
    exact hfetched.pass
  | case6 k input e after noted hbring | case9 k input e after noted hbring =>
    have hbrought := noted.notCreation_bringInput pool input
    rw [hbring] at hbrought
    exact hbrought.pass
  | case3 k input next after noted htasks ih => exact ih
  | case5 k input next after noted hfetch ih => exact ih
  | case8 k input next rest after noted hbring ih => exact ih
  | case11 k input next rest after noted hbring ih => exact ih
  | _ => exact notCreation_ok _

theorem notCreation_start : NotCreation (k.start pool runner).1 := by
  unfold start
  split
  · exact notCreation_ok _
  · split
    · exact fun e h => by cases h
    · next after heq =>
      have hshook := after.enterHandshake.notCreation_shake pool runner 0 after.enterHandshake.demand []
      dsimp only
      split
      · next hshake =>
        rw [hshake] at hshook
        exact hshook.pass
      · exact notCreation_ok _
      · exact notCreation_ok _

theorem notCreation_unwrapAll (input : Bytes) (b : Scratch) (n : Nat) :
    NotCreation (k.unwrapAll pool input b n).1 := by
  fun_induction unwrapAll pool k input b n with
  | case4 k input b n r after hunwrap rest filled hverdict hprogress served hrest ih => exact ih
  | case7 k input b n r after hunwrap rest filled hverdict grown hgrow ih => exact ih
  | case8 k input b n r after hunwrap hverdict hopen e last hanswer =>
    have hanswered := after.notCreation_answerClose pool r.demand
    rw [hanswer] at hanswered
    exact hanswered.pass
  | _ => exact fun e h => by cases h

theorem notCreation_unwrapRecords (input : Bytes) : NotCreation (k.unwrapRecords pool input).1 := by
  unfold unwrapRecords
  split
  · exact notCreation_ok _
  · split
    · exact fun e h => by cases h
    · exact k.notCreation_unwrapAll pool input _ 0

theorem notCreation_read (input : Bytes) : NotCreation (k.read pool runner input).1 := by
  unfold read
  split
  · exact k.notCreation_unwrapRecords pool input
  · have hshook := k.enterHandshake.notCreation_shake pool runner input.length k.enterHandshake.demand input
    unfold readSecuring
    dsimp only
    rcases hshake : k.enterHandshake.shake pool runner input.length k.enterHandshake.demand input with
      ⟨e | ⟨_ | _, left⟩, after⟩
    · rw [hshake] at hshook
      exact hshook.pass
    · exact notCreation_ok _
    · have hrecords := after.notCreation_unwrapRecords pool left
      dsimp only
      split
      · next heq =>
        rw [heq] at hrecords
        exact hrecords.pass
      all_goals exact notCreation_ok _

end Link

/-- The request has failed because there is no engine to be had. -/
def Turn.lacksEngine {E S α : Type} (turn : Turn E S α) : Bool :=
  match turn.result with
  | .error (.creation _) => true
  | _ => false

theorem Turn.lacksEngine_iff {E S α : Type} {turn : Turn E S α} :
    turn.lacksEngine = true ↔ ∃ e, turn.result = .error (.creation e) := by
  unfold lacksEngine
  constructor
  · intro h
    split at h
    · next e heq => exact ⟨e, heq⟩
    · cases h
  · rintro ⟨e, heq⟩
    rw [heq]

namespace Channel

variable {E S : Type} [Engine E] [Session S]

/-- A request asks for an engine when there is none.  To send something needs an open channel first. -/
def asks (c : Channel E) (s : S) : Request → Bool
  | .send _ => !c.isPrepared && decide (Session.state s = .secured)
  | _ => !c.isPrepared

/-- The calls by which a request makes the engine. -/
def making (c : Channel E) (make : EngineMaker E) (s : S) (request : Request) : List Call :=
  if c.asks s request then
    .create (Session.attributes s).peer ::
      if (make (Session.attributes s).peer).isOk then Session.briefing s else []
  else []

/-- The kinds of calls that a request makes when there is an engine. -/
def servingKinds : List CallKind := .startHandshake :: Link.readKinds

/-- A request is served, and its log begins with the calls by which the engine is made. -/
structure Equips (c : Channel E) (make : EngineMaker E) (s : S) (request : Request) (turn : Turn E S Response) :
    Prop where
  ready : c.isPrepared = true ∨
    c.asks s request = true ∧ ∃ engine, make (Session.attributes s).peer = .ok engine
  calls_eq : ∃ others, turn.calls.toList = c.making make s request ++ others ∧
    ∀ call ∈ others, call.kind ∈ servingKinds
  isPrepared : turn.channel.isPrepared = true
  notCreation : Link.NotCreation turn.result

variable (c : Channel E) (make : EngineMaker E) (s : S)

/-- What a link that has made the engine serves with calls of other kinds. -/
private theorem serve_equips {α : Type} (request : Request) (f : α → Response)
    (hasks : c.asks s request = !c.isPrepared) (serving : Link E S → Turn E S α)
    (hserving : ∀ k, ∃ k', Link.Makes servingKinds k k' ∧ (serving k).calls = k'.calls ∧
      (serving k).channel.isPrepared = true ∧ Link.NotCreation (serving k).result) :
    (∃ e, c.asks s request = true ∧ make (Session.attributes s).peer = .error e ∧
        c.serve make s serving = ⟨.error (.creation e), c, s, #[.create (Session.attributes s).peer], #[]⟩) ∨
      c.Equips make s request ((c.serve make s serving).map f) := by
  unfold serve
  rcases hengine : c.engine with _ | engine
  · have hnew : c.asks s request = true := by simp [hasks, isPrepared, hengine]
    dsimp only
    rcases hmade : make (Session.attributes s).peer with e | engine
    · exact .inl ⟨e, hnew, rfl, rfl⟩
    · let created : Link E S := ⟨engine, s, c.handshaking, #[.create (Session.attributes s).peer], #[]⟩
      obtain ⟨k', ⟨others, hcalls, hkinds⟩, hlog, hprepared, hresult⟩ := hserving created.configure
      refine .inr ⟨.inr ⟨hnew, engine, hmade⟩, ⟨others, ?_, hkinds⟩, hprepared, hresult.map f⟩
      show (serving created.configure).calls.toList = _
      rw [hlog, hcalls.calls_eq, Link.calls_configure, making, if_pos hnew, hmade]
      rfl
  · have hold : c.asks s request = false := by simp [hasks, isPrepared, hengine]
    obtain ⟨k', ⟨others, hcalls, hkinds⟩, hlog, hprepared, hresult⟩ :=
      hserving ⟨engine, s, c.handshaking, #[], #[]⟩
    have hready : c.isPrepared = true := by simp [isPrepared, hengine]
    refine .inr ⟨.inl hready, ⟨others, ?_, hkinds⟩, hprepared, hresult.map f⟩
    show (serving ⟨engine, s, c.handshaking, #[], #[]⟩).calls.toList = _
    rw [hlog, hcalls.calls_eq, making, if_neg (by simp [hold])]

/-- A request is turned down because the channel is not open, or because there is no engine to be had, or it is
served. -/
theorem handle_making (request : Request) :
    (∃ message, request = .send message ∧ Session.state s ≠ .secured ∧
        c.handle make s request = ⟨.error .notSecured, c, s, #[], #[]⟩) ∨
      (∃ e, c.asks s request = true ∧ make (Session.attributes s).peer = .error e ∧
        c.handle make s request =
          ⟨.error (.creation e), c, s, #[.create (Session.attributes s).peer], #[]⟩) ∨
      c.Equips make s request (c.handle make s request) := by
  have hfails : ∀ {α : Type} {turn : Turn E S α} {f : α → Response} {e : EngineError},
      turn = ⟨.error (.creation e), c, s, #[.create (Session.attributes s).peer], #[]⟩ →
        turn.map f = ⟨.error (.creation e), c, s, #[.create (Session.attributes s).peer], #[]⟩ := by
    rintro α _ f e rfl
    rfl
  cases request with
  | prepare =>
    refine .inr ((c.serve_equips make s .prepare (fun _ => .ready) rfl _ fun k => ?_).imp_left ?_)
    · exact ⟨k, .refl k, rfl, rfl, Link.notCreation_ok ()⟩
    · exact fun ⟨e, hnew, hmade, hturn⟩ => ⟨e, hnew, hmade, hfails hturn⟩
  | start =>
    refine .inr ((c.serve_equips make s .start .outcome rfl _ fun k => ?_).imp_left ?_)
    · exact ⟨_, (k.makes_start c.pool c.runner).mono (by decide), rfl, rfl, k.notCreation_start c.pool c.runner⟩
    · exact fun ⟨e, hnew, hmade, hturn⟩ => ⟨e, hnew, hmade, hfails hturn⟩
  | receive input =>
    refine .inr ((c.serve_equips make s (.receive input) .outcome rfl _ fun k => ?_).imp_left ?_)
    · rcases hgather : gather c.backlog input with e | ⟨backlog, pending⟩
      · exact ⟨k, .refl k, rfl, rfl, fun e h => by cases h⟩
      · refine ⟨_, (k.makes_read c.pool c.runner pending).mono (by decide), ?_⟩
        have hresult := k.notCreation_read c.pool c.runner pending
        dsimp only
        rcases hread : k.read c.pool c.runner pending with ⟨e | ⟨o, left⟩, after⟩
        · rw [hread] at hresult
          exact ⟨rfl, rfl, hresult.pass⟩
        · cases o with
          | closed => exact ⟨rfl, rfl, Link.notCreation_ok _⟩
          | _ =>
            dsimp only
            split
            · exact ⟨rfl, rfl, fun e h => by cases h⟩
            · exact ⟨rfl, rfl, Link.notCreation_ok _⟩
    · exact fun ⟨e, hnew, hmade, hturn⟩ => ⟨e, hnew, hmade, hfails hturn⟩
  | send message =>
    by_cases hopen : Session.state s = .secured
    · have hsend : c.handle make s (.send message) =
          (c.serve make s fun k => c.turn c.backlog (k.write c.pool message).1 (k.write c.pool message).2).map
            Response.sent := congrArg (Turn.map Response.sent) (if_pos hopen)
      have hasks : c.asks s (.send message) = !c.isPrepared := by simp [asks, hopen]
      rw [hsend]
      refine .inr ((c.serve_equips make s (.send message) .sent hasks _ fun k => ?_).imp_left ?_)
      · exact ⟨_, (k.makes_write c.pool message).mono (by decide), rfl, rfl, k.notCreation_write c.pool message⟩
      · exact fun ⟨e, hnew, hmade, hturn⟩ => ⟨e, hnew, hmade, hfails hturn⟩
    · have hsend : c.handle make s (.send message) =
          (⟨.error .notSecured, c, s, #[], #[]⟩ : Turn E S Bytes).map Response.sent :=
        congrArg (Turn.map Response.sent) (if_neg hopen)
      exact .inl ⟨message, rfl, hopen, hsend⟩

theorem servingKinds_not_mem {call : Call} (h : call.kind ∈ servingKinds) : call.kind ∉ prepareKinds := by
  have hall : ∀ kind ∈ servingKinds, kind ∉ prepareKinds := by decide
  exact hall call.kind h

/-- The calls by which an engine is made stand at the front of a log. -/
theorem calls_handle (request : Request) :
    ∃ others, (c.handle make s request).calls.toList = c.making make s request ++ others ∧
      ∀ call ∈ others, call.kind ∉ prepareKinds := by
  rcases c.handle_making make s request with ⟨message, rfl, hclosed, hturn⟩ | ⟨e, hnew, hmade, hturn⟩ | hequips
  · refine ⟨[], ?_, nofun⟩
    have hasks : c.asks s (.send message) = false := by simp [asks, hclosed]
    rw [hturn, making, if_neg (by simp [hasks])]
    rfl
  · refine ⟨[], ?_, nofun⟩
    rw [hturn, making, if_pos hnew, hmade]
    rfl
  · obtain ⟨others, hcalls, hkinds⟩ := hequips.calls_eq
    exact ⟨others, hcalls, fun call hmem => servingKinds_not_mem (hkinds call hmem)⟩

omit [Engine E] in
theorem making_making (request : Request) : Call.making (c.making make s request) = c.making make s request := by
  unfold making
  split
  · have hcreate (calls : List Call) : Call.making (.create (Session.attributes s).peer :: calls) =
        .create (Session.attributes s).peer :: Call.making calls := rfl
    rw [hcreate]
    split
    · rw [Call.making_briefing]
    · rfl
  · rfl

theorem making_handle (request : Request) :
    Call.making (c.handle make s request).calls.toList = c.making make s request := by
  obtain ⟨others, hcalls, hkinds⟩ := c.calls_handle make s request
  rw [hcalls, Call.making_append, making_making, Call.making_of_kinds hkinds, List.append_nil]

omit [Engine E] in
theorem not_isPrepared_of_asks {request : Request} (h : c.asks s request = true) : c.isPrepared = false := by
  cases request with
  | send message => simp_all [asks]
  | _ => simpa [asks] using h

/-- There is an engine after a request if there was one before, or if it has been asked for and could be had. -/
theorem isPrepared_handle_iff (request : Request) :
    (c.handle make s request).channel.isPrepared = true ↔
      c.isPrepared = true ∨
        c.asks s request = true ∧ ∃ engine, make (Session.attributes s).peer = .ok engine := by
  rcases c.handle_making make s request with ⟨message, rfl, hclosed, hturn⟩ | ⟨e, hnew, hmade, hturn⟩ | hequips
  · have hasks : c.asks s (.send message) = false := by simp [asks, hclosed]
    simp [hturn, hasks]
  · simp [hturn, hmade]
  · exact ⟨fun _ => hequips.ready, fun _ => hequips.isPrepared⟩

/-- A request fails for want of an engine exactly when it asks for one that cannot be made. -/
theorem result_eq_creation_iff (request : Request) (e : EngineError) :
    (c.handle make s request).result = .error (.creation e) ↔
      c.asks s request = true ∧ make (Session.attributes s).peer = .error e := by
  rcases c.handle_making make s request with ⟨message, rfl, hclosed, hturn⟩ | ⟨e', hnew, hmade, hturn⟩ | hequips
  · have hasks : c.asks s (.send message) = false := by simp [asks, hclosed]
    simp [hturn, hasks]
  · simp [hturn, hnew, hmade]
  · refine iff_of_false (hequips.notCreation e) ?_
    rintro ⟨hnew, hfails⟩
    rcases hequips.ready with hready | ⟨-, engine, hmade⟩
    · rw [c.not_isPrepared_of_asks s hnew] at hready
      cases hready
    · rw [hmade] at hfails
      cases hfails

theorem lacksEngine_handle_iff (request : Request) :
    (c.handle make s request).lacksEngine = true ↔
      c.asks s request = true ∧ ∃ e, make (Session.attributes s).peer = .error e := by
  rw [Turn.lacksEngine_iff, ← exists_and_left]
  exact exists_congr fun e => c.result_eq_creation_iff make s request e

theorem eq_of_creation {request : Request} {e : EngineError}
    (h : (c.handle make s request).result = .error (.creation e)) :
    c.handle make s request = ⟨.error (.creation e), c, s, #[.create (Session.attributes s).peer], #[]⟩ := by
  rcases c.handle_making make s request with ⟨message, rfl, hclosed, hturn⟩ | ⟨e', hnew, hmade, hturn⟩ | hequips
  · rw [hturn] at h
    cases h
  · rw [hturn] at h ⊢
    cases h
    rfl
  · exact absurd h (hequips.notCreation e)

/-! ### Histories -/

/-- All calls of a history, oldest first. -/
def logOf {E S : Type} (turns : List (Turn E S Response)) : List Call := turns.flatMap (·.calls.toList)

/-- Once there is an engine, none is asked for again. -/
theorem making_handleAll_of_isPrepared (h : c.isPrepared = true) (history : List (EngineMaker E × Request)) :
    Call.making (logOf (c.handleAll s history).1) = [] ∧
      (c.handleAll s history).1.countP Turn.lacksEngine = 0 ∧
      (c.handleAll s history).2.1.isPrepared = true := by
  induction history generalizing c s with
  | nil => exact ⟨rfl, rfl, h⟩
  | cons entry history ih =>
    obtain ⟨make, request⟩ := entry
    let turn := c.handle make s request
    have hafter := (c.isPrepared_handle_iff make s request).2 (.inl h)
    obtain ⟨hmaking, hcount, hprepared⟩ := ih turn.channel turn.session hafter
    have hasks : ¬ c.asks s request = true := fun hnew => by
      rw [c.not_isPrepared_of_asks s hnew] at h
      cases h
    have hlacks : ¬ turn.lacksEngine = true := fun hlacks =>
      hasks ((c.lacksEngine_handle_iff make s request).1 hlacks).1
    refine ⟨?_, ?_, hprepared⟩
    · show Call.making (turn.calls.toList ++ logOf (turn.channel.handleAll turn.session history).1) = []
      rw [Call.making_append, making_handle, making, if_neg hasks, hmaking]
      rfl
    · show (turn :: (turn.channel.handleAll turn.session history).1).countP Turn.lacksEngine = 0
      rw [List.countP_cons_of_neg hlacks, hcount]

/-- As long as there is no engine, the attempts to make one have failed.  The first that succeeds is the last. -/
theorem making_handleAll (hsteady : Session.IsSteady S) (h : c.isPrepared = false)
    (history : List (EngineMaker E × Request)) :
    Call.making (logOf (c.handleAll s history).1) =
      List.replicate ((c.handleAll s history).1.countP Turn.lacksEngine) (.create (Session.attributes s).peer) ++
        if (c.handleAll s history).2.1.isPrepared then
          .create (Session.attributes s).peer :: Session.briefing s
        else [] := by
  induction history generalizing c s with
  | nil => simp [handleAll, h, logOf, Call.making]
  | cons entry history ih =>
    obtain ⟨make, request⟩ := entry
    let turn := c.handle make s request
    let rest := turn.channel.handleAll turn.session history
    have hmaking : Call.making (logOf (c.handleAll s ((make, request) :: history)).1) =
        c.making make s request ++ Call.making (logOf rest.1) := by
      rw [← c.making_handle make s request, ← Call.making_append]
      rfl
    have hsession : turn.session = Call.onAll s turn.calls.toList := c.session_handle make s request
    have hattributes : Session.attributes turn.session = Session.attributes s := by
      rw [hsession, (hsteady.onAll s turn.calls.toList).2]
    have hbriefing : Session.briefing turn.session = Session.briefing s := by
      rw [hsession, hsteady.briefing_onAll]
    show Call.making (logOf (c.handleAll s ((make, request) :: history)).1) =
      List.replicate ((turn :: rest.1).countP Turn.lacksEngine) _ ++ if rest.2.1.isPrepared then _ else _
    by_cases hafter : turn.channel.isPrepared = true
    · -- the engine has just been made
      obtain ⟨hrest, hcount, hprepared⟩ := turn.channel.making_handleAll_of_isPrepared turn.session hafter history
      have hready := (c.isPrepared_handle_iff make s request).1 hafter
      rw [h] at hready
      obtain ⟨⟨⟩⟩ | ⟨hasks, engine, hmade⟩ := hready
      have hlacks : ¬ turn.lacksEngine = true := fun hlacks => by
        obtain ⟨-, e, hfails⟩ := (c.lacksEngine_handle_iff make s request).1 hlacks
        rw [hmade] at hfails
        cases hfails
      rw [hmaking, hrest, making, if_pos hasks, hmade, if_pos hprepared, List.countP_cons_of_neg hlacks, hcount,
        List.append_nil]
      rfl
    · have hfailed := ih turn.channel turn.session (Bool.not_eq_true _ ▸ hafter)
      rw [hattributes, hbriefing] at hfailed
      rw [hmaking, hfailed]
      by_cases hasks : c.asks s request = true
      · -- one more attempt has failed
        rcases hmade : make (Session.attributes s).peer with e | engine
        · have hlacks : turn.lacksEngine = true :=
            (c.lacksEngine_handle_iff make s request).2 ⟨hasks, e, hmade⟩
          rw [making, if_pos hasks, hmade, List.countP_cons_of_pos hlacks, List.replicate_succ]
          rfl
        · exact absurd ((c.isPrepared_handle_iff make s request).2 (.inr ⟨hasks, engine, hmade⟩)) hafter
      · have hlacks : ¬ turn.lacksEngine = true := fun hlacks =>
          hasks ((c.lacksEngine_handle_iff make s request).1 hlacks).1
        rw [making, if_neg hasks, List.countP_cons_of_neg hlacks, List.nil_append]

/-- After any requests, whatever has come of them: the next request asks for an engine only if there is none, with
the peer of its session, and then an engine that can be made is told what it is for before anything else is done
with it: its side, and on a server how to ask for a certificate, as the two wishes of the session have it
(`Session.Briefs`).  All this stands at the front of the log, which tells all that is done to the engine, and behind
it nothing of the kind is called.  A request that fails for want of an engine leaves channel and session as they
were, and reports nothing.  If the session is steady, then all calls of this kind in the whole history are the
attempts that have failed, and behind them the one that has not, if there is an engine by now. -/
theorem engine_made_once (pool : Pool) (runner : Runner) (s₀ : S) (history : List (EngineMaker E × Request)) :
    let turns := ((closed pool runner).handleAll s₀ history).1
    let c := ((closed pool runner).handleAll s₀ history).2.1
    let s := ((closed pool runner).handleAll s₀ history).2.2
    (∀ (make : EngineMaker E) (request : Request),
        let peer := (Session.attributes s).peer
        let turn := c.handle make s request
        (c.asks s request = true → c.isPrepared = false) ∧
          (∃ told others, Session.Briefs s told ∧
            turn.calls.toList =
              (if c.asks s request then .create peer :: if (make peer).isOk then told else [] else []) ++ others ∧
            ∀ call ∈ others, call.kind ∉ prepareKinds) ∧
          ((c.scene s).replay make c.runner turn.calls.toList).engine = turn.channel.engine ∧
          (turn.channel.isPrepared = true ↔
            c.isPrepared = true ∨ c.asks s request = true ∧ ∃ engine, make peer = .ok engine) ∧
          ∀ e, (turn.result = .error (.creation e) ↔ c.asks s request = true ∧ make peer = .error e) ∧
            (turn.result = .error (.creation e) →
              turn = ⟨.error (.creation e), c, s, #[.create peer], #[]⟩)) ∧
      (Session.IsSteady S → ∃ told, Session.Briefs s₀ told ∧ Call.making (logOf turns) =
        List.replicate (turns.countP Turn.lacksEngine) (.create (Session.attributes s₀).peer) ++
          if c.isPrepared then .create (Session.attributes s₀).peer :: told else []) := by
  intro turns c s
  refine ⟨fun make request => ?_, fun hsteady => ⟨_, Session.briefs_briefing s₀, ?_⟩⟩
  · intro peer turn
    refine ⟨c.not_isPrepared_of_asks s, ?_, ?_, c.isPrepared_handle_iff make s request, fun e => ⟨?_, ?_⟩⟩
    · obtain ⟨others, hcalls, hkinds⟩ := c.calls_handle make s request
      exact ⟨_, others, Session.briefs_briefing s, hcalls, hkinds⟩
    · obtain ⟨said, hreplay⟩ := c.replay_handle make s request
      exact congrArg Scene.engine hreplay
    · exact c.result_eq_creation_iff make s request e
    · exact c.eq_of_creation make s
  · exact (closed pool runner).making_handleAll s₀ hsteady rfl history

/-- A server asks twice in vain for an engine, and does not ask for one in order to send on a closed channel.  The
third attempt succeeds, and the engine is told once what it is for, although it does not get through its
handshake.  It is told to accept that there is no certificate where one is wanted and needed, to insist on one where
it is needed alone, and not to ask for one where there is no such wish. -/
theorem engine_made_once_at_third :
    let make : EngineMaker Playback := fun _ => .ok (.start .output [] 256)
    let fails : EngineMaker Playback := fun _ => .error (.ofMessage "no trust store")
    let peer : HostPort := ⟨"10.0.0.7", 8443⟩
    let server (want need : Option Bool) : Journal := .connected false ⟨some peer, want, need⟩
    let history := [(fails, .prepare), (make, .send [1]), (fails, .receive [2]), (make, .start), (make, .receive [3])]
    let run (j : Journal) := (closed .usual .onTheSpot).handleAll j history
    let made (policy : CertificatePolicy) : List Call := [.create (some peer), .create (some peer),
      .create (some peer), .setSide false, .setCertificatePolicy policy]
    let both := run (server (some true) (some true))
    let needed := run (server (some false) (some true))
    let neither := run (server none (some false))
    Session.IsSteady Journal ∧
      both.2.1.engine.map (fun p => (p.isClient, p.policies)) = some (some false, [.want]) ∧
      needed.2.1.engine.map (fun p => (p.isClient, p.policies)) = some (some false, [.need]) ∧
      neither.2.1.engine.map (fun p => (p.isClient, p.policies)) = some (some false, [.none]) ∧
      Call.making (logOf both.1) = made .want ∧
      Call.making (logOf needed.1) = made .need ∧
      Call.making (logOf neither.1) = made .none ∧
      (both.2.1.handle fails both.2.2 .prepare).channel.isPrepared = true := by
  intro make fails peer server history run made both needed neither
  -- what there is to be told is read off the wishes of the session, not off what the engine has been told
  have hmade (want need : Option Bool) (policy : CertificatePolicy)
      (hbriefs : ∀ told, Session.Briefs (server want need) told →
        told = [.setSide false, .setCertificatePolicy policy])
      (hcount : (run (server want need)).1.countP Turn.lacksEngine = 2)
      (hready : (run (server want need)).2.1.isPrepared = true) :
      Call.making (logOf (run (server want need)).1) = made policy := by
    obtain ⟨-, hlife⟩ := engine_made_once .usual .onTheSpot (server want need) history
    obtain ⟨told, htold, hmaking⟩ := hlife Journal.isSteady
    rw [hmaking, hcount, if_pos hready, hbriefs told htold]
    rfl
  have hready : both.2.1.isPrepared = true := by decide +kernel
  obtain ⟨hnext, -⟩ := engine_made_once .usual .onTheSpot (server (some true) (some true)) history
  obtain ⟨-, -, -, hprepared, -⟩ := hnext fails .prepare
  refine ⟨Journal.isSteady, by decide +kernel, by decide +kernel, by decide +kernel, ?_, ?_, ?_,
    hprepared.2 (.inl hready)⟩
  · refine hmade _ _ .want (fun told h => ?_) (by decide +kernel) hready
    cases h with
    | want => rfl
    | client hside => cases hside
    | need _ hwant | none _ hwant => exact absurd rfl hwant
  · refine hmade _ _ .need (fun told h => ?_) (by decide +kernel) (by decide +kernel)
    cases h with
    | need => rfl
    | client hside => cases hside
    | want _ hwant => cases hwant
    | none _ _ hneed => exact absurd rfl hneed
  · refine hmade _ _ .none (fun told h => ?_) (by decide +kernel) (by decide +kernel)
    cases h with
    | none => rfl
    | client hside => cases hside
    | want _ hwant => cases hwant
    | need _ _ hneed => cases hneed

end Channel

end SecureStream
