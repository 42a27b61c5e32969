import Mathlib.Logic.Relation
import SecureStream.Channel.Basic
import SecureStream.Proofs.Buffer.Room

/-!
# The course of a request

Whatever a channel does for a request it does in small steps: it calls its engine, hands something to its
session, or moves the session on.  A `Moment` is a link between two steps, with what its engine said last
that it needs and with the input that is left.

`Moment.Step` lists the steps and what must hold for each of them to be taken.  In particular an engine is
offered all the input that is left, a session is secured only when the handshake goes on and its engine has
just said that it is completed, and it is left only when it is secured.  Every function on links takes such
steps and no others (`Link.course_read`, `Link.course_start`, `Link.acts_write`).  So what each step keeps
is kept by every request, whatever the engine answers and however the request ends.
-/

namespace SecureStream

/-- What an engine has said last that it needs, after an answer.  An error says nothing of it. -/
def Demand.heard (said : Demand) : Except EngineError Reply → Demand
  | .ok r => r.demand
  | .error _ => said

namespace Call

/-- How many bytes of the input that it offered a call has used up.  It cannot have used more than all. -/
def used : Call → Nat
  | unwrap input _ (.ok r) => min r.consumed input.length
  | _ => 0

theorem drop_used (input : Bytes) (room : Nat) (r : Reply) :
    input.drop (unwrap input room (.ok r)).used = input.drop r.consumed := by
  rcases Nat.le_total r.consumed input.length with hle | hle
  · rw [used, Nat.min_eq_left hle]
  · rw [used, Nat.min_eq_right hle, List.drop_length, List.drop_of_length_le hle]

end Call

/-- A link in the course of a request. -/
structure Moment (E S : Type) where
  link : Link E S
  /-- What the engine said last that it needs. -/
  said : Demand
  /-- The input that is left. -/
  input : Bytes

namespace Moment

variable {E S : Type} [Engine E] [Session S] {runner : Runner} {m m' m'' : Moment E S}

/-- The steps that leave the session in its state.  After every call of the engine but the two that give an
answer, the engine is asked what it needs. -/
inductive Act (runner : Runner) : Moment E S → Moment E S → Prop where
  | note (m : Moment E S) (notice : Notice) : Act runner m { m with link := m.link.note notice }
  | setSide (m : Moment E S) (isClient : Bool) :
    Act runner m ⟨{ m.link with engine := Engine.setSide m.link.engine isClient }.log (.setSide isClient),
      Engine.demand (Engine.setSide m.link.engine isClient), m.input⟩
  | setCertificatePolicy (m : Moment E S) (policy : CertificatePolicy) :
    Act runner m ⟨{ m.link with engine := Engine.setCertificatePolicy m.link.engine policy }.log
      (.setCertificatePolicy policy),
      Engine.demand (Engine.setCertificatePolicy m.link.engine policy), m.input⟩
  | startHandshake {m : Moment E S} {answer : Except EngineError Unit} {k : Link E S}
    (h : m.link.startHandshake = (answer, k)) : Act runner m ⟨k, k.demand, m.input⟩
  | wrap {m : Moment E S} {bytes : Bytes} {room : Nat} {answer : Except EngineError Reply} {k : Link E S}
    (h : m.link.wrap bytes room = (answer, k)) : Act runner m ⟨k, m.said.heard answer, m.input⟩
  | unwrap {m : Moment E S} {room : Nat} {answer : Except EngineError Reply} {k : Link E S}
    (h : m.link.unwrap m.input room = (answer, k)) :
    Act runner m ⟨k, m.said.heard answer, m.input.drop (Call.unwrap m.input room answer).used⟩
  | runTask {m : Moment E S} {engine : E} (h : Engine.takeTask? m.link.engine = some engine) :
    Act runner m ⟨({ m.link with engine := runner.run engine }.log (.takeTask true)).log .runTask,
      Engine.demand (runner.run engine), m.input⟩
  | noTask {m : Moment E S} (h : Engine.takeTask? m.link.engine = none) :
    Act runner m ⟨m.link.log (.takeTask false), m.link.demand, m.input⟩
  | enqueue (m : Moment E S) (piece : Bytes) : Act runner m { m with link := m.link.enqueue piece }
  | deliver (m : Moment E S) {message : Bytes} (h : message ≠ []) :
    Act runner m { m with link := m.link.deliver message }

/-- All steps. -/
inductive Step (runner : Runner) : Moment E S → Moment E S → Prop where
  | act {m m' : Moment E S} (h : Act runner m m') : Step runner m m'
  | enter {m : Moment E S} (hidle : m.link.handshaking = false) (hstate : m.link.state ≠ .secured) :
    Step runner m { m with link := { m.link.moveTo .securing with handshaking := true } }
  | secure {m : Moment E S} (hgoing : m.link.handshaking = true) (hsaid : m.said = .finished) :
    Step runner m { m with link := { m.link.moveTo .secured with handshaking := false } }
  | leave {m : Moment E S} (hstate : m.link.state = .secured) :
    Step runner m { m with link := m.link.moveTo .connected }

/-- Any number of steps that leave the session in its state. -/
def Acts (runner : Runner) : Moment E S → Moment E S → Prop := Relation.ReflTransGen (Act runner)

/-- Any number of steps. -/
def Course (runner : Runner) : Moment E S → Moment E S → Prop := Relation.ReflTransGen (Step runner)

theorem Act.acts (h : Act runner m m') : Acts runner m m' := .single h

theorem Acts.refl (m : Moment E S) : Acts runner m m := Relation.ReflTransGen.refl

theorem Acts.trans (h : Acts runner m m') (h' : Acts runner m' m'') : Acts runner m m'' :=
  Relation.ReflTransGen.trans h h'

theorem Acts.head (h : Act runner m m') (h' : Acts runner m' m'') : Acts runner m m'' :=
  Relation.ReflTransGen.head h h'

theorem Acts.course (h : Acts runner m m') : Course runner m m' :=
  Relation.ReflTransGen.mono (fun _ _ => Step.act) _ _ h

theorem Step.course (h : Step runner m m') : Course runner m m' := .single h

theorem Course.refl (m : Moment E S) : Course runner m m := Relation.ReflTransGen.refl

theorem Course.trans (h : Course runner m m') (h' : Course runner m' m'') : Course runner m m'' :=
  Relation.ReflTransGen.trans h h'

theorem Act.handshaking_eq (h : Act runner m m') : m'.link.handshaking = m.link.handshaking := by
  cases h with
  | startHandshake h | wrap h | unwrap h => cases h; rfl
  | _ => rfl

theorem Acts.handshaking_eq (h : Acts runner m m') : m'.link.handshaking = m.link.handshaking := by
  induction h with
  | refl => rfl
  | tail _ hact ih => rw [hact.handshaking_eq, ih]

end Moment

namespace Link

open Moment

variable {E S : Type} [Engine E] [Session S] (runner : Runner) (pool : Pool) (k : Link E S) (said : Demand)
  (left : Bytes)

/-! ### Output -/

theorem acts_of_wrap {after : Link E S} {input : Bytes} {room : Nat} {answer : Except EngineError Reply}
    (h : k.wrap input room = (answer, after)) :
    Acts runner ⟨k, said, left⟩ ⟨after, said.heard answer, left⟩ :=
  (Act.wrap h).acts

theorem acts_wrapAll (purpose : Purpose) (input : Bytes) (b : Scratch) :
    ∃ said', Acts runner ⟨k, said, left⟩ ⟨(k.wrapAll purpose input b).2, said', left⟩ ∧
      ∀ b' demand, (k.wrapAll purpose input b).1 = .ok (b', demand) → said' = demand := by
  fun_induction wrapAll purpose k input b generalizing said with
  | case3 k input b r after hwrap filled hverdict grown hgrow ih =>
    obtain ⟨said', hacts, hsaid⟩ := ih r.demand
    exact ⟨said', .head (.wrap hwrap) (.head (.note _ _) hacts), hsaid⟩
  | case6 k input b r after hwrap filled hverdict hrest hconsumed ih =>
    obtain ⟨said', hacts, hsaid⟩ := ih r.demand
    exact ⟨said', .head (.wrap hwrap) hacts, hsaid⟩
  | case4 k input b r after hwrap | case8 k input b r after hwrap =>
    refine ⟨r.demand, k.acts_of_wrap runner said left hwrap, ?_⟩
    rintro _ _ ⟨⟩
    rfl
  | _ => exact ⟨_, acts_of_wrap runner _ said left ‹_›, fun _ _ h => by cases h⟩

theorem acts_wrapNew (purpose : Purpose) (capacity : Nat) (input : Bytes) :
    ∃ said', Acts runner ⟨k, said, left⟩ ⟨(k.wrapNew pool purpose capacity input).2, said', left⟩ ∧
      ∀ output demand, (k.wrapNew pool purpose capacity input).1 = .ok (output, demand) → said' = demand := by
  unfold wrapNew
  split
  · exact ⟨said, .refl _, nofun⟩
  · next b _ =>
    obtain ⟨said', hacts, hsaid⟩ := k.acts_wrapAll runner said left purpose input b
    rcases hwrapped : k.wrapAll purpose input b with ⟨_ | ⟨b', demand⟩, after⟩
    · rw [hwrapped] at hacts
      exact ⟨said', hacts, nofun⟩
    · rw [hwrapped] at hacts hsaid
      refine ⟨said', hacts, ?_⟩
      rintro _ _ ⟨⟩
      exact hsaid b' demand rfl

theorem acts_fetchOutput :
    ∃ said', Acts runner ⟨k, said, left⟩ ⟨(k.fetchOutput pool).2, said', left⟩ ∧
      ∀ next, (k.fetchOutput pool).1 = .ok next → said' = next := by
  obtain ⟨said', hacts, hsaid⟩ :=
    k.acts_wrapNew runner pool said left .handshake (pool.cap (Engine.largestRecord k.engine)) []
  unfold fetchOutput
  rcases hwrapped : k.wrapNew pool .handshake (pool.cap (Engine.largestRecord k.engine)) [] with
    ⟨_ | ⟨output, demand⟩, after⟩
  · rw [hwrapped] at hacts
    exact ⟨said', hacts, nofun⟩
  · rw [hwrapped] at hacts hsaid
    dsimp only
    refine ⟨said', ?_, ?_⟩
    · split
      · exact hacts
      · exact hacts.trans (Act.enqueue _ output).acts
    · rintro _ ⟨⟩
      exact hsaid output demand rfl

theorem acts_write (message : Bytes) :
    ∃ said', Acts runner ⟨k, said, left⟩ ⟨(k.write pool message).2, said', left⟩ := by
  obtain ⟨said', hacts, -⟩ :=
    k.acts_wrapNew runner pool said left .application (pool.ciphertextRoom message.length) message
  refine ⟨said', ?_⟩
  unfold write
  rcases hwrapped : k.wrapNew pool .application (pool.ciphertextRoom message.length) message with
    ⟨_ | ⟨piece, demand⟩, after⟩
  · rw [hwrapped] at hacts
    exact hacts
  · rw [hwrapped] at hacts
    exact hacts.trans (.head (.note _ _) (Act.enqueue _ piece).acts)

theorem acts_sendClosing (count : Nat) :
    ∃ said', Acts runner ⟨k, said, left⟩ ⟨(k.sendClosing pool count).2, said', left⟩ := by
  fun_induction sendClosing pool k count generalizing said with
  | case1 => exact ⟨said, .refl _⟩
  | case2 k count _ e after hwrap =>
    obtain ⟨said', hacts, -⟩ :=
      k.acts_wrapNew runner pool said left .close (pool.cap (Engine.largestRecord k.engine)) []
    rw [hwrap] at hacts
    exact ⟨said', hacts⟩
  | case3 k count _ output demand after hwrap | case4 k count _ output demand after hwrap =>
    obtain ⟨said', hacts, -⟩ :=
      k.acts_wrapNew runner pool said left .close (pool.cap (Engine.largestRecord k.engine)) []
    rw [hwrap] at hacts
    exact ⟨said', hacts⟩
  | case5 k count _ output demand after hwrap _ ih =>
    obtain ⟨said', hacts, -⟩ :=
      k.acts_wrapNew runner pool said left .close (pool.cap (Engine.largestRecord k.engine)) []
    rw [hwrap] at hacts
    obtain ⟨said'', hrest⟩ := ih said'
    exact ⟨said'', hacts.trans (.head (.enqueue _ output) hrest)⟩

/-! ### Tasks -/

theorem acts_drainTasks (count : Nat) :
    Acts runner ⟨k, said, left⟩
      ⟨(k.drainTasks runner count).2, (k.drainTasks runner count).2.demand, left⟩ := by
  fun_induction drainTasks runner k count generalizing said with
  | case1 k count htask => exact (Act.noTask htask).acts
  | case2 k count engine htask ih => exact .head (.runTask htask) (ih _)

/-- Behind the tasks the engine is asked what it needs, whatever comes of them. -/
theorem acts_runTasks_demand :
    Acts runner ⟨k, said, left⟩ ⟨(k.runTasks runner).2, (k.runTasks runner).2.demand, left⟩ := by
  have hacts := k.acts_drainTasks runner said left 0
  unfold runTasks
  dsimp only
  split
  · exact hacts
  · exact hacts.trans (Act.note _ _).acts

theorem acts_runTasks :
    ∃ said', Acts runner ⟨k, said, left⟩ ⟨(k.runTasks runner).2, said', left⟩ ∧
      ∀ next, (k.runTasks runner).1 = .ok next → said' = next := by
  refine ⟨_, k.acts_runTasks_demand runner said left, ?_⟩
  unfold runTasks
  dsimp only
  split
  · nofun
  · rintro _ ⟨⟩
    rfl

/-! ### Input -/

theorem acts_of_unwrap {after : Link E S} {input : Bytes} {room : Nat} {answer : Except EngineError Reply}
    (h : k.unwrap input room = (answer, after)) :
    Acts runner ⟨k, said, input⟩
      ⟨after, said.heard answer, input.drop (Call.unwrap input room answer).used⟩ :=
  (Act.unwrap h).acts

theorem acts_of_unwrap_ok {after : Link E S} {input : Bytes} {room : Nat} {r : Reply}
    (h : k.unwrap input room = (.ok r, after)) :
    Acts runner ⟨k, said, input⟩ ⟨after, r.demand, input.drop r.consumed⟩ := by
  have hacts := k.acts_of_unwrap runner said h
  rwa [Call.drop_used] at hacts

theorem acts_unwrapStep (input : Bytes) (b : Scratch) :
    ∃ said' left, Acts runner ⟨k, said, input⟩ ⟨(k.unwrapStep input b).2, said', left⟩ ∧
      ∀ next rest, (k.unwrapStep input b).1 = .ok (next, rest) →
        rest = left ∧ ∀ demand, next = some demand → said' = demand := by
  fun_induction unwrapStep k input b generalizing said with
  | case1 k input b e after hunwrap =>
    exact ⟨_, _, k.acts_of_unwrap runner said hunwrap, fun _ _ h => by cases h⟩
  | case3 k input b r after hunwrap rest hverdict hprogress =>
    refine ⟨_, _, k.acts_of_unwrap_ok runner said hunwrap, ?_⟩
    rintro _ _ ⟨⟩
    refine ⟨rfl, ?_⟩
    rintro _ ⟨⟩
    rfl
  | case4 k input b r after hunwrap rest hverdict =>
    refine ⟨_, _, k.acts_of_unwrap_ok runner said hunwrap, ?_⟩
    rintro _ _ ⟨⟩
    exact ⟨rfl, fun _ h => by cases h⟩
  | case6 k input b r after hunwrap rest filled hverdict grown hgrow ih =>
    obtain ⟨said', left, hacts, hresult⟩ := ih r.demand
    exact ⟨said', left, (k.acts_of_unwrap_ok runner said hunwrap).trans hacts, hresult⟩
  | _ => exact ⟨_, _, acts_of_unwrap_ok runner _ said ‹_›, fun _ _ h => by cases h⟩

theorem acts_bringInput (input : Bytes) :
    ∃ said' left, Acts runner ⟨k, said, input⟩ ⟨(k.bringInput pool input).2, said', left⟩ ∧
      ∀ next rest, (k.bringInput pool input).1 = .ok (next, rest) →
        rest = left ∧ ∀ demand, next = some demand → said' = demand := by
  unfold bringInput
  split
  · exact ⟨said, input, .refl _, nofun⟩
  · exact k.acts_unwrapStep runner said input _

/-! ### The handshake -/

/-- In the loop of the handshake the demand is what the engine said last. -/
theorem course_shake (total : Nat) (input : Bytes) (hgoing : k.handshaking = true) :
    ∃ said' left, Course runner ⟨k, said, input⟩ ⟨(k.shake pool runner total said input).2, said', left⟩ ∧
      ∀ isDone rest, (k.shake pool runner total said input).1 = .ok (isDone, rest) → rest = left := by
  fun_induction shake pool runner total k said input with
  | case1 k input noted =>
    refine ⟨.finished, input, ?_, ?_⟩
    · have hnote : Acts runner ⟨k, .finished, input⟩ ⟨noted, .finished, input⟩ := (Act.note _ _).acts
      have hsecure : Step runner ⟨noted, .finished, input⟩ _ := .secure hgoing rfl
      exact (hnote.course.trans hsecure.course).trans (Act.note _ _).acts.course
    · rintro _ _ ⟨⟩
      rfl
  | case2 k input e after noted htasks =>
    obtain ⟨said', hacts, -⟩ := noted.acts_runTasks runner .task input
    rw [htasks] at hacts
    exact ⟨said', input, (Acts.head (.note _ _) hacts).course, nofun⟩
  | case3 k input next after noted htasks ih =>
    obtain ⟨said', hacts, hsaid⟩ := noted.acts_runTasks runner .task input
    rw [htasks] at hacts hsaid
    obtain rfl := hsaid next rfl
    obtain ⟨said'', left, hcourse, hresult⟩ := ih (hacts.handshaking_eq.trans hgoing)
    exact ⟨said'', left, (Acts.head (.note _ _) hacts).course.trans hcourse, hresult⟩
  | case4 k input e after noted hfetch =>
    obtain ⟨said', hacts, -⟩ := noted.acts_fetchOutput runner pool .output input
    rw [hfetch] at hacts
    exact ⟨said', input, (Acts.head (.note _ _) hacts).course, nofun⟩
  | case5 k input next after noted hfetch ih =>
    obtain ⟨said', hacts, hsaid⟩ := noted.acts_fetchOutput runner pool .output input
    rw [hfetch] at hacts hsaid
    obtain rfl := hsaid next rfl
    obtain ⟨said'', left, hcourse, hresult⟩ := ih (hacts.handshaking_eq.trans hgoing)
    exact ⟨said'', left, (Acts.head (.note _ _) hacts).course.trans hcourse, hresult⟩
  | case6 k input e after noted hbring | case9 k input e after noted hbring =>
    obtain ⟨said', left, hacts, -⟩ := noted.acts_bringInput runner pool _ input
    rw [hbring] at hacts
    exact ⟨said', left, (Acts.head (.note _ _) hacts).course, nofun⟩
  | case7 k input rest after noted hbring | case10 k input rest after noted hbring =>
    obtain ⟨said', left, hacts, hresult⟩ := noted.acts_bringInput runner pool _ input
    rw [hbring] at hacts hresult
    refine ⟨said', left, (Acts.head (.note _ _) hacts).course, ?_⟩
    rintro _ _ ⟨⟩
    exact (hresult none rest rfl).1
  | case8 k input next rest after noted hbring ih | case11 k input next rest after noted hbring ih =>
    obtain ⟨said', left, hacts, hresult⟩ := noted.acts_bringInput runner pool _ input
    rw [hbring] at hacts hresult
    obtain ⟨rfl, hsaid⟩ := hresult (some next) rest rfl
    obtain rfl := hsaid next rfl
    obtain ⟨said'', left', hcourse, hresult'⟩ := ih (hacts.handshaking_eq.trans hgoing)
    exact ⟨said'', left', (Acts.head (.note _ _) hacts).course.trans hcourse, hresult'⟩

/-! ### Records -/

theorem acts_handOver (consumed : Nat) (b : Scratch) :
    Acts runner ⟨k, said, left⟩ ⟨k.handOver consumed b, said, left⟩ := by
  unfold handOver
  split
  · exact .refl _
  · next hempty =>
    have hne : b.bytes ≠ [] := fun h => hempty (Scratch.isEmpty_iff.2 h)
    exact .head (.deliver _ hne) (Act.note _ _).acts

theorem course_answerClose (demand : Demand) (hstate : k.state = .secured) :
    ∃ said', Course runner ⟨k, said, left⟩ ⟨(k.answerClose pool demand).2, said', left⟩ := by
  unfold answerClose
  dsimp only
  have hnote : Acts runner ⟨k, said, left⟩ ⟨k.note (.closeReceived demand), said, left⟩ := (Act.note _ _).acts
  split
  · have hleave : Step runner ⟨k.note (.closeReceived demand), said, left⟩ _ := .leave hstate
    have hmoved := hnote.course.trans hleave.course
    obtain ⟨said', hacts⟩ :=
      ((k.note (.closeReceived demand)).moveTo .connected).acts_sendClosing runner pool said left 0
    rcases hsent : ((k.note (.closeReceived demand)).moveTo .connected).sendClosing pool 0 with
      ⟨_ | count, after⟩
    · rw [hsent] at hacts
      exact ⟨said', hmoved.trans hacts.course⟩
    · rw [hsent] at hacts
      exact ⟨said', hmoved.trans (hacts.trans (Act.note _ _).acts).course⟩
  · exact ⟨said, hnote.course⟩

theorem course_unwrapAll (input : Bytes) (b : Scratch) (n : Nat) :
    ∃ said' left, Course runner ⟨k, said, input⟩ ⟨(k.unwrapAll pool input b n).2, said', left⟩ ∧
      ∀ o rest, (k.unwrapAll pool input b n).1 = .ok (o, rest) → rest = left := by
  fun_induction unwrapAll pool k input b n generalizing said with
  | case1 k input b n e after hunwrap =>
    exact ⟨_, _, (k.acts_of_unwrap runner said hunwrap).course, nofun⟩
  | case3 k input b n r after hunwrap rest filled =>
    have hserved := after.acts_handOver runner r.demand rest r.consumed filled
    refine ⟨r.demand, rest, ((k.acts_of_unwrap_ok runner said hunwrap).trans hserved).course, ?_⟩
    rintro _ _ ⟨⟩
    rfl
  | case4 k input b n r after hunwrap rest filled hverdict hprogress served hrest ih =>
    have hserved := after.acts_handOver runner r.demand rest r.consumed filled
    obtain ⟨said', left, hcourse, hresult⟩ := ih r.demand
    have hbefore := ((k.acts_of_unwrap_ok runner said hunwrap).trans hserved).course
    exact ⟨said', left, hbefore.trans hcourse, hresult⟩
  | case5 k input b n r after hunwrap rest hverdict =>
    refine ⟨_, rest, ((k.acts_of_unwrap_ok runner said hunwrap).trans (Act.note _ _).acts).course, ?_⟩
    rintro _ _ ⟨⟩
    rfl
  | case7 k input b n r after hunwrap rest filled hverdict grown hgrow ih =>
    obtain ⟨said', left, hcourse, hresult⟩ := ih r.demand
    exact ⟨said', left, (k.acts_of_unwrap_ok runner said hunwrap).course.trans hcourse, hresult⟩
  | case8 k input b n r after hunwrap hverdict hstate e last hanswer =>
    obtain ⟨said', hcourse⟩ :=
      after.course_answerClose runner pool r.demand (input.drop r.consumed) r.demand hstate
    rw [hanswer] at hcourse
    exact ⟨said', _, (k.acts_of_unwrap_ok runner said hunwrap).course.trans hcourse, nofun⟩
  | case9 k input b n r after hunwrap rest hverdict hstate last hanswer =>
    obtain ⟨said', hcourse⟩ := after.course_answerClose runner pool r.demand rest r.demand hstate
    rw [hanswer] at hcourse
    refine ⟨said', _, (k.acts_of_unwrap_ok runner said hunwrap).course.trans hcourse, ?_⟩
    rintro _ _ ⟨⟩
    rfl
  | _ => exact ⟨_, _, (acts_of_unwrap_ok runner _ said ‹_›).course, nofun⟩

theorem course_unwrapRecords (input : Bytes) :
    ∃ said' left, Course runner ⟨k, said, input⟩ ⟨(k.unwrapRecords pool input).2, said', left⟩ ∧
      ∀ o rest, (k.unwrapRecords pool input).1 = .ok (o, rest) → rest = left := by
  unfold unwrapRecords
  split
  · refine ⟨said, input, .refl _, ?_⟩
    rintro _ _ ⟨⟩
    rfl
  · split
    · exact ⟨said, input, .refl _, nofun⟩
    · exact k.course_unwrapAll runner pool said input _ 0

/-! ### Requests -/

omit [Engine E] in
theorem handshaking_enterHandshake : k.enterHandshake.handshaking = true := by
  unfold enterHandshake
  split
  · assumption
  · rfl

theorem demand_enterHandshake : k.enterHandshake.demand = k.demand := by
  unfold enterHandshake
  split <;> rfl

/-- A handshake is entered unless it is going on. -/
theorem course_enterHandshake (hstate : k.state ≠ .secured) :
    Course runner ⟨k, said, left⟩ ⟨k.enterHandshake, said, left⟩ := by
  unfold enterHandshake
  split
  · exact .refl _
  · next hidle =>
    have henter : Step runner ⟨k, said, left⟩ _ := .enter (Bool.not_eq_true _ ▸ hidle) hstate
    exact henter.course

/-- What is done to start or to continue a handshake when the session is not secured. -/
theorem course_shake_enterHandshake (total : Nat) (input : Bytes) (hstate : k.state ≠ .secured) :
    ∃ said' left, Course runner ⟨k, k.demand, input⟩
        ⟨(k.enterHandshake.shake pool runner total k.enterHandshake.demand input).2, said', left⟩ ∧
      ∀ isDone rest, (k.enterHandshake.shake pool runner total k.enterHandshake.demand input).1 =
        .ok (isDone, rest) → rest = left := by
  obtain ⟨said', left, hcourse, hresult⟩ := k.enterHandshake.course_shake runner pool k.enterHandshake.demand
    total input k.handshaking_enterHandshake
  refine ⟨said', left, ?_, hresult⟩
  have hentered := k.course_enterHandshake runner k.enterHandshake.demand input hstate
  rw [demand_enterHandshake] at hentered hcourse ⊢
  exact hentered.trans hcourse

theorem course_start :
    ∃ said' left, Course runner ⟨k, k.demand, []⟩ ⟨(k.start pool runner).2, said', left⟩ := by
  unfold start
  split
  · exact ⟨_, _, .refl _⟩
  · next hstate =>
    rcases hstarted : k.startHandshake with ⟨e | ⟨⟩, after⟩
    · exact ⟨_, _, (Act.startHandshake hstarted).acts.course⟩
    · have hacts : Acts runner ⟨k, k.demand, []⟩ ⟨after, after.demand, []⟩ :=
        (Act.startHandshake hstarted).acts
      have hafter : k.startHandshake.2 = after := congrArg Prod.snd hstarted
      have hsession : after.state ≠ .secured := by
        rw [← hafter]
        exact hstate
      obtain ⟨said', left, hcourse, -⟩ := after.course_shake_enterHandshake runner pool 0 [] hsession
      refine ⟨said', left, hacts.course.trans ?_⟩
      dsimp only
      split <;> (next heq => rwa [heq] at hcourse)

theorem course_readSecuring (input : Bytes) (hstate : k.state ≠ .secured) :
    ∃ said' left, Course runner ⟨k, k.demand, input⟩ ⟨(k.readSecuring pool runner input).2, said', left⟩ ∧
      ∀ o rest, (k.readSecuring pool runner input).1 = .ok (o, rest) → rest = left := by
  obtain ⟨said', left, hcourse, hresult⟩ :=
    k.course_shake_enterHandshake runner pool input.length input hstate
  unfold readSecuring
  dsimp only
  rcases hshook : k.enterHandshake.shake pool runner input.length k.enterHandshake.demand input with
    ⟨e | ⟨_ | _, rest⟩, after⟩
  · rw [hshook] at hcourse
    exact ⟨said', left, hcourse, nofun⟩
  · rw [hshook] at hcourse hresult
    refine ⟨said', left, hcourse, ?_⟩
    rintro _ _ ⟨⟩
    exact hresult false rest rfl
  · rw [hshook] at hcourse hresult
    obtain rfl := hresult true rest rfl
    obtain ⟨said'', left', hcourse', hresult'⟩ := after.course_unwrapRecords runner pool said' rest
    refine ⟨said'', left', hcourse.trans ?_, ?_⟩
    · dsimp only
      split <;> (next heq => rwa [heq] at hcourse')
    · dsimp only
      rcases hunwrapped : after.unwrapRecords pool rest with ⟨e | ⟨o, last⟩, final⟩
      · nofun
      · rw [hunwrapped] at hresult'
        have hlast := hresult' o last rfl
        cases o with
        | _ => rintro _ _ ⟨⟩; exact hlast

theorem course_read (input : Bytes) :
    ∃ said' left, Course runner ⟨k, k.demand, input⟩ ⟨(k.read pool runner input).2, said', left⟩ ∧
      ∀ o rest, (k.read pool runner input).1 = .ok (o, rest) → rest = left := by
  unfold read
  split
  · exact k.course_unwrapRecords runner pool _ input
  · exact k.course_readSecuring runner pool input ‹_›

end Link

end SecureStream
