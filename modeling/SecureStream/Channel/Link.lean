import SecureStream.Channel.Error
import SecureStream.Channel.Notice
import SecureStream.Session.Basic

/-!
# Links

A `Link` is the driver of one request: it ties an engine to a session while a channel serves it. Whatever is done to
either of the two goes through it, and it takes down every call with its answer, in order.
-/

namespace SecureStream

/-- One call of an engine or a session. -/
inductive Call where
  /-- An engine was asked for. -/
  | create (peer : Option HostPort)
  | setSide (isClient : Bool)
  | setCertificatePolicy (policy : CertificatePolicy)
  | startHandshake
  | wrap (input : Bytes) (room : Nat) (answer : Except EngineError Reply)
  | unwrap (input : Bytes) (room : Nat) (answer : Except EngineError Reply)
  | takeTask (found : Bool)
  /-- A task was given to its runner. -/
  | runTask
  | moveTo (state : SessionState)
  | enqueue (piece : Bytes)
  | deliver (message : Bytes)

/-- Who runs the tasks that an engine hands out. -/
inductive Runner where
  /-- They are run on the spot. -/
  | onTheSpot
  /-- They are thrown away. -/
  | never
  deriving DecidableEq, Repr

/-- The engine after one of its tasks has been given to a runner. -/
def Runner.run {E : Type} [Engine E] (runner : Runner) (e : E) : E :=
  match runner with
  | onTheSpot => Engine.runTask e
  | never => e

theorem Runner.work_run_le {E : Type} [Engine E] (runner : Runner) (e : E) :
    Engine.work (runner.run e) ≤ Engine.work e := by
  cases runner
  · exact Engine.work_runTask_le e
  · exact Nat.le_refl _

/-- An engine and a session during one request. -/
structure Link (E S : Type) where
  engine : E
  session : S
  /-- A handshake has been started and not completed. -/
  handshaking : Bool
  /-- All calls so far, oldest first. -/
  calls : Array Call
  /-- All notices so far, oldest first. -/
  notices : Array Notice

namespace Link

variable {E S : Type}

def log (k : Link E S) (call : Call) : Link E S := { k with calls := k.calls.push call }

def note (k : Link E S) (notice : Notice) : Link E S := { k with notices := k.notices.push notice }

@[simp] theorem engine_log (k : Link E S) (call : Call) : (k.log call).engine = k.engine := rfl

@[simp] theorem engine_note (k : Link E S) (notice : Notice) : (k.note notice).engine = k.engine := rfl

section Engine

variable [Engine E]

/-- Wraps input into a space of `room` bytes. -/
def wrap (k : Link E S) (input : Bytes) (room : Nat) : Except EngineError Reply × Link E S :=
  let (answer, engine) := Engine.wrap k.engine input room
  (answer, { k with engine }.log (.wrap input room answer))

/-- Unwraps input into a space of `room` bytes. -/
def unwrap (k : Link E S) (input : Bytes) (room : Nat) : Except EngineError Reply × Link E S :=
  let (answer, engine) := Engine.unwrap k.engine input room
  (answer, { k with engine }.log (.unwrap input room answer))

def startHandshake (k : Link E S) : Except EngineError Unit × Link E S :=
  let (answer, engine) := Engine.startHandshake k.engine
  (answer, { k with engine }.log .startHandshake)

def demand (k : Link E S) : Demand := Engine.demand k.engine

/-- The bound on what the engine can do without new input. -/
def work (k : Link E S) : Nat := Engine.work k.engine

@[simp] theorem work_log (k : Link E S) (call : Call) : (k.log call).work = k.work := rfl

@[simp] theorem work_note (k : Link E S) (notice : Notice) : (k.note notice).work = k.work := rfl

@[simp] theorem demand_log (k : Link E S) (call : Call) : (k.log call).demand = k.demand := rfl

@[simp] theorem demand_note (k : Link E S) (notice : Notice) : (k.note notice).demand = k.demand := rfl

theorem work_le_of_wrap {k k' : Link E S} {input : Bytes} {room : Nat} {answer : Except EngineError Reply}
    (h : k.wrap input room = (answer, k')) : k'.work ≤ k.work := by
  cases h
  exact Engine.work_wrap_le k.engine input room

theorem work_le_of_unwrap {k k' : Link E S} {input : Bytes} {room : Nat} {answer : Except EngineError Reply}
    (h : k.unwrap input room = (answer, k')) : k'.work ≤ k.work := by
  cases h
  exact Engine.work_unwrap_le k.engine input room

theorem wrap_nil {k k' : Link E S} {room : Nat} {r : Reply} (h : k.wrap [] room = (.ok r, k')) :
    k'.work < k.work ∨ (r.produced = 0 ∧ (r.verdict = .ok ∨ r.verdict = .closed →
      r.demand ≠ .output ∧ (r.demand = .task → k'.demand = .task))) := by
  have h1 : (Engine.wrap k.engine [] room).1 = .ok r := congrArg Prod.fst h
  have h2 : (Engine.wrap k.engine [] room).2 = k'.engine := congrArg (fun x => x.2.engine) h
  exact Engine.wrap_nil (Prod.ext h1 h2)

theorem unwrap_ok {k k' : Link E S} {input : Bytes} {room : Nat} {r : Reply}
    (h : k.unwrap input room = (.ok r, k')) (ok : r.verdict = .ok) :
    k'.work < k.work ∨ (0 < r.consumed ∧ r.consumed ≤ input.length) := by
  have h1 : (Engine.unwrap k.engine input room).1 = .ok r := congrArg Prod.fst h
  have h2 : (Engine.unwrap k.engine input room).2 = k'.engine := congrArg (fun x => x.2.engine) h
  exact Engine.unwrap_ok (Prod.ext h1 h2) ok

end Engine

section Session

variable [Session S]

def state (k : Link E S) : SessionState := Session.state k.session

/-- Asks the session to move to a state. -/
def moveTo (k : Link E S) (state : SessionState) : Link E S :=
  { k with session := Session.moveTo k.session state }.log (.moveTo state)

/-- Adds a piece to the outgoing queue of the session. -/
def enqueue (k : Link E S) (piece : Bytes) : Link E S :=
  { k with session := Session.enqueue k.session piece }.log (.enqueue piece)

/-- Hands over a message to the session. -/
def deliver (k : Link E S) (message : Bytes) : Link E S :=
  { k with session := Session.deliver k.session message }.log (.deliver message)

variable [Engine E]

@[simp] theorem work_moveTo (k : Link E S) (state : SessionState) : (k.moveTo state).work = k.work := rfl

@[simp] theorem work_enqueue (k : Link E S) (piece : Bytes) : (k.enqueue piece).work = k.work := rfl

@[simp] theorem work_deliver (k : Link E S) (message : Bytes) : (k.deliver message).work = k.work := rfl

@[simp] theorem demand_enqueue (k : Link E S) (piece : Bytes) : (k.enqueue piece).demand = k.demand := rfl

end Session

end Link

end SecureStream
