import SecureStream.Bytes
import SecureStream.Session.Attributes

/-!
# Engines

An engine does the cryptography of a channel. It wraps outgoing bytes, unwraps incoming ones, and says what it needs
next to get on with its handshake. It writes its output to a free space of a given size, which it must not exceed. A
task that it hands out is not a value of its own: what running it does to the engine is said by `Engine.runTask`.

An engine gets somewhere: `work` bounds what it can still do without new input, and the laws say that a call which
leaves it alone and does not answer with a request for input lowers this bound. They make every loop of a channel end.
-/

namespace SecureStream

/-- What an engine needs next for its handshake. -/
inductive Demand where
  /-- Nothing: no handshake is going on. -/
  | none
  /-- A task must be run. -/
  | task
  /-- Output must be fetched. -/
  | output
  /-- Input must be brought. -/
  | input
  /-- Nothing: the handshake has just been completed. -/
  | finished
  deriving DecidableEq, Repr

def Demand.name : Demand → String
  | none => "NotHandshaking"
  | task => "NeedTask"
  | output => "NeedWrap"
  | input => "NeedUnwrap"
  | finished => "Finished"

/-- How a single call of an engine went. -/
inductive Verdict where
  /-- It is done. -/
  | ok
  /-- The input is not a complete record. -/
  | underflow
  /-- The space for output is too small. -/
  | overflow
  /-- The engine is closed in this direction. -/
  | closed
  deriving DecidableEq, Repr

def Verdict.text : Verdict → String
  | ok => "ok"
  | underflow => "buffer underflow"
  | overflow => "buffer overflow"
  | closed => "closed"

/-- What an engine answers to a call. -/
structure Reply where
  verdict : Verdict
  demand : Demand
  /-- How many bytes of the input it used, as it says. -/
  consumed : Nat
  /-- How many bytes of output it made, as it says. -/
  produced : Nat
  /-- What it wrote to the start of the space for output. -/
  output : Bytes
  deriving DecidableEq, Repr

namespace Reply

/-- The space was too small, and nothing happened. -/
def overflow (demand : Demand) : Reply := ⟨.overflow, demand, 0, 0, []⟩

/-- The input was not complete, and nothing happened. -/
def underflow (demand : Demand) : Reply := ⟨.underflow, demand, 0, 0, []⟩

end Reply

/-- Why an engine fails, and the cause of it if there is one. -/
structure EngineError where
  message : String
  cause : Option String
  deriving DecidableEq, Repr

def EngineError.ofMessage (message : String) : EngineError := ⟨message, none⟩

/-- What an engine is doing when it fails. -/
inductive Operation where
  | wrap
  | unwrap
  | task
  | startHandshake
  deriving DecidableEq, Repr

def Operation.text : Operation → String
  | wrap => "wrap"
  | unwrap => "unwrap"
  | task => "delegated task"
  | startHandshake => "begin handshake"

/-- What a channel needs of an engine. -/
class Engine (E : Type) where
  /-- Wraps input into at most `room` bytes of output. -/
  wrap (e : E) (input : Bytes) (room : Nat) : Except EngineError Reply × E
  /-- Unwraps one record into at most `room` bytes of output. -/
  unwrap (e : E) (input : Bytes) (room : Nat) : Except EngineError Reply × E
  /-- What the handshake needs next. -/
  demand (e : E) : Demand
  /-- Hands out the next task, if there is one. -/
  takeTask? (e : E) : Option E
  /-- The engine after a task that it handed out has been run. -/
  runTask (e : E) : E
  /-- Starts a handshake. -/
  startHandshake (e : E) : Except EngineError Unit × E
  /-- There is nothing more to send after the end. -/
  isOutputOver (e : E) : Bool
  /-- The largest record that the engine makes. -/
  largestRecord (e : E) : Nat
  setSide (e : E) (isClient : Bool) : E
  /-- Chooses how a client is asked for a certificate. -/
  setCertificatePolicy (e : E) (policy : CertificatePolicy) : E
  /-- A bound on what the engine can do without new input. -/
  work (e : E) : Nat
  work_wrap_le (e : E) (input : Bytes) (room : Nat) : work (wrap e input room).2 ≤ work e
  work_unwrap_le (e : E) (input : Bytes) (room : Nat) : work (unwrap e input room).2 ≤ work e
  work_takeTask_lt {e e' : E} (h : takeTask? e = some e') : work e' < work e
  work_runTask_le (e : E) : work (runTask e) ≤ work e
  /-- Wrapping nothing lowers the work, or makes no output and asks for no more wrapping. -/
  wrap_nil {e e' : E} {room : Nat} {r : Reply} (h : wrap e [] room = (.ok r, e')) :
    work e' < work e ∨ (r.produced = 0 ∧ (r.verdict = .ok ∨ r.verdict = .closed →
      r.demand ≠ .output ∧ (r.demand = .task → demand e' = .task)))
  /-- Unwrapping a record lowers the work or uses up input. -/
  unwrap_ok {e e' : E} {input : Bytes} {room : Nat} {r : Reply} (h : unwrap e input room = (.ok r, e'))
    (ok : r.verdict = .ok) : work e' < work e ∨ (0 < r.consumed ∧ r.consumed ≤ input.length)

end SecureStream
