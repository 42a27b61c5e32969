import SecureStream.Buffer.Backlog
import SecureStream.Channel.Handshake
import SecureStream.Channel.Records

/-!
# Channels

A `Channel` is a secure session processor, as far as it stays between the requests of a session: the engine once it is
there, whether a handshake is going on, and the input that waits for more. There are four requests.

* `Channel.prepare` makes the engine. Every other request does so too when there is none; there is never a second one.
* `Channel.start` starts the handshake.
* `Channel.receive` takes input, which belongs to the handshake or consists of records.
* `Channel.send` wraps a message, on an open channel only.

Each request gives a `Turn`: its result, the new states of channel and session, and all that was done on the way.
-/

namespace SecureStream

/-- What stays between the requests of a session. -/
structure Channel (E : Type) where
  pool : Pool
  runner : Runner
  engine : Option E
  /-- A handshake has been started and not completed. -/
  handshaking : Bool
  /-- Input that waits for more. It is never empty. -/
  backlog : Option Backlog
  deriving Repr

/-- Makes an engine for a session with the given peer. -/
abbrev EngineMaker (E : Type) := Option HostPort → Except EngineError E

/-- What a request gives. -/
structure Turn (E S α : Type) where
  result : Except ChannelError α
  channel : Channel E
  session : S
  /-- The calls of the engine and the session, oldest first. -/
  calls : Array Call
  /-- What there is to report, oldest first. -/
  notices : Array Notice

namespace Link

variable {E S : Type} [Engine E] [Session S]

/-- A new engine is told which side it is on, and as a server also how to ask for a certificate. -/
def configure (k : Link E S) : Link E S :=
  let isClient := Session.isClient k.session
  let attributes := Session.attributes k.session
  let sided := { k with engine := Engine.setSide k.engine isClient }.log (.setSide isClient)
  let asking :=
    if isClient then sided
    else
      { sided with engine := Engine.setCertificatePolicy sided.engine attributes.certificatePolicy }.log
        (.setCertificatePolicy attributes.certificatePolicy)
  asking.note (.engineCreated isClient attributes.peer attributes.certificatePolicy)

/-- Marks the start of a handshake, unless one is going on. -/
def enterHandshake (k : Link E S) : Link E S :=
  if k.handshaking then k else { k.moveTo .securing with handshaking := true }

/-- Starts the handshake of the engine and lets it go on without input. -/
def start (pool : Pool) (runner : Runner) (k : Link E S) : Except ChannelError Outcome × Link E S :=
  if k.state = .secured then (.ok (.secured 0), k)
  else
    match k.startHandshake with
    | (.error e, k) => (.error (.engine .startHandshake e), k)
    | (.ok (), k) =>
      let entered := k.enterHandshake
      match entered.shake pool runner 0 entered.demand [] with
      | (.error e, k) => (.error e, k)
      | (.ok (true, _), k) => (.ok (.secured 0), k)
      | (.ok (false, _), k) => (.ok .handshaking, k)

/-- Brings the input to the handshake, and what that leaves to the open channel. Gives what came of it and the input
that is left. -/
def readSecuring (pool : Pool) (runner : Runner) (k : Link E S) (input : Bytes) :
    Except ChannelError (Outcome × Bytes) × Link E S :=
  let entered := k.enterHandshake
  match entered.shake pool runner input.length entered.demand input with
  | (.error e, k) => (.error e, k)
  | (.ok (false, left), k) => (.ok (.handshaking, left), k)
  | (.ok (true, left), k) =>
    -- the first messages may stand right behind the last record of the handshake
    match k.unwrapRecords pool left with
    | (.error e, k) => (.error e, k)
    | (.ok (.closed, left), k) => (.ok (.closed, left), k)
    | (.ok (.delivered n, left), k) => (.ok (.secured n, left), k)
    | (.ok (_, left), k) => (.ok (.secured 0, left), k)

/-- Reads input. Gives what came of it and the input that is left. -/
def read (pool : Pool) (runner : Runner) (k : Link E S) (input : Bytes) :
    Except ChannelError (Outcome × Bytes) × Link E S :=
  if k.state = .secured then k.unwrapRecords pool input else k.readSecuring pool runner input

/-- Wraps a message and sends it in one piece. -/
def write (pool : Pool) (k : Link E S) (message : Bytes) : Except ChannelError Bytes × Link E S :=
  match k.wrapNew pool .application (pool.ciphertextRoom message.length) message with
  | (.error e, k) => (.error e, k)
  | (.ok (piece, _), k) => (.ok piece, (k.note (.dataWrapped message.length piece.length)).enqueue piece)

end Link

namespace Channel

variable {E S : Type}

/-- A channel without an engine. -/
def closed (pool : Pool) (runner : Runner) : Channel E := ⟨pool, runner, none, false, none⟩

def pendingLength (c : Channel E) : Nat := (c.backlog.map (·.bytes.length)).getD 0

def hasPending (c : Channel E) : Bool := c.backlog.isSome

def isPrepared (c : Channel E) : Bool := c.engine.isSome

/-- The turn after which a link is as given. -/
def turn {α : Type} (c : Channel E) (backlog : Option Backlog) (result : Except ChannelError α) (k : Link E S) :
    Turn E S α :=
  ⟨result, { c with engine := some k.engine, handshaking := k.handshaking, backlog }, k.session, k.calls, k.notices⟩

/-- Puts input behind the bytes that wait. -/
def gather (backlog : Option Backlog) (input : Bytes) : Except BufferError (Option Backlog × Bytes) :=
  match backlog with
  | none => .ok (none, input)
  | some b => (b.append input).map fun b => (some b, b.bytes)

/-- Lets the bytes that are left wait, in the buffer in which they came if there was one. -/
def retain (pool : Pool) (backlog : Option Backlog) (left : Bytes) : Except BufferError (Option Backlog) :=
  if left.isEmpty then .ok none
  else
    match backlog with
    | some b => .ok (some { b with bytes := left })
    | none => (Backlog.ofBytes? left pool).map some

theorem retain_cases {pool : Pool} {backlog backlog' : Option Backlog} {left : Bytes}
    (h : retain pool backlog left = .ok backlog') :
    (left = [] ∧ backlog' = none) ∨ left ≠ [] ∧
      ((∃ b, backlog = some b ∧ backlog' = some { b with bytes := left }) ∨
        ∃ b, backlog = none ∧ Backlog.ofBytes? left pool = .ok b ∧ backlog' = some b) := by
  unfold retain at h
  split at h
  · next hempty =>
    cases h
    exact .inl ⟨List.isEmpty_iff.1 hempty, rfl⟩
  · next hempty =>
    refine .inr ⟨mt List.isEmpty_iff.2 hempty, ?_⟩
    rcases backlog with _ | b
    · dsimp only at h
      rcases hbytes : Backlog.ofBytes? left pool with e | b
      · rw [hbytes] at h
        cases h
      · rw [hbytes] at h
        cases h
        exact .inr ⟨b, rfl, rfl, rfl⟩
    · cases h
      exact .inl ⟨b, rfl, rfl⟩

variable [Engine E] [Session S]

/-- Makes the engine if there is none, and serves a request through a link. -/
def serve {α : Type} (c : Channel E) (make : EngineMaker E) (s : S) (request : Link E S → Turn E S α) : Turn E S α :=
  match c.engine with
  | some engine => request ⟨engine, s, c.handshaking, #[], #[]⟩
  | none =>
    let peer := (Session.attributes s).peer
    match make peer with
    -- nothing is kept of the attempt, so that the next request makes another one
    | .error e => ⟨.error (.creation e), c, s, #[.create peer], #[]⟩
    | .ok engine => request (Link.configure ⟨engine, s, c.handshaking, #[.create peer], #[]⟩)

/-- Makes the engine if there is none. -/
def prepare (c : Channel E) (make : EngineMaker E) (s : S) : Turn E S Unit :=
  c.serve make s fun k => c.turn c.backlog (.ok ()) k

/-- Starts the handshake, and sends what the engine has to say first. -/
def start (c : Channel E) (make : EngineMaker E) (s : S) : Turn E S Outcome :=
  c.serve make s fun k =>
    let (result, k) := k.start c.pool c.runner
    c.turn c.backlog result k

/-- Takes input. A read that fails, or finds the channel closed, lets no input wait. -/
def receive (c : Channel E) (make : EngineMaker E) (s : S) (input : Bytes) : Turn E S Outcome :=
  c.serve make s fun k =>
    match gather c.backlog input with
    | .error e => c.turn none (.error (.buffer e)) k
    | .ok (backlog, pending) =>
      match k.read c.pool c.runner pending with
      | (.error e, k) => c.turn none (.error e) k
      | (.ok (.closed, _), k) => c.turn none (.ok .closed) k
      | (.ok (outcome, left), k) =>
        -- the result is known by now, and is lost when what is left cannot be kept
        match retain c.pool backlog left with
        | .error e => c.turn none (.error (.buffer e)) k
        | .ok backlog => c.turn backlog (.ok outcome) k

/-- Wraps a message and adds it to the outgoing queue in one piece, which is also the result. -/
def send (c : Channel E) (make : EngineMaker E) (s : S) (message : Bytes) : Turn E S Bytes :=
  if Session.state s = .secured then
    c.serve make s fun k =>
      let (result, k) := k.write c.pool message
      c.turn c.backlog result k
  -- before the channel is open not even an engine is made
  else ⟨.error .notSecured, c, s, #[], #[]⟩

end Channel

end SecureStream
