import SecureStream.Channel.Request
import SecureStream.Engine.Masked
import SecureStream.Session.Journal

/-!
# Endpoints

An `Endpoint` is a loopback peer, one end of a connection in memory: a channel with a `Masked` engine, and the journal
that it serves.
Two of them talk to each other by moving what one has queued to the other.

* `Endpoint.handshake` opens the channel between a client and a server.
-/

namespace SecureStream

/-- One end of a connection in memory. -/
structure Endpoint where
  options : MaskedOptions
  channel : Channel Masked
  session : Journal
  deriving Repr

namespace Endpoint

/-- One end of a connection that has just been made. -/
def connected (isClient : Bool) (options : MaskedOptions) (pool : Pool) : Endpoint :=
  ⟨options, .closed pool .onTheSpot, .connected isClient .unknown⟩

def make (p : Endpoint) : EngineMaker Masked := fun _ => .ok (.start p.options)

/-- An end after a request. -/
def after {α : Type} (p : Endpoint) (turn : Turn Masked Journal α) : Endpoint :=
  { p with channel := turn.channel, session := turn.session }

def handle (p : Endpoint) (request : Request) : Turn Masked Journal Response :=
  p.channel.handle p.make p.session request

/-- Serves requests one after the other. Gives all turns, and the end after them. -/
def handleAll (p : Endpoint) (requests : List Request) : List (Turn Masked Journal Response) × Endpoint :=
  -- every request may make the engine, always with the same options
  let (turns, channel, session) := p.channel.handleAll p.session (requests.map fun request => (p.make, request))
  (turns, { p with channel, session })

def takeQueued (p : Endpoint) : Bytes × Endpoint :=
  let (bytes, session) := p.session.takeQueued
  (bytes, { p with session })

/-- What a handshake between two ends gives. -/
structure Meeting where
  result : Except ChannelError Unit
  client : Endpoint
  server : Endpoint
  /-- What there is to report, oldest first. -/
  notices : Array Notice

/-- The client starts the handshake, the server takes what the client has queued, and the client takes the answer. The
first failure ends it. -/
def handshake (client server : Endpoint) : Meeting :=
  let started := client.handle .start
  let client := client.after started
  match started.result with
  | .error e => ⟨.error e, client, server, started.notices⟩
  | .ok _ =>
    let (hello, client) := client.takeQueued
    let answered := server.handle (.receive hello)
    let server := server.after answered
    match answered.result with
    | .error e => ⟨.error e, client, server, started.notices ++ answered.notices⟩
    | .ok _ =>
      let (answer, server) := server.takeQueued
      let finished := client.handle (.receive answer)
      ⟨finished.result.map fun _ => (), client.after finished, server,
        started.notices ++ answered.notices ++ finished.notices⟩

/-- A client and a server with the usual options that have met. -/
def openPair : Meeting :=
  handshake (connected true .usual .usual) (connected false .usual .usual)

end Endpoint

end SecureStream
