import SecureStream.Proofs.Endpoint.Plain

/-!
# Conversations

A client and a server, and the bytes that are under way between them.  A `Step` is one request to one of the
two, in any order: the client starts the handshake, a side writes a message, or a side reads some of the
bytes that are under way to it, cut at any place.  What a side queues is under way at once.

`Flows` and `Reaches` follow the records that one side has sent through the bytes under way and the input
that waits to the messages that the other side has received.
-/

namespace SecureStream

structure Side where
  endpoint : Endpoint
  /-- The bytes under way to the other side. -/
  outgoing : Bytes
  /-- The messages that were written while the channel was open, oldest first. -/
  submitted : List Bytes

namespace Side

def made (isClient : Bool) (options : MaskedOptions) (pool : Pool) : Side :=
  ⟨.connected isClient options pool, [], []⟩

def IsSecured (side : Side) : Prop := side.endpoint.session.state = .secured

instance (side : Side) : Decidable side.IsSecured := inferInstanceAs (Decidable (_ = _))

/-- The side after a turn of its end.  What the session has queued is under way. -/
def after {α : Type} (side : Side) (turn : Turn Masked Journal α) : Side :=
  let (bytes, endpoint) := (side.endpoint.after turn).takeQueued
  { side with endpoint, outgoing := side.outgoing ++ bytes }

/-- The record that a side sends first. -/
def opening (isClient : Bool) : Record := if isClient then Masked.helloRecord else Masked.finishedRecord

/-- The number of bytes of all that a side has sent, its part of the handshake included. -/
def load (isClient : Bool) (side : Side) : Nat :=
  (opening isClient).toBytes.length +
    (side.submitted.map fun message => side.endpoint.options.wrappedSize message.length).sum

end Side

structure Conversation where
  client : Side
  server : Side

inductive Step where
  | start
  | write (isClient : Bool) (message : Bytes)
  /-- A side reads at most `n` of the bytes under way to it. -/
  | read (isClient : Bool) (n : Nat)
  deriving DecidableEq, Repr

namespace Conversation

def made (clientOptions serverOptions : MaskedOptions) (clientPool serverPool : Pool) : Conversation :=
  ⟨.made true clientOptions clientPool, .made false serverOptions serverPool⟩

def side (c : Conversation) : Bool → Side
  | true => c.client
  | false => c.server

def withSide (c : Conversation) (isClient : Bool) (side : Side) : Conversation :=
  match isClient with
  | true => { c with client := side }
  | false => { c with server := side }

@[simp] theorem side_withSide (c : Conversation) (isClient : Bool) (side : Side) :
    (c.withSide isClient side).side isClient = side := by
  cases isClient <;> rfl

def step (c : Conversation) : Step → Except ChannelError Response × Conversation
  | .start =>
    let turn := c.client.endpoint.handle .start
    (turn.result, { c with client := c.client.after turn })
  | .write isClient message =>
    let writer := c.side isClient
    let turn := writer.endpoint.handle (.send message)
    let submitted := if writer.IsSecured then writer.submitted ++ [message] else writer.submitted
    (turn.result, c.withSide isClient { writer.after turn with submitted })
  | .read isClient n =>
    let reader := c.side isClient
    let sender := c.side (!isClient)
    let turn := reader.endpoint.handle (.receive (sender.outgoing.take n))
    (turn.result,
      (c.withSide isClient (reader.after turn)).withSide (!isClient)
        { sender with outgoing := sender.outgoing.drop n })

theorem step_write_of_isSecured {c : Conversation} {isClient : Bool} (h : (c.side isClient).IsSecured)
    (message : Bytes) :
    (c.step (.write isClient message)).2 = c.withSide isClient
      { (c.side isClient).after ((c.side isClient).endpoint.handle (.send message)) with
        submitted := (c.side isClient).submitted ++ [message] } := by
  unfold step
  dsimp only
  rw [if_pos h]

theorem step_write_of_early {c : Conversation} {isClient : Bool} (h : ¬ (c.side isClient).IsSecured)
    (message : Bytes) :
    (c.step (.write isClient message)).2 =
      c.withSide isClient ((c.side isClient).after ((c.side isClient).endpoint.handle (.send message))) := by
  unfold step
  dsimp only
  rw [if_neg h]
  rfl

/-- The conversation after steps, whatever comes of them. -/
def run (c : Conversation) (steps : List Step) : Conversation := steps.foldl (fun c s => (c.step s).2) c

theorem run_append (c : Conversation) (a b : List Step) : c.run (a ++ b) = (c.run a).run b :=
  List.foldl_append

/-- All that each side has sent fits into a buffer of each side, with one step of either side to spare. -/
def HasRoom (c : Conversation) : Prop :=
  ∀ sender grower holder : Bool,
    (c.side sender).load sender + (c.side grower).endpoint.channel.pool.growth ≤
      (c.side holder).endpoint.channel.pool.limit

instance (c : Conversation) : Decidable c.HasRoom := inferInstanceAs (Decidable (∀ _ _ _ : Bool, _))

def IsEarly (c : Conversation) : Step → Prop
  | .write isClient _ => ¬ (c.side isClient).IsSecured
  | .start | .read .. => False

/-- The next step succeeds, unless it is a write that comes too early. -/
structure Goes (c : Conversation) (s : Step) : Prop where
  turned_down : c.IsEarly s → (c.step s).1 = .error .notSecured
  succeeds : ¬ c.IsEarly s → ∃ response, (c.step s).1 = .ok response

/-- Both sides agree on how far they are, and on what has been said.  `begun` says that the client has
started the handshake. -/
structure Agrees (c : Conversation) (begun : Prop) : Prop where
  received_prefix : ∀ i, (c.side i).endpoint.session.receivedBytes <+: (c.side (!i)).submitted.flatten
  begun_of_secured : c.server.IsSecured → begun
  server_of_client : c.client.IsSecured → c.server.IsSecured
  server_of_begun : begun → c.client.outgoing = [] → c.server.IsSecured
  client_of_server : c.server.IsSecured → c.server.outgoing = [] → c.client.IsSecured
  received_eq : ∀ i, (c.side (!i)).outgoing = [] →
    (c.side i).endpoint.session.receivedBytes = (c.side (!i)).submitted.flatten
  pending_eq : ∀ i, (c.side (!i)).outgoing = [] → (c.side i).endpoint.pending = []

end Conversation

/-! ### Records under way -/

/-- Of the records that were sent, some have been taken, and the bytes of the others wait or are under way. -/
structure Flows (sent taken rest : List Record) (pending outgoing : Bytes) : Prop where
  sent_eq : sent = taken ++ rest
  bytes_eq : pending ++ outgoing = Record.write rest
  next?_eq : Record.next? pending = none
  fits : ∀ r ∈ sent, r.Fits

namespace Flows

variable {sent taken rest : List Record}
  {pending outgoing : Bytes} (h : Flows sent taken rest pending outgoing)

include h

theorem send {records : List Record} (hfits : ∀ r ∈ records, r.Fits) :
    Flows (sent ++ records) taken (rest ++ records) pending (outgoing ++ Record.write records) := by
  refine ⟨?_, ?_, h.next?_eq, ?_⟩
  · rw [h.sent_eq, List.append_assoc]
  · rw [← List.append_assoc, h.bytes_eq, Record.write_append]
  · intro r hr
    rcases List.mem_append.1 hr with hr | hr
    · exact h.fits r hr
    · exact hfits r hr

/-- Whatever part of the bytes under way is read, the records that it completes are the next that were
sent. -/
theorem read {n : Nat} {records : List Record} {left : Bytes}
    (hparse : Record.grammar.parse (pending ++ outgoing.take n) = (records, left)) :
    ∃ rest', rest = records ++ rest' ∧ Flows sent (taken ++ records) rest' left (outgoing.drop n) := by
  have hall : pending ++ outgoing.take n ++ outgoing.drop n = Record.write rest := by
    rw [List.append_assoc, List.take_append_drop, h.bytes_eq]
  -- all that waits and is under way spells the rest, so what was read begins with its first records
  have hspells : Record.grammar.parse (Record.write rest) = (rest, []) :=
    Record.spells_write fun r hr => h.fits r (h.sent_eq ▸ List.mem_append_right _ hr)
  have hwritten := Record.write_parse (pending ++ outgoing.take n)
  have hnone := Record.grammar.first?_left (pending ++ outgoing.take n)
  rw [← hall, Grammar.parse_append, hparse] at hspells
  rw [hparse] at hwritten hnone
  obtain ⟨hrest, -⟩ := Prod.mk.inj hspells
  refine ⟨_, hrest.symm, ?_, ?_, hnone, h.fits⟩
  · rw [List.append_assoc, hrest, h.sent_eq]
  · refine List.append_cancel_left (?_ : Record.write records ++ _ = Record.write records ++ _)
    rw [← List.append_assoc, hwritten, hall, ← Record.write_append, hrest]

/-- When nothing is under way, nothing waits, and all records have been taken. -/
theorem eq_of_outgoing (hnil : outgoing = []) : taken = sent ∧ pending = [] := by
  obtain ⟨hsent, hbytes, hnext, hfits⟩ := h
  rw [hnil, List.append_nil] at hbytes
  cases rest with
  | nil => exact ⟨by rw [hsent, List.append_nil], hbytes⟩
  | cons r rest =>
    have hr : r.Fits := hfits r (by rw [hsent]; exact List.mem_append_right _ (List.mem_cons_self ..))
    -- a record that has arrived in full would not wait
    rw [hbytes, Record.write_cons, Record.next?_toBytes_append hr] at hnext
    cases hnext

end Flows

end SecureStream
