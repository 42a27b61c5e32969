import SecureStream.Proofs.Endpoint.Pieces
import SecureStream.Proofs.Standing.Opening

/-!
# Ends that feign nothing

An end is plain when its engine feigns no lack of room and its pool is ample.  Everything that its partner
and its session can see of it is in its `Face`.

As long as both sides follow the rules and there is room for what is sent and taken, every request to a
plain end succeeds and has a face that is known (`Endpoint.Shows`): see `Endpoint.Plain.start`,
`Endpoint.Plain.send`, `Endpoint.Plain.receive_nothing`, `Endpoint.Plain.receive_hello`,
`Endpoint.Plain.receive_finished` and `Endpoint.Plain.receive_data`.
-/

namespace SecureStream

@[ext] structure Face where
  options : MaskedOptions
  pool : Pool
  phase : MaskedPhase
  /-- The input that waits for more. -/
  pending : Bytes
  /-- All messages received, joined. -/
  received : Bytes
  /-- All pieces in the outgoing queue, joined. -/
  queued : Bytes

namespace Endpoint

def face (p : Endpoint) : Face :=
  ⟨p.options, p.channel.pool, p.standing.engine.phase, p.pending, p.session.receivedBytes,
    p.session.queued.toList.flatten⟩

/-- An end between requests whose engine feigns no overflow, in an ample pool. -/
structure Plain (p : Endpoint) (isClient : Bool) : Prop where
  ample : p.channel.pool.IsAmple
  sound : p.Sound
  options_eq : p.standing.engine.options = p.options
  feigned_eq : p.standing.engine.feignedOverflows = 0
  isClient_eq : p.standing.engine.isClient = isClient

/-- The request succeeds, and leaves a plain end that shows the given face. -/
structure Shows (p : Endpoint) (isClient : Bool) (request : Request) (face : Face) : Prop where
  result : ∃ response, (p.handle request).result = .ok response
  plain : (p.after (p.handle request)).Plain isClient
  face_eq : (p.after (p.handle request)).face = face

variable {p : Endpoint} {isClient : Bool}

theorem plain_connected (isClient : Bool) {options : MaskedOptions} {pool : Pool} (hp : pool.IsAmple)
    (hfeigned : options.feignedOverflows = 0) : (connected isClient options pool).Plain isClient := by
  have hsound := sound_connected isClient options pool
  cases isClient with
  | true => exact ⟨hp, hsound, rfl, hfeigned, rfl⟩
  | false => exact ⟨hp, hsound, rfl, hfeigned, rfl⟩

theorem face_connected (isClient : Bool) (options : MaskedOptions) (pool : Pool) :
    (connected isClient options pool).face = ⟨options, pool, .idle, [], [], []⟩ := by
  cases isClient with
  | true => rfl
  | false => rfl

theorem face_moved (p : Endpoint) (s : Standing) (backlog : Option Backlog) :
    (p.moved s backlog).face =
      ⟨p.options, p.channel.pool, s.engine.phase, (backlog.map (·.bytes)).getD [], s.session.receivedBytes,
        s.session.queued.toList.flatten⟩ := rfl

/-! ### The outgoing queue -/

private theorem fresh_eq (p : Endpoint) :
    p.fresh =
      if p.session.isClient = true then Engine.setSide (Masked.start p.options) true
      else
        Engine.setCertificatePolicy (Engine.setSide (Masked.start p.options) false)
          p.session.attributes.certificatePolicy := by
  have hside : Session.isClient p.session = p.session.isClient := rfl
  unfold fresh Link.configure
  dsimp only
  rw [hside]
  cases p.session.isClient with
  | true => rfl
  | false => rfl

theorem phase_fresh (p : Endpoint) : p.fresh.phase = .idle := by
  rw [fresh_eq]
  split <;> rfl

theorem standing_takeQueued (p : Endpoint) :
    p.takeQueued.2.standing = { p.standing with session := { p.session with queued := #[] } } := by
  have hfresh : p.takeQueued.2.fresh = p.fresh := by
    rw [fresh_eq, fresh_eq]
    rfl
  show Standing.mk (p.channel.engine.getD p.takeQueued.2.fresh) _ _ = _
  rw [hfresh]
  rfl

theorem Sound.takeQueued (h : p.Sound) : p.takeQueued.2.Sound := by
  refine ⟨?_, h.runner, h.backlog⟩
  rw [standing_takeQueued]
  exact ⟨h.standing.secured_iff, h.standing.taskRun, h.standing.isOutputOver⟩

theorem Plain.takeQueued (h : p.Plain isClient) : p.takeQueued.2.Plain isClient := by
  have hstanding := standing_takeQueued p
  refine ⟨h.ample, h.sound.takeQueued, ?_, ?_, ?_⟩
  · rw [hstanding]
    exact h.options_eq
  · rw [hstanding]
    exact h.feigned_eq
  · rw [hstanding]
    exact h.isClient_eq

theorem face_takeQueued (p : Endpoint) : p.takeQueued.2.face = { p.face with queued := [] } := by
  unfold face
  rw [standing_takeQueued]
  rfl

theorem Shows.takeQueued {request : Request} {face : Face} (h : p.Shows isClient request face) :
    (p.after (p.handle request)).takeQueued.1 = face.queued ∧
      (p.after (p.handle request)).takeQueued.2.Plain isClient ∧
      (p.after (p.handle request)).takeQueued.2.face = { face with queued := [] } := by
  refine ⟨?_, h.plain.takeQueued, ?_⟩
  · rw [← h.face_eq]
    rfl
  · rw [face_takeQueued, h.face_eq]

/-! ### Sending -/

namespace Plain

variable (h : p.Plain isClient)

include h

theorem isSecured_iff : p.standing.IsSecured ↔ p.face.phase = .established := h.sound.standing.secured_iff

/-- A request that succeeds, and changes nothing but the phase of the engine and its task, leaves a plain
end. -/
private theorem shows_of_moved {request : Request} {s : Standing} {backlog : Option Backlog} {face : Face}
    (hresult : ∃ response, (p.handle request).result = .ok response)
    (hafter : p.after (p.handle request) = p.moved s backlog)
    (hoptions : s.engine.options = p.standing.engine.options)
    (hfeigned : s.engine.feignedOverflows = p.standing.engine.feignedOverflows)
    (hclient : s.engine.isClient = p.standing.engine.isClient) (hface : (p.moved s backlog).face = face) :
    p.Shows isClient request face := by
  have hsound := h.sound.handle h.ample request
  rw [hafter] at hsound
  refine ⟨hresult, ?_, ?_⟩
  · rw [hafter]
    exact ⟨h.ample, hsound, hoptions.trans h.options_eq, hfeigned.trans h.feigned_eq,
      hclient.trans h.isClient_eq⟩
  · rw [hafter]
    exact hface

theorem start (hclient : isClient = true) (hphase : p.face.phase = .idle)
    (hhello : p.channel.pool.Holds p.options Masked.helloRecord) :
    p.Shows isClient .start
      { p.face with phase := .awaitFinished, queued := p.face.queued ++ Masked.helloRecord.toBytes } := by
  have hsecured : ¬ p.standing.IsSecured := by
    rw [h.isSecured_iff, hphase]
    nofun
  obtain ⟨hresult, hafter⟩ := start_eq h.ample h.sound
  rw [← h.options_eq] at hhello
  rw [Standing.start_of_idle hsecured hphase (h.isClient_eq.trans hclient) hhello] at hresult hafter
  refine h.shows_of_moved ⟨.outcome .handshaking, ?_⟩ hafter rfl rfl rfl ?_
  · show (p.channel.start p.make p.session).result.map Response.outcome = _
    rw [hresult]
    rfl
  · have hqueued : (p.standing.enter.session.queued.push Masked.helloRecord.toBytes).toList.flatten =
        p.session.queued.toList.flatten ++ Masked.helloRecord.toBytes := by
      rw [Standing.queued_enter]
      simp [standing]
    rw [face_moved]
    exact Face.ext rfl rfl rfl rfl Standing.receivedBytes_enter hqueued

theorem start_fails (hclient : isClient = true) (hphase : p.face.phase = .idle)
    (hhello : ¬ p.channel.pool.Holds p.options Masked.helloRecord) :
      ∃ e, (p.handle .start).result = .error e := by
  have hsecured : ¬ p.standing.IsSecured := by
    rw [h.isSecured_iff, hphase]
    nofun
  rw [← h.options_eq] at hhello
  obtain ⟨e, he⟩ := Standing.start_fails hsecured hphase (h.isClient_eq.trans hclient) hhello
  refine ⟨e, ?_⟩
  show (p.channel.start p.make p.session).result.map Response.outcome = _
  rw [(start_eq h.ample h.sound).1, he]
  rfl

theorem send (hphase : p.face.phase = .established) (message : Bytes)
    (hroom : p.options.wrappedSize message.length + p.channel.pool.growth ≤ p.channel.pool.limit) :
    p.Shows isClient (.send message)
      { p.face with queued := p.face.queued ++ Record.write (p.options.recordsOf message) } := by
  obtain ⟨k, hk, hresult, hafter⟩ := exists_send (h.isSecured_iff.2 hphase) message
  have hengine : k.engine = p.standing.engine := congrArg (·.engine) hk
  have hwrite := Link.bare_write (k := k) h.ample
    (by rw [hengine]; exact hphase) (by rw [hengine]; exact h.feigned_eq)
    message (by rw [hengine, h.options_eq]; exact hroom)
  rw [hengine, h.options_eq, hk] at hwrite
  obtain ⟨hok, hmoved⟩ := Prod.mk.inj hwrite
  refine h.shows_of_moved ⟨.sent (Record.write (p.options.recordsOf message)), ?_⟩
    (hafter.trans (congrArg (p.moved · _) hmoved)) rfl rfl rfl ?_
  · show (p.channel.send p.make p.session message).result.map Response.sent = _
    rw [hresult, hok]
    rfl
  · have hqueued : (p.session.queued.push (Record.write (p.options.recordsOf message))).toList.flatten =
        p.session.queued.toList.flatten ++ Record.write (p.options.recordsOf message) := by simp
    rw [face_moved]
    exact Face.ext rfl rfl rfl rfl rfl hqueued

theorem send_early (hphase : p.face.phase ≠ .established) (message : Bytes) :
    (p.handle (.send message)).result = .error .notSecured ∧ p.after (p.handle (.send message)) = p := by
  obtain ⟨hresult, hafter⟩ := send_of_not_isSecured (mt h.isSecured_iff.1 hphase) message
  refine ⟨?_, hafter⟩
  show (p.channel.send p.make p.session message).result.map Response.sent = _
  rw [hresult]
  rfl

/-! ### Taking input -/

variable {input left : Bytes} {r : Record} {records : List Record}
variable (hreads : p.Reads input)

include hreads

/-- A read of records that are all taken succeeds. -/
private theorem receive_of_acceptAll (hparse : Record.grammar.parse (p.pending ++ input) = (records, left))
    {settled after : Standing} {n : Nat} (hsettle : p.standing.settle p.channel.pool = (.ok (), settled))
    (haccept : settled.acceptAll p.channel.pool records = (.ok n, after))
    (hoptions : after.engine.options = p.standing.engine.options)
    (hfeigned : after.engine.feignedOverflows = p.standing.engine.feignedOverflows)
    (hclient : after.engine.isClient = p.standing.engine.isClient) {received queued : Bytes}
    (hreceived : after.session.receivedBytes = received)
    (hqueued : after.session.queued.toList.flatten = queued) :
    p.Shows isClient (.receive input)
      { p.face with phase := after.engine.phase, pending := left, received, queued } := by
  unfold Reads at hreads
  rw [Standing.read_of_settle hsettle, hparse, haccept] at hreads
  obtain ⟨hresult, backlog, hafter, hheld, -⟩ := hreads
  refine h.shows_of_moved ⟨.outcome (p.standing.outcome after (p.pending ++ input) left n), ?_⟩ hafter
    hoptions hfeigned hclient ?_
  · show (p.receive input).result.map Response.outcome = _
    rw [hresult]
    rfl
  · have hpending := pending_of_held (p := p) (s := after) hheld
    rw [face_moved]
    exact Face.ext rfl rfl rfl hpending hreceived hqueued

/-- Before there is a complete record, nothing changes but the input that waits. -/
theorem receive_nothing (hphase : p.face.phase = .idle ∨ p.face.phase = .awaitFinished)
    (hparse : Record.grammar.parse (p.pending ++ input) = ([], left)) :
    p.Shows isClient (.receive input) { p.face with pending := left } := by
  have hsecured : ¬ p.standing.IsSecured := by
    rw [h.isSecured_iff]
    rcases hphase with hphase | hphase <;> (rw [hphase]; nofun)
  have hengine := Standing.engine_enter (s := p.standing)
  have hqueued := congrArg (·.toList.flatten) (Standing.queued_enter (s := p.standing))
  have hshows := h.receive_of_acceptAll hreads hparse (Standing.settle_of_waiting hsecured hphase) rfl
    (congrArg (·.options) hengine) (congrArg (·.feignedOverflows) hengine) (congrArg (·.isClient) hengine)
    Standing.receivedBytes_enter hqueued
  rw [hengine] at hshows
  exact hshows

theorem receive_data (hphase : p.face.phase = .established)
    (hparse : Record.grammar.parse (p.pending ++ input) = (records, left))
    (hdata : ∀ r ∈ records, r.kind = Record.data) :
    p.Shows isClient (.receive input)
      { p.face with pending := left, received := p.face.received ++ Record.payloads records } := by
  have hsecured : p.standing.IsSecured := h.isSecured_iff.2 hphase
  have hreceived := Journal.receivedBytes_deliverAll p.session (Record.messages records)
  rw [Record.flatten_messages] at hreceived
  exact h.receive_of_acceptAll hreads hparse (Standing.settle_of_isSecured hsecured)
    (Standing.acceptAll_of_data hphase hdata) rfl rfl rfl hreceived rfl

theorem receive_hello (hserver : isClient = false) (hphase : p.face.phase = .idle)
    (hanswer : p.channel.pool.Holds p.options Masked.finishedRecord)
    (hparse : Record.grammar.parse (p.pending ++ input) = (r :: records, left))
    (hkind : r.kind = Record.handshake)
    (hdata : ∀ r ∈ records, r.kind = Record.data) :
    p.Shows isClient (.receive input)
      { p.face with
        phase := .established
        pending := left
        received := p.face.received ++ Record.payloads records
        queued := p.face.queued ++ Masked.finishedRecord.toBytes } := by
  have hsecured : ¬ p.standing.IsSecured := by
    rw [h.isSecured_iff, hphase]
    nofun
  have hengine := Standing.engine_enter (s := p.standing)
  rw [← h.options_eq] at hanswer
  have hreceived :
      (((p.standing.enter.session.enqueue Masked.finishedRecord.toBytes).moveTo .secured).deliverAll
        (Record.messages records)).receivedBytes = p.face.received ++ Record.payloads records := by
    rw [Journal.receivedBytes_deliverAll, Record.flatten_messages]
    exact congrArg (· ++ _) Standing.receivedBytes_enter
  have hqueued : (p.standing.enter.session.queued.push Masked.finishedRecord.toBytes).toList.flatten =
      p.face.queued ++ Masked.finishedRecord.toBytes := by
    rw [Standing.queued_enter]
    simp [face, standing]
  exact h.receive_of_acceptAll hreads hparse (Standing.settle_of_waiting hsecured (.inl hphase))
    (Standing.acceptAll_of_hello (hengine ▸ hphase) (hengine ▸ h.isClient_eq.trans hserver) hkind
      (hengine ▸ hanswer) hdata)
    (congrArg (·.options) hengine) (congrArg (·.feignedOverflows) hengine) (congrArg (·.isClient) hengine)
    hreceived
    hqueued

theorem receive_fails (hserver : isClient = false) (hphase : p.face.phase = .idle)
    (hanswer : ¬ p.channel.pool.Holds p.options Masked.finishedRecord)
    (hparse : Record.grammar.parse (p.pending ++ input) = (r :: records, left))
    (hkind : r.kind = Record.handshake) :
    ∃ e, (p.handle (.receive input)).result = .error e := by
  have hsecured : ¬ p.standing.IsSecured := by
    rw [h.isSecured_iff, hphase]
    nofun
  have hengine := Standing.engine_enter (s := p.standing)
  rw [← h.options_eq] at hanswer
  obtain ⟨e, s, hfails⟩ : ∃ e s,
      p.standing.enter.acceptAll p.channel.pool (r :: records) = (.error (.failed e), s) :=
    Standing.acceptAll_fails (hengine ▸ hphase) (hengine ▸ h.isClient_eq.trans hserver) hkind
      (hengine ▸ hanswer)
  unfold Reads at hreads
  rw [Standing.read_of_settle (Standing.settle_of_waiting hsecured (.inl hphase)), hparse, hfails] at hreads
  refine ⟨e, ?_⟩
  show (p.receive input).result.map Response.outcome = _
  rw [hreads.1]
  rfl

theorem receive_finished (hphase : p.face.phase = .awaitFinished)
    (hparse : Record.grammar.parse (p.pending ++ input) = (r :: records, left))
    (hkind : r.kind = Record.handshake)
    (hdata : ∀ r ∈ records, r.kind = Record.data) :
    p.Shows isClient (.receive input)
      { p.face with
        phase := .established
        pending := left
        received := p.face.received ++ Record.payloads records } := by
  have hsecured : ¬ p.standing.IsSecured := by
    rw [h.isSecured_iff, hphase]
    nofun
  have hengine := Standing.engine_enter (s := p.standing)
  have hreceived :
      ((p.standing.enter.session.moveTo .secured).deliverAll (Record.messages records)).receivedBytes =
        p.face.received ++ Record.payloads records := by
    rw [Journal.receivedBytes_deliverAll, Record.flatten_messages]
    exact congrArg (· ++ _) Standing.receivedBytes_enter
  have hqueued := congrArg (·.toList.flatten) (Standing.queued_enter (s := p.standing))
  exact h.receive_of_acceptAll hreads hparse (Standing.settle_of_waiting hsecured (.inr hphase))
    (Standing.acceptAll_of_finished (hengine ▸ hphase) hkind hdata) (congrArg (·.options) hengine)
    (congrArg (·.feignedOverflows) hengine) (congrArg (·.isClient) hengine) hreceived hqueued

end Plain

end Endpoint

end SecureStream
