import SecureStream.Proofs.Endpoint.Conversation
import SecureStream.Proofs.Frame.Draining

/-!
# Frames through a channel

Frames are written into a stream, the stream is cut into messages, the messages are wrapped in records and
sent over an open channel, the bytes of the records arrive in pieces, and a framer looks for frames in the
messages that come out at the other side.  No two of these cuts need to have anything to do with each other:
the frames arrive as they were (`frames_arrive`).
-/

namespace SecureStream

open Endpoint

namespace Endpoint

variable {isClient : Bool} {p : Endpoint}

/-! ### Many messages, many pieces -/

/-- On an open channel the records of all messages are queued. -/
theorem Plain.sendAll (h : p.Plain isClient) (hphase : p.face.phase = .established) (messages : List Bytes)
    (hroom : (messages.map fun message => p.options.wrappedSize message.length).sum + p.channel.pool.growth ≤
      p.channel.pool.limit) :
    (∀ turn ∈ (p.handleAll (messages.map .send)).1, ∃ response, turn.result = .ok response) ∧
      (p.handleAll (messages.map .send)).2.face =
        { p.face with queued := p.face.queued ++ Record.write (messages.flatMap p.options.recordsOf) } := by
  -- the first message leaves a plain end whose queue has grown, and room for the rest
  induction messages generalizing p with
  | nil =>
    rw [List.map_nil, handleAll_nil]
    refine ⟨fun _ hturn => absurd hturn List.not_mem_nil, ?_⟩
    show p.face = { p.face with queued := p.face.queued ++ [] }
    rw [List.append_nil]
  | cons message messages ih =>
    rw [List.map_cons, List.sum_cons] at hroom
    obtain ⟨hresult, hplain, hface⟩ := h.send hphase message (by omega)
    have hpool := pool_after_handle p (.send message)
    have hrest := ih hplain (by rw [hface]; exact hphase) (by
      rw [hpool]
      show (messages.map fun message => p.options.wrappedSize message.length).sum + _ ≤ _
      omega)
    rw [List.map_cons, handleAll_cons]
    refine ⟨List.forall_mem_cons.2 ⟨hresult, hrest.1⟩, ?_⟩
    rw [show ((p.after (p.handle (.send message))).handleAll (messages.map .send)).2.face = _ from hrest.2,
      hface, List.flatMap_cons, Record.write_append, ← List.append_assoc]
    rfl

/-- On an open channel all messages are received, in whatever pieces the bytes of their records arrive. -/
theorem Plain.receivePieces (h : p.Plain isClient) (hphase : p.face.phase = .established)
    {sent taken rest : List Record}
    {pieces : List Bytes} (hflow : Flows sent taken rest p.pending pieces.flatten)
    (hdata : ∀ r ∈ rest, r.kind = Record.data) (hroom : (Record.write rest).length ≤ p.channel.pool.limit) :
    (∀ turn ∈ (p.handleAll (pieces.map .receive)).1, ∃ response, turn.result = .ok response) ∧
      (p.handleAll (pieces.map .receive)).2.face =
        { p.face with pending := [], received := p.face.received ++ Record.payloads rest } := by
  -- each piece completes some of the records that are under way, and leaves a flow of the others
  induction pieces generalizing p taken rest with
  | nil =>
    obtain ⟨htaken, hpending⟩ := hflow.eq_of_outgoing rfl
    have hrest : rest = [] := List.append_right_eq_self.1 (htaken.trans hflow.sent_eq).symm
    subst hrest
    rw [List.map_nil, handleAll_nil]
    refine ⟨fun _ hturn => absurd hturn List.not_mem_nil, ?_⟩
    show p.face = { p.face with pending := [], received := p.face.received ++ [] }
    rw [List.append_nil, ← hpending]
    rfl
  | cons piece pieces ih =>
    rcases hparse : Record.grammar.parse (p.pending ++ piece) with ⟨records, left⟩
    have htake : (piece :: pieces).flatten.take piece.length = piece := List.take_left ..
    have hdrop : (piece :: pieces).flatten.drop piece.length = pieces.flatten := List.drop_left ..
    obtain ⟨rest', rfl, hnext⟩ := hflow.read (n := piece.length) (htake.symm ▸ hparse)
    have hreads : p.Reads piece := by
      refine reads_of_room h.ample h.sound piece ?_
      have hbytes := congrArg List.length hflow.bytes_eq
      rw [List.flatten_cons, List.length_append, List.length_append] at hbytes
      omega
    have hnow : ∀ r ∈ records, r.kind = Record.data := fun r hr => hdata r (List.mem_append_left _ hr)
    obtain ⟨hresult, hplain, hface⟩ := h.receive_data hreads hphase hparse hnow
    have hpool := pool_after_handle p (.receive piece)
    have hleft : (p.after (p.handle (.receive piece))).pending = left := congrArg (·.pending) hface
    rw [hdrop, ← hleft] at hnext
    have hrest := ih hplain (by rw [hface]; exact hphase) hnext
      (fun r hr => hdata r (List.mem_append_right _ hr)) (by
        rw [hpool]
        rw [Record.write_append, List.length_append] at hroom
        omega)
    rw [List.map_cons, handleAll_cons]
    refine ⟨List.forall_mem_cons.2 ⟨hresult, hrest.1⟩, ?_⟩
    rw [show ((p.after (p.handle (.receive piece))).handleAll (pieces.map .receive)).2.face = _ from
        hrest.2, hface,
      Record.payloads_append, ← List.append_assoc]

/-! ### Two ends that have met -/

section Meeting

variable {client server : Endpoint}

/-- The three turns of a handshake that succeeds. -/
private theorem turns_of_handshake (h : (handshake client server).result = .ok ()) :
    let started := client.handle .start
    let greeting := (client.after started).takeQueued
    let answered := server.handle (.receive greeting.1)
    let answering := (server.after answered).takeQueued
    let finished := greeting.2.handle (.receive answering.1)
    (∃ response, started.result = .ok response) ∧ (∃ response, answered.result = .ok response) ∧
      (∃ response, finished.result = .ok response) ∧
        (handshake client server).client = greeting.2.after finished ∧
      (handshake client server).server = answering.2 := by
  intro started greeting answered answering finished
  unfold handshake at h ⊢
  dsimp only at h ⊢
  rcases hstarted : (client.handle .start).result with e | response
  · rw [hstarted] at h
    cases h
  rw [hstarted] at h
  dsimp only at h ⊢
  rcases hanswered :
    (server.handle (.receive (client.after (client.handle .start)).takeQueued.1)).result with e | response'
  · rw [hanswered] at h
    cases h
  rw [hanswered] at h
  dsimp only at h ⊢
  have hmapped : finished.result.map (fun _ => ()) = .ok () := h
  rcases hfinished : finished.result with e | response''
  · rw [hfinished] at hmapped
    cases hmapped
  · exact ⟨⟨response, rfl⟩, ⟨response', rfl⟩, ⟨response'', rfl⟩, rfl, rfl⟩

private theorem reads_of_ok (h : p.Plain isClient) {input : Bytes}
    (hok : ∃ response, (p.handle (.receive input)).result = .ok response) : p.Reads input := by
  obtain ⟨response, hok⟩ := hok
  rcases receive_cases h.ample h.sound input with ⟨-, ⟨e, he⟩, -⟩ | hreads
  · change (p.receive input).result.map Response.outcome = _ at hok
    rw [he] at hok
    cases hok
  · exact hreads

/-- The first turn: the client starts. -/
private theorem start_of_ok (h : client.Plain true) (hidle : client.face.phase = .idle)
    (hqueued : client.face.queued = [])
    (hok : ∃ response, (client.handle .start).result = .ok response) :
    client.Shows true .start
      { client.face with phase := .awaitFinished, queued := Masked.helloRecord.toBytes } := by
  by_cases hhello : client.channel.pool.Holds client.options Masked.helloRecord
  · have hshows := h.start rfl hidle hhello
    rwa [hqueued, List.nil_append] at hshows
  · obtain ⟨response, hok⟩ := hok
    obtain ⟨e, he⟩ := h.start_fails rfl hidle hhello
    rw [hok] at he
    cases he

/-- The second turn: the server takes the hello and answers. -/
private theorem answer_of_ok (h : server.Plain false) (hidle : server.face.phase = .idle)
    (hpending : server.face.pending = [])
    (hqueued : server.face.queued = [])
    (hok : ∃ response, (server.handle (.receive Masked.helloRecord.toBytes)).result = .ok response) :
    server.Shows false (.receive Masked.helloRecord.toBytes)
      { server.face with phase := .established, queued := Masked.finishedRecord.toBytes } := by
  have hreads := reads_of_ok h hok
  have hparse : Record.grammar.parse (server.pending ++ Masked.helloRecord.toBytes) =
    ([Masked.helloRecord], []) := by
    rw [show server.pending = [] from hpending, List.nil_append]
    exact Record.parse_toBytes (by unfold Record.Fits; decide)
  by_cases hanswer : server.channel.pool.Holds server.options Masked.finishedRecord
  · have hshows := h.receive_hello hreads rfl hidle hanswer hparse rfl nofun
    rw [hqueued, List.nil_append] at hshows
    have hface : Face.mk server.face.options server.face.pool .established [] (server.face.received ++ [])
        Masked.finishedRecord.toBytes =
        { server.face with phase := .established, queued := Masked.finishedRecord.toBytes } :=
      Face.ext rfl rfl rfl hpending.symm (List.append_nil _) rfl
    exact hface ▸ hshows
  · obtain ⟨response, hok⟩ := hok
    obtain ⟨e, he⟩ := h.receive_fails hreads rfl hidle hanswer hparse rfl
    rw [hok] at he
    cases he

/-- The third turn: the client takes the answer. -/
private theorem finish_of_ok (h : client.Plain true) (hphase : client.face.phase = .awaitFinished)
    (hpending : client.face.pending = [])
    (hok : ∃ response, (client.handle (.receive Masked.finishedRecord.toBytes)).result = .ok response) :
    client.Shows true (.receive Masked.finishedRecord.toBytes)
      { client.face with phase := .established } := by
  have hparse : Record.grammar.parse (client.pending ++ Masked.finishedRecord.toBytes) =
    ([Masked.finishedRecord], []) := by
    rw [show client.pending = [] from hpending, List.nil_append]
    exact Record.parse_toBytes (by unfold Record.Fits; decide)
  have hshows := h.receive_finished (reads_of_ok h hok) hphase hparse rfl nofun
  have hface : Face.mk client.face.options client.face.pool .established [] (client.face.received ++ [])
      client.face.queued = { client.face with phase := .established } :=
    Face.ext rfl rfl rfl hpending.symm (List.append_nil _) rfl
  exact hface ▸ hshows

/-- A handshake that succeeds between two new ends opens both, and leaves nothing in between. -/
theorem Plain.of_handshake (hclient : client.Plain true) (hserver : server.Plain false)
    (hidle : client.face.phase = .idle ∧ server.face.phase = .idle)
    (hpending : client.face.pending = [] ∧ server.face.pending = [])
    (hqueued : client.face.queued = [] ∧ server.face.queued = [])
    (h : (handshake client server).result = .ok ()) :
    (handshake client server).client.Plain true ∧
      (handshake client server).client.face = { client.face with phase := .established } ∧
      (handshake client server).server.Plain false ∧
      (handshake client server).server.face = { server.face with phase := .established } := by
  obtain ⟨hstarted, hanswered, hfinished, hlast, hserved⟩ := turns_of_handshake h
  obtain ⟨hhello, hplain, hface⟩ := (start_of_ok hclient hidle.1 hqueued.1 hstarted).takeQueued
  rw [hhello] at hanswered hfinished hlast hserved
  obtain ⟨hanswer, hplain', hface'⟩ :=
    (answer_of_ok hserver hidle.2 hpending.2 hqueued.2 hanswered).takeQueued
  rw [hanswer] at hfinished hlast
  have hshows := finish_of_ok hplain (by rw [hface]) (by rw [hface]; exact hpending.1) hfinished
  rw [hlast, hserved, hshows.face_eq, hface, hface']
  exact ⟨hshows.plain, by rw [← hqueued.1], hplain', by rw [← hqueued.2]⟩

end Meeting

/-! ### Messages from one end to the other -/

/-- What an open end sends is what the other receives, whatever the messages and the pieces. -/
theorem Plain.transfer {client server : Endpoint} (hclient : client.Plain true) (hserver : server.Plain false)
    (hopen : client.face.phase = .established ∧ server.face.phase = .established)
    (hqueued : client.face.queued = [])
    (hpending : server.face.pending = []) (messages : List Bytes)
    (hroom : (messages.map fun message => client.options.wrappedSize message.length).sum +
      client.channel.pool.growth ≤ client.channel.pool.limit)
    (hlimit : (messages.map fun message => client.options.wrappedSize message.length).sum ≤
      server.channel.pool.limit) :
    (∀ turn ∈ (client.handleAll (messages.map .send)).1, ∃ response, turn.result = .ok response) ∧
      ∀ pieces : List Bytes, pieces.flatten = (client.handleAll (messages.map .send)).2.takeQueued.1 →
        (∀ turn ∈ (server.handleAll (pieces.map .receive)).1, ∃ response, turn.result = .ok response) ∧
          (server.handleAll (pieces.map .receive)).2.face =
            { server.face with received := server.face.received ++ messages.flatten } := by
  obtain ⟨hwrites, hface⟩ := hclient.sendAll hopen.1 messages hroom
  refine ⟨hwrites, fun pieces hpieces => ?_⟩
  have hrecords : ∀ r ∈ messages.flatMap client.options.recordsOf, r.kind = Record.data ∧ r.Fits := by
    intro r hr
    obtain ⟨message, -, hr⟩ := List.mem_flatMap.1 hr
    obtain ⟨hkind, -, hfits⟩ := client.options.mem_recordsOf hr
    exact ⟨hkind, hfits⟩
  have hbytes : pieces.flatten = Record.write (messages.flatMap client.options.recordsOf) := by
    rw [hpieces, show (client.handleAll (messages.map .send)).2.takeQueued.1 = _ from
      congrArg (·.queued) hface, hqueued]
    rfl
  have hflow : Flows (messages.flatMap client.options.recordsOf) []
      (messages.flatMap client.options.recordsOf) server.pending pieces.flatten := by
    refine ⟨rfl, ?_, ?_, fun r hr => (hrecords r hr).2⟩
    · rw [show server.pending = [] from hpending, hbytes]
      rfl
    · rw [show server.pending = [] from hpending]
      rfl
  obtain ⟨hreads, hlast⟩ := hserver.receivePieces hopen.2 hflow (fun r hr => (hrecords r hr).1) (by
    rw [client.options.length_flatMap_recordsOf]
    exact hlimit)
  refine ⟨hreads, ?_⟩
  rw [hlast, client.options.payloads_flatMap_recordsOf, ← hpending]

end Endpoint

/-- Frames within the limit of a framer arrive as they were, through any channel that a handshake has
opened, however the stream is cut into messages and the bytes of the records into reads.  Nothing is left
over at the end. -/
theorem frames_arrive (limit : Nat) (frames : List Frame) (hframes : ∀ f ∈ frames, f.header.length ≤ limit)
    (clientOptions serverOptions : MaskedOptions) (clientPool serverPool : Pool)
    (hfeigned : clientOptions.feignedOverflows = 0 ∧ serverOptions.feignedOverflows = 0)
    (hample : clientPool.IsAmple ∧ serverPool.IsAmple)
    (hopen : (handshake (connected true clientOptions clientPool)
      (connected false serverOptions serverPool)).result = .ok ()) :
    let pair := handshake (connected true clientOptions clientPool) (connected false serverOptions serverPool)
    ∃ stream, frames.foldlM (fun stream f => (Framer.ofLimit limit).put f stream) [] = .ok stream ∧
      ∀ messages : List Bytes, messages.flatten = stream →
        let size := (messages.map fun message => clientOptions.wrappedSize message.length).sum
        size + clientPool.growth ≤ clientPool.limit → size ≤ serverPool.limit →
        let writes := pair.client.handleAll (messages.map .send)
        (∀ turn ∈ writes.1, ∃ response, turn.result = .ok response) ∧
          ∀ pieces : List Bytes, pieces.flatten = writes.2.takeQueued.1 →
            let reads := pair.server.handleAll (pieces.map .receive)
            let decoded := (Framer.ofLimit limit).drainAll [] reads.2.session.received.toList
            (∀ turn ∈ reads.1, ∃ response, turn.result = .ok response) ∧
              decoded.1.flatMap Framer.Look.findings = frames.map .ok ∧ decoded.2.1.isInsideFrame = false ∧
              decoded.2.2 = [] ∧ reads.2.pending = [] := by
  intro pair
  have hclientFace := face_connected true clientOptions clientPool
  have hserverFace := face_connected false serverOptions serverPool
  obtain ⟨hclient, hclientOpen, hserver, hserverOpen⟩ : pair.client.Plain true ∧ pair.client.face = _ ∧
      pair.server.Plain false ∧ pair.server.face = _ :=
    Plain.of_handshake (plain_connected true hample.1 hfeigned.1) (plain_connected false hample.2 hfeigned.2)
      ⟨congrArg (·.phase) hclientFace, congrArg (·.phase) hserverFace⟩
      ⟨congrArg (·.pending) hclientFace, congrArg (·.pending) hserverFace⟩
      ⟨congrArg (·.queued) hclientFace, congrArg (·.queued) hserverFace⟩ hopen
  rw [hclientFace] at hclientOpen
  rw [hserverFace] at hserverOpen
  have hoptions : pair.client.options = clientOptions := congrArg (·.options) hclientOpen
  have hpools : pair.client.channel.pool = clientPool ∧ pair.server.channel.pool = serverPool :=
    ⟨congrArg (·.pool) hclientOpen, congrArg (·.pool) hserverOpen⟩
  refine ⟨_, Framer.foldlM_put hframes [], ?_⟩
  intro messages hmessages size hroom hlimit
  obtain ⟨hwrites, htransfer⟩ := hclient.transfer hserver
    ⟨congrArg (·.phase) hclientOpen, congrArg (·.phase) hserverOpen⟩ (congrArg (·.queued) hclientOpen)
    (congrArg (·.pending) hserverOpen) messages (by rw [hoptions, hpools.1]; exact hroom)
    (by rw [hoptions, hpools.2]; exact hlimit)
  refine ⟨hwrites, fun pieces hpieces => ?_⟩
  obtain ⟨hreads, hface⟩ := htransfer pieces hpieces
  rw [hserverOpen] at hface
  have hreceived : ((pair.server.handleAll (pieces.map .receive)).2.session.received.toList).flatten =
      messages.flatten := congrArg (·.received) hface
  obtain ⟨hfound, hbetween, hempty⟩ := Framer.drainAll_frames hframes (hreceived.trans hmessages)
  exact ⟨hreads, hfound, hbetween, hempty, congrArg (·.pending) hface⟩

/-- Two frames, of which the second is empty, in three messages, one of them empty, over records of four
bytes, in two reads that are cut inside the first record. -/
theorem frames_arrive_two :
    let frames : List Frame :=
      [⟨⟨3, 0, 1, 7, by decide, by decide⟩, [1, 2, 3], rfl⟩, ⟨⟨0, 2, 0, 9, by decide, by decide⟩, [], rfl⟩]
    let stream := frames.flatMap Frame.toBytes
    let pair := handshake (connected true ⟨0, 4, by decide, by decide⟩ .usual) (connected false .usual .usual)
    let writes := pair.client.handleAll ([stream.take 10, [], stream.drop 10].map .send)
    let bytes := writes.2.takeQueued.1
    let reads := pair.server.handleAll ([bytes.take 5, bytes.drop 5].map .receive)
    (∀ f ∈ frames, f.header.length ≤ 3) ∧ pair.result = .ok () ∧ Pool.usual.IsAmple ∧
      ((Framer.ofLimit 3).drainAll [] reads.2.session.received.toList).1.flatMap Framer.Look.findings =
        frames.map .ok ∧
      reads.2.pending = [] := by
  intro frames stream pair writes bytes reads
  have hframes : ∀ f ∈ frames, f.header.length ≤ 3 := by decide
  have hpool : Pool.usual.IsAmple := ⟨by decide, by decide⟩
  have hopen : pair.result = .ok () := by
    have hoption : pair.result.toOption = some () := by decide +kernel
    rcases hresult : pair.result with e | _
    · rw [hresult] at hoption
      cases hoption
    · rfl
  obtain ⟨stream', hstream, harrive⟩ :=
    frames_arrive 3 frames hframes ⟨0, 4, by decide, by decide⟩ .usual .usual .usual
    ⟨rfl, rfl⟩ ⟨hpool, hpool⟩ hopen
  have hsame : stream' = stream := Except.ok.inj (hstream.symm.trans (Framer.foldlM_put hframes []))
  subst hsame
  obtain ⟨-, hpieces⟩ := harrive [stream.take 10, [], stream.drop 10]
    (by simp) (by decide +kernel) (by decide +kernel)
  have hcut : [bytes.take 5, bytes.drop 5].flatten = bytes := by
    show bytes.take 5 ++ (bytes.drop 5 ++ []) = bytes
    rw [List.append_nil, List.take_append_drop]
  obtain ⟨-, hfound, -, -, hpending⟩ := hpieces [bytes.take 5, bytes.drop 5] hcut
  exact ⟨hframes, hopen, hpool, hfound, hpending⟩

end SecureStream
