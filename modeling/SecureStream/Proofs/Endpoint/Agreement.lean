import SecureStream.Proofs.Endpoint.Conversation

/-!
# Both sides agree

`Conversation.Inv` is what holds between any two steps of a conversation in which there is room for all that
is sent: each side is where its part of the handshake left it, and what it has sent reaches the other side
in order.  It is kept by every step (`Conversation.Inv.start`, `Conversation.Inv.write`,
`Conversation.Inv.read`), whatever bytes are read at once, and so by every run.

From it follows `Conversation.run_agrees`: no step fails, except for a write that comes too early; each side
has received the beginning of what the other has submitted; and once nothing is under way to a side, it has
received all of it.
-/

namespace SecureStream

/-! ### What a side has sent -/

namespace Side

def sent (isClient : Bool) (side : Side) : List Record :=
  if side.endpoint.face.phase = .idle then []
  else opening isClient :: side.submitted.flatMap side.endpoint.options.recordsOf

/-- A side between two steps. -/
structure Calm (isClient : Bool) (side : Side) : Prop where
  plain : side.endpoint.Plain isClient
  queued_eq : side.endpoint.face.queued = []
  phase : side.endpoint.face.phase = .idle ∨ (isClient = true ∧ side.endpoint.face.phase = .awaitFinished) ∨
    side.endpoint.face.phase = .established
  submitted_eq : side.endpoint.face.phase ≠ .established → side.submitted = []

/-- What a side does in a step: it sends records, and reads or does not. -/
structure Moves (isClient : Bool) (side next : Side) (records : List Record) : Prop where
  calm : next.Calm isClient
  sent_eq : next.sent isClient = side.sent isClient ++ records
  outgoing_eq : next.outgoing = side.outgoing ++ Record.write records

variable {isClient : Bool} {side : Side}

theorem kind_opening (isClient : Bool) : (opening isClient).kind = Record.handshake := by
  cases isClient <;> rfl

theorem sent_eq_nil_iff (isClient : Bool) (side : Side) :
    side.sent isClient = [] ↔ side.endpoint.face.phase = .idle := by
  unfold sent
  split
  · next hidle => exact iff_of_true rfl hidle
  · next hidle => exact iff_of_false nofun hidle

theorem mem_tail_sent {r : Record} (hr : r ∈ (side.sent isClient).tail) : r.kind = Record.data := by
  unfold sent at hr
  split at hr
  · cases hr
  · rw [List.tail_cons, List.mem_flatMap] at hr
    obtain ⟨message, -, hr⟩ := hr
    exact (side.endpoint.options.mem_recordsOf hr).1

theorem head_sent {r : Record} {records : List Record} (h : side.sent isClient = r :: records) :
    r.kind = Record.handshake := by
  unfold sent at h
  split at h
  · cases h
  · cases h
    exact kind_opening isClient

theorem fits_sent (isClient : Bool) (side : Side) : ∀ r ∈ side.sent isClient, r.Fits := by
  intro r hr
  unfold sent at hr
  split at hr
  · cases hr
  · rcases List.mem_cons.1 hr with rfl | hr
    · cases isClient <;> (unfold Record.Fits; decide +kernel)
    · obtain ⟨message, -, hr⟩ := List.mem_flatMap.1 hr
      exact (side.endpoint.options.mem_recordsOf hr).2.2

theorem length_sent_le (isClient : Bool) (side : Side) :
    (Record.write (side.sent isClient)).length ≤ side.load isClient := by
  unfold sent load
  split
  · exact Nat.zero_le _
  · have hdata := side.endpoint.options.length_flatMap_recordsOf side.submitted
    rw [Record.write_cons, List.length_append]
    omega

theorem Calm.payloads_sent (h : side.Calm isClient) :
    Record.payloads (side.sent isClient).tail = side.submitted.flatten := by
  unfold sent
  split
  · next hidle =>
    rw [h.submitted_eq (by rw [hidle]; nofun)]
    rfl
  · exact MaskedOptions.payloads_flatMap_recordsOf _ _

theorem Calm.isSecured_iff (h : side.Calm isClient) :
    side.IsSecured ↔ side.endpoint.face.phase = .established :=
  h.plain.isSecured_iff

theorem after_of_shows {request : Request} {face : Face} (h : side.endpoint.Shows isClient request face) :
    (side.after (side.endpoint.handle request)).endpoint.Plain isClient ∧
      (side.after (side.endpoint.handle request)).endpoint.face = { face with queued := [] } ∧
      (side.after (side.endpoint.handle request)).outgoing = side.outgoing ++ face.queued := by
  obtain ⟨hqueued, hplain, hface⟩ := h.takeQueued
  exact ⟨hplain, hface, congrArg (side.outgoing ++ ·) hqueued⟩

end Side

/-- What was sent reaches the end that shows the face: it has received the payloads of the records it has
taken, the first of which opened its channel. -/
def Reaches (sent : List Record) (outgoing : Bytes) (face : Face) : Prop :=
  ∃ taken rest, Flows sent taken rest face.pending outgoing ∧ face.received = Record.payloads taken.tail ∧
    (face.phase = .established ↔ taken ≠ [])

theorem Reaches.send {sent : List Record} {outgoing : Bytes} {face : Face} (h : Reaches sent outgoing face)
    {records : List Record} (hfits : ∀ r ∈ records, r.Fits) :
    Reaches (sent ++ records) (outgoing ++ Record.write records) face := by
  obtain ⟨taken, rest, hflow, hface⟩ := h
  exact ⟨taken, rest ++ records, hflow.send hfits, hface⟩

theorem Reaches.of_face {sent : List Record} {outgoing : Bytes}
    {face face' : Face} (h : Reaches sent outgoing face)
    (hpending : face'.pending = face.pending) (hreceived : face'.received = face.received)
    (hphase : face'.phase = .established ↔ face.phase = .established) : Reaches sent outgoing face' := by
  obtain ⟨taken, rest, hflow, hgot, hopen⟩ := h
  exact ⟨taken, rest, hpending ▸ hflow, hreceived.trans hgot, hphase.trans hopen⟩

/-! ### One side, one step -/

namespace Side

/-- A side has read at most `n` bytes of those under way from the other, and has sent records. -/
structure Reading (isClient : Bool) (side other : Side) (n : Nat) (records : List Record) : Prop where
  result : ∃ response, (side.endpoint.handle (.receive (other.outgoing.take n))).result = .ok response
  moves : side.Moves isClient (side.after (side.endpoint.handle (.receive (other.outgoing.take n)))) records
  reaches : Reaches (other.sent (!isClient)) (other.outgoing.drop n)
    (side.after (side.endpoint.handle (.receive (other.outgoing.take n)))).endpoint.face

namespace Calm

variable {isClient : Bool} {side : Side}

section Moving

variable (h : side.Calm isClient) {request : Request}
  {face : Face} (hshows : side.endpoint.Shows isClient request face)

include h hshows

/-- A side that sends nothing, and whose phase stays or goes from waiting to open. -/
private theorem moves_of_shows (hqueued : face.queued = [])
    (hphase : face.phase = side.endpoint.face.phase ∨
      (side.endpoint.face.phase = .awaitFinished ∧ face.phase = .established)) :
    side.Moves isClient (side.after (side.endpoint.handle request)) [] := by
  obtain ⟨hplain, hface, houtgoing⟩ := after_of_shows hshows
  have hidle : face.phase = .idle ↔ side.endpoint.face.phase = .idle := by
    rcases hphase with hsame | ⟨hwaits, hopen⟩
    · rw [hsame]
    · rw [hwaits, hopen]
      exact iff_of_false nofun nofun
  refine ⟨⟨hplain, ?_, ?_, ?_⟩, ?_, ?_⟩
  · rw [hface]
  · rw [hface]
    rcases hphase with hsame | ⟨-, hopen⟩
    · show face.phase = _ ∨ (_ ∧ face.phase = _) ∨ face.phase = _
      rw [hsame]
      exact h.phase
    · exact .inr (.inr hopen)
  · intro hclosed
    rw [hface] at hclosed
    refine h.submitted_eq fun hopen => hclosed ?_
    rcases hphase with hsame | ⟨hwaits, -⟩
    · exact hsame.trans hopen
    · rw [hwaits] at hopen
      cases hopen
  · unfold sent
    rw [hface, List.append_nil]
    show (if face.phase = .idle then [] else _) = _
    by_cases hside : side.endpoint.face.phase = .idle
    · rw [if_pos hside, if_pos (hidle.2 hside)]
    · rw [if_neg hside, if_neg (mt hidle.1 hside)]
      rfl
  · rw [houtgoing, hqueued]
    rfl

/-- A side that has done nothing sends what it sends first. -/
private theorem moves_of_opening (hidle : side.endpoint.face.phase = .idle)
    (hqueued : face.queued = (opening isClient).toBytes)
    (hphase : (isClient = true ∧ face.phase = .awaitFinished) ∨ face.phase = .established) :
    side.Moves isClient (side.after (side.endpoint.handle request)) [opening isClient] := by
  obtain ⟨hplain, hface, houtgoing⟩ := after_of_shows hshows
  have hnone : side.submitted = [] := h.submitted_eq (by rw [hidle]; nofun)
  have hbegun : ¬ face.phase = .idle := by
    rcases hphase with ⟨-, hphase⟩ | hphase <;> (rw [hphase]; nofun)
  refine ⟨⟨hplain, ?_, ?_, ?_⟩, ?_, ?_⟩
  · rw [hface]
  · rw [hface]
    exact .inr hphase
  · intro _
    exact hnone
  · unfold sent
    rw [hface, if_neg hbegun, if_pos hidle]
    show opening isClient :: side.submitted.flatMap _ = _
    rw [hnone]
    rfl
  · rw [houtgoing, hqueued, Record.write_cons, Record.write_nil, List.append_nil]

end Moving

theorem start (h : side.Calm true) (hidle : side.endpoint.face.phase = .idle)
    (hroom : side.load true + side.endpoint.channel.pool.growth ≤ side.endpoint.channel.pool.limit) :
    (∃ response, (side.endpoint.handle .start).result = .ok response) ∧
      side.Moves true (side.after (side.endpoint.handle .start)) [Masked.helloRecord] ∧
      (side.after (side.endpoint.handle .start)).endpoint.face =
        { side.endpoint.face with phase := .awaitFinished } := by
  have hhello : Masked.helloRecord.toBytes.length ≤ side.load true := Nat.le_add_right _ _
  have hshows := h.plain.start rfl hidle (Pool.holds_of_room h.plain.ample _ (by omega))
  rw [h.queued_eq, List.nil_append] at hshows
  refine ⟨hshows.result, h.moves_of_opening hshows hidle rfl (.inl ⟨rfl, rfl⟩), ?_⟩
  rw [(after_of_shows hshows).2.1, ← h.queued_eq]

/-- A side whose channel is open writes a message. -/
theorem write (h : side.Calm isClient) (hopen : side.endpoint.face.phase = .established) (message : Bytes)
    (hroom : side.endpoint.options.wrappedSize message.length + side.endpoint.channel.pool.growth ≤
      side.endpoint.channel.pool.limit) :
    let next := { side.after (side.endpoint.handle (.send message)) with
      submitted := side.submitted ++ [message] }
    (∃ response, (side.endpoint.handle (.send message)).result = .ok response) ∧
      side.Moves isClient next (side.endpoint.options.recordsOf message) ∧
        next.endpoint.face = side.endpoint.face := by
  intro next
  have hshows := h.plain.send hopen message hroom
  rw [h.queued_eq, List.nil_append] at hshows
  obtain ⟨hplain, hface, houtgoing⟩ := after_of_shows hshows
  have hsame : next.endpoint.face = side.endpoint.face := by
    rw [show next.endpoint.face = _ from hface, ← h.queued_eq]
  refine ⟨hshows.result, ⟨⟨hplain, ?_, ?_, ?_⟩, ?_, houtgoing⟩, hsame⟩
  · rw [hsame, h.queued_eq]
  · rw [hsame]
    exact h.phase
  · intro hclosed
    rw [hsame] at hclosed
    exact absurd hopen hclosed
  · unfold sent
    rw [hsame, hopen, if_neg nofun, if_neg nofun]
    show opening isClient :: (side.submitted ++ [message]).flatMap side.endpoint.options.recordsOf = _
    rw [List.flatMap_append]
    simp

theorem write_early (h : side.Calm isClient) (hclosed : side.endpoint.face.phase ≠ .established)
    (message : Bytes) :
    (side.endpoint.handle (.send message)).result = .error .notSecured ∧
      side.Moves isClient (side.after (side.endpoint.handle (.send message))) [] ∧
      (side.after (side.endpoint.handle (.send message))).endpoint.face = side.endpoint.face := by
  obtain ⟨hresult, hafter⟩ := h.plain.send_early hclosed message
  have hnext : side.after (side.endpoint.handle (.send message)) =
      { side with
        endpoint := side.endpoint.takeQueued.2,
        outgoing := side.outgoing ++ side.endpoint.face.queued } := by
    unfold Side.after
    rw [hafter]
    rfl
  have hface : side.endpoint.takeQueued.2.face = side.endpoint.face := by
    rw [Endpoint.face_takeQueued, ← h.queued_eq]
  rw [hnext]
  refine ⟨hresult, ⟨⟨h.plain.takeQueued, ?_, ?_, ?_⟩, ?_, ?_⟩, hface⟩
  · rw [hface, h.queued_eq]
  · rw [hface]
    exact h.phase
  · rw [hface]
    exact h.submitted_eq
  · unfold sent
    rw [hface, List.append_nil]
    rfl
  · rw [h.queued_eq]
    rfl

/-! ### One side, one read -/

section Read

variable {other : Side} {n : Nat} {taken records rest : List Record} {left : Bytes}
variable (h : side.Calm isClient) (hreads : side.endpoint.Reads (other.outgoing.take n))
variable (hparse : Record.grammar.parse (side.endpoint.pending ++ other.outgoing.take n) = (records, left))
variable (hflow : Flows (other.sent (!isClient)) (taken ++ records) rest left (other.outgoing.drop n))
variable (hreceived : side.endpoint.face.received = Record.payloads taken.tail)

include h hreads hparse hflow hreceived

/-- An open side takes data. -/
private theorem read_of_open (hopen : side.endpoint.face.phase = .established) (htaken : taken ≠ []) :
    side.Reading isClient other n [] := by
  have hdata : ∀ r ∈ records, r.kind = Record.data := by
    intro r hr
    have hmem : r ∈ (other.sent (!isClient)).tail := by
      rw [hflow.sent_eq, List.append_assoc, List.tail_append_of_ne_nil htaken]
      exact List.mem_append_right _ (List.mem_append_left _ hr)
    exact mem_tail_sent hmem
  have hshows := h.plain.receive_data hreads hopen hparse hdata
  refine ⟨hshows.result, h.moves_of_shows hshows h.queued_eq (.inl rfl), ?_⟩
  rw [(after_of_shows hshows).2.1]
  refine ⟨taken ++ records, rest, hflow, ?_, ?_⟩
  · rw [List.tail_append_of_ne_nil htaken, Record.payloads_append, ← hreceived]
  · exact iff_of_true hopen fun hnil => htaken (List.append_eq_nil_iff.1 hnil).1

/-- A side that is not open waits for the whole first record. -/
private theorem read_of_nothing (hclosed : side.endpoint.face.phase ≠ .established) (htaken : taken = [])
    (hrecords : records = []) : side.Reading isClient other n [] := by
  subst htaken hrecords
  have hwaits : side.endpoint.face.phase = .idle ∨ side.endpoint.face.phase = .awaitFinished := by
    rcases h.phase with hphase | ⟨-, hphase⟩ | hphase
    · exact .inl hphase
    · exact .inr hphase
    · exact absurd hphase hclosed
  have hshows := h.plain.receive_nothing hreads hwaits hparse
  refine ⟨hshows.result, h.moves_of_shows hshows h.queued_eq (.inl rfl), ?_⟩
  rw [(after_of_shows hshows).2.1]
  exact ⟨[], rest, hflow, hreceived, iff_of_false hclosed fun hne => hne rfl⟩

/-- The first record opens the channel, and data may follow it at once. -/
private theorem read_of_opening (hclosed : side.endpoint.face.phase ≠ .established) (htaken : taken = [])
    (hrecords : records ≠ [])
    (hidle : isClient = true → side.endpoint.face.phase = .idle → other.sent (!isClient) = [])
    (hanswer : isClient = false →
      side.endpoint.channel.pool.Holds side.endpoint.options Masked.finishedRecord) :
    ∃ sending, side.Reading isClient other n sending ∧ (isClient = true → sending = []) := by
  subst htaken
  obtain ⟨r, records, rfl⟩ := List.exists_cons_of_ne_nil hrecords
  have hsent : other.sent (!isClient) = r :: (records ++ rest) := hflow.sent_eq
  have hkind := head_sent hsent
  have hdata : ∀ r ∈ records, r.kind = Record.data := by
    intro r hr
    have hmem : r ∈ (other.sent (!isClient)).tail := by
      rw [hsent]
      exact List.mem_append_left _ hr
    exact mem_tail_sent hmem
  have hgot : side.endpoint.face.received ++ Record.payloads records = Record.payloads records := by
    rw [hreceived]
    rfl
  rcases h.phase with hphase | ⟨-, hphase⟩ | hphase
  · have hserver : isClient = false := by
      cases isClient with
      | false => rfl
      | true =>
        rw [hidle rfl hphase] at hsent
        cases hsent
    subst hserver
    have hshows := h.plain.receive_hello hreads rfl hphase (hanswer rfl) hparse hkind hdata
    rw [h.queued_eq, List.nil_append] at hshows
    refine ⟨[Masked.finishedRecord], ⟨hshows.result, h.moves_of_opening hshows hphase rfl (.inr rfl), ?_⟩,
      nofun⟩
    rw [(after_of_shows hshows).2.1]
    exact ⟨r :: records, rest, hflow, hgot, iff_of_true rfl nofun⟩
  · have hshows := h.plain.receive_finished hreads hphase hparse hkind hdata
    refine ⟨[], ⟨hshows.result, h.moves_of_shows hshows h.queued_eq (.inr ⟨hphase, rfl⟩), ?_⟩, fun _ => rfl⟩
    rw [(after_of_shows hshows).2.1]
    exact ⟨r :: records, rest, hflow, hgot, iff_of_true rfl nofun⟩
  · exact absurd hphase hclosed

end Read

/-- A side reads some of the bytes that are under way to it.  A client sends nothing then. -/
theorem read (h : side.Calm isClient)
    {other : Side} (hreaches : Reaches (other.sent (!isClient)) other.outgoing side.endpoint.face)
    (hidle : isClient = true → side.endpoint.face.phase = .idle → other.sent (!isClient) = [])
    (hother : other.load (!isClient) ≤ side.endpoint.channel.pool.limit)
    (hroom : side.load isClient + side.endpoint.channel.pool.growth ≤ side.endpoint.channel.pool.limit)
    (n : Nat) :
    ∃ records, side.Reading isClient other n records ∧ (isClient = true → records = []) := by
  obtain ⟨taken, rest, hflow, hreceived, hopen⟩ := hreaches
  rcases hparse : Record.grammar.parse (side.endpoint.pending ++ other.outgoing.take n) with ⟨records, left⟩
  obtain ⟨rest', rfl, hnext⟩ := hflow.read hparse
  have hreads : side.endpoint.Reads (other.outgoing.take n) := by
    refine Endpoint.reads_of_room h.plain.ample h.plain.sound _ ?_
    -- what waits and what is read are bytes of records that were sent, and all of those fit
    have hbytes := congrArg List.length hflow.bytes_eq
    have hsent := length_sent_le (!isClient) other
    have htake : (other.outgoing.take n).length ≤ other.outgoing.length := List.length_take_le' ..
    rw [hflow.sent_eq, Record.write_append, List.length_append] at hsent
    rw [List.length_append] at hbytes
    change side.endpoint.pending.length + _ = _ at hbytes
    omega
  by_cases hestablished : side.endpoint.face.phase = .established
  · exact ⟨[], h.read_of_open hreads hparse hnext hreceived hestablished (hopen.1 hestablished), fun _ => rfl⟩
  · have htaken : taken = [] := Classical.not_not.1 (mt hopen.2 hestablished)
    by_cases hrecords : records = []
    · exact ⟨[], h.read_of_nothing hreads hparse hnext hreceived hestablished htaken hrecords, fun _ => rfl⟩
    · refine h.read_of_opening hreads hparse hnext hreceived hestablished htaken hrecords hidle ?_
      -- only a server answers, and its answer is the first that its load counts
      rintro rfl
      have hanswer : Masked.finishedRecord.toBytes.length ≤ side.load false := Nat.le_add_right _ _
      exact Pool.holds_of_room h.plain.ample _ (by omega)

end Calm

end Side

/-! ### Room -/

theorem Side.pool_after (side : Side) (request : Request) :
    (side.after (side.endpoint.handle request)).endpoint.channel.pool = side.endpoint.channel.pool :=
  Endpoint.pool_after_handle side.endpoint request

namespace Conversation

variable {c : Conversation}

/-- A step changes no pool, and takes nothing back of what was sent. -/
theorem step_load (c : Conversation) (s : Step) (i : Bool) :
    ((c.step s).2.side i).endpoint.channel.pool = (c.side i).endpoint.channel.pool ∧
      (c.side i).load i ≤ ((c.step s).2.side i).load i := by
  cases s with
  | start =>
    cases i with
    | true => exact ⟨Side.pool_after .., Nat.le_refl _⟩
    | false => exact ⟨rfl, Nat.le_refl _⟩
  | write j message =>
    have hgrows : (c.side j).load j ≤ Side.load j
        { (c.side j).after ((c.side j).endpoint.handle (.send message)) with
          submitted :=
            if (c.side j).IsSecured then (c.side j).submitted ++ [message] else (c.side j).submitted } := by
      unfold Side.load
      refine Nat.add_le_add_left ?_ _
      show List.sum _ ≤ (List.map _ (if _ then _ else _)).sum
      split
      · rw [List.map_append, List.sum_append]
        exact Nat.le_add_right _ _
      · exact Nat.le_refl _
    cases i <;> cases j
    · exact ⟨Side.pool_after .., hgrows⟩
    · exact ⟨rfl, Nat.le_refl _⟩
    · exact ⟨rfl, Nat.le_refl _⟩
    · exact ⟨Side.pool_after .., hgrows⟩
  | read j n =>
    cases i <;> cases j
    · exact ⟨Side.pool_after .., Nat.le_refl _⟩
    · exact ⟨rfl, Nat.le_refl _⟩
    · exact ⟨rfl, Nat.le_refl _⟩
    · exact ⟨Side.pool_after .., Nat.le_refl _⟩

theorem hasRoom_of_step {s : Step} (h : (c.step s).2.HasRoom) : c.HasRoom := by
  intro sender grower holder
  have hroom := h sender grower holder
  have hload := (step_load c s sender).2
  rw [(step_load c s grower).1, (step_load c s holder).1] at hroom
  omega

theorem hasRoom_of_run (steps : List Step) (h : (c.run steps).HasRoom) : c.HasRoom := by
  induction steps generalizing c with
  | nil => exact h
  | cons s steps ih => exact hasRoom_of_step (ih h)

/-! ### Both sides, one step -/

/-- What holds between steps: each side is calm, and what it has sent reaches the other. -/
structure Inv (c : Conversation) : Prop where
  calm : ∀ i, (c.side i).Calm i
  reaches : ∀ i, Reaches ((c.side (!i)).sent (!i)) (c.side (!i)).outgoing (c.side i).endpoint.face

namespace Inv

variable (h : c.Inv)

include h

/-- One side moves, and what was under way to it may become less. -/
theorem move {i : Bool} {next : Side} {records : List Record} (hmoves : (c.side i).Moves i next records)
    {outgoing : Bytes} (hreaches : Reaches ((c.side (!i)).sent (!i)) outgoing next.endpoint.face) :
    ((c.withSide i next).withSide (!i) { c.side (!i) with outgoing }).Inv := by
  have hother : Side.Calm (!i) { c.side (!i) with outgoing } :=
    ⟨(h.calm (!i)).plain, (h.calm (!i)).queued_eq, (h.calm (!i)).phase, (h.calm (!i)).submitted_eq⟩
  have hfits : ∀ r ∈ records, r.Fits := by
    intro r hr
    refine Side.fits_sent i next r ?_
    rw [hmoves.sent_eq]
    exact List.mem_append_right _ hr
  -- what the side sends is under way to the other, whose face has not changed
  have hsends := (h.reaches (!i)).send hfits
  rw [Bool.not_not, ← hmoves.sent_eq, ← hmoves.outgoing_eq] at hsends
  constructor
  · intro j
    cases i <;> cases j
    · exact hmoves.calm
    · exact hother
    · exact hother
    · exact hmoves.calm
  · intro j
    cases i <;> cases j
    · exact hreaches
    · exact hsends
    · exact hsends
    · exact hreaches

/-- As long as the client has done nothing, neither has the server. -/
theorem sent_of_idle (hidle : c.client.endpoint.face.phase = .idle) : c.server.sent false = [] := by
  -- a server that has sent anything has taken a hello, which an idle client has not sent
  obtain ⟨taken, rest, hflow, -, hopen⟩ := h.reaches false
  have hnone := (Side.sent_eq_nil_iff true c.client).2 hidle
  have htaken : taken = [] := (List.append_eq_nil_iff.1 (hflow.sent_eq.symm.trans hnone)).1
  rcases (h.calm false).phase with hphase | ⟨hfalse, -⟩ | hphase
  · exact (Side.sent_eq_nil_iff ..).2 hphase
  · cases hfalse
  · exact absurd htaken (hopen.1 hphase)

theorem move_still {i : Bool} {next : Side} {records : List Record} (hmoves : (c.side i).Moves i next records)
    (hreaches : Reaches ((c.side (!i)).sent (!i)) (c.side (!i)).outgoing next.endpoint.face) :
      (c.withSide i next).Inv := by
  have hmoved := h.move hmoves hreaches
  cases i <;> exact hmoved

theorem start (hidle : c.client.endpoint.face.phase = .idle) (hroom : (c.step .start).2.HasRoom) :
    (∃ response, (c.step .start).1 = .ok response) ∧ (c.step .start).2.Inv ∧
      (c.step .start).2.client.endpoint.face.phase ≠ .idle := by
  obtain ⟨hresult, hmoves, hface⟩ := (h.calm true).start hidle (hasRoom_of_step hroom true true true)
  have hface : (c.client.after (c.client.endpoint.handle .start)).endpoint.face = _ := hface
  have hreaches := (h.reaches true).of_face (congrArg (·.pending) hface) (congrArg (·.received) hface) (by
    rw [hface, show (c.side true).endpoint.face.phase = _ from hidle]
    exact iff_of_false nofun nofun)
  refine ⟨hresult, h.move_still hmoves hreaches, ?_⟩
  show (c.client.after (c.client.endpoint.handle .start)).endpoint.face.phase ≠ _
  rw [hface]
  nofun

theorem write (i : Bool) (message : Bytes) (hroom : (c.step (.write i message)).2.HasRoom) :
    c.Goes (.write i message) ∧ (c.step (.write i message)).2.Inv ∧
      (c.step (.write i message)).2.client.endpoint.face.phase = c.client.endpoint.face.phase := by
  by_cases hopen : (c.side i).endpoint.face.phase = .established
  · have hsecured := (h.calm i).isSecured_iff.2 hopen
    have hnext := step_write_of_isSecured hsecured message
    have hfits : (c.side i).endpoint.options.wrappedSize message.length +
        (c.side i).endpoint.channel.pool.growth ≤ (c.side i).endpoint.channel.pool.limit := by
      -- the message counts in the load after the step
      have hroom := hroom i i i
      rw [(step_load c _ i).1, hnext, side_withSide] at hroom
      unfold Side.load at hroom
      rw [List.map_append, List.sum_append, List.map_singleton, List.sum_singleton] at hroom
      change _ + (_ + (c.side i).endpoint.options.wrappedSize message.length) + _ ≤ _ at hroom
      omega
    obtain ⟨hresult, hmoves, hface⟩ := (h.calm i).write hopen message hfits
    have hreaches := h.reaches i
    rw [← hface] at hreaches
    refine ⟨⟨fun hearly => absurd hsecured hearly, fun _ => hresult⟩, ?_, ?_⟩
    · rw [hnext]
      exact h.move_still hmoves hreaches
    · rw [hnext]
      cases i with
      | true => exact congrArg (·.phase) hface
      | false => rfl
  · have hsecured := mt (h.calm i).isSecured_iff.1 hopen
    obtain ⟨hresult, hmoves, hface⟩ := (h.calm i).write_early hopen message
    have hnext := step_write_of_early hsecured message
    have hreaches := h.reaches i
    rw [← hface] at hreaches
    refine ⟨⟨fun _ => hresult, fun hearly => absurd hsecured hearly⟩, ?_, ?_⟩
    · rw [hnext]
      exact h.move_still hmoves hreaches
    · rw [hnext]
      cases i with
      | true => exact congrArg (·.phase) hface
      | false => rfl

theorem read (i : Bool) (n : Nat) (hroom : (c.step (.read i n)).2.HasRoom) :
    (∃ response, (c.step (.read i n)).1 = .ok response) ∧ (c.step (.read i n)).2.Inv ∧
      ((c.step (.read i n)).2.client.endpoint.face.phase = .idle ↔ c.client.endpoint.face.phase = .idle) := by
  have hbefore := hasRoom_of_step hroom
  have hother := hbefore (!i) i i
  obtain ⟨records, ⟨hresult, hmoves, hreaches⟩, hclient⟩ := (h.calm i).read (h.reaches i) (by
    rintro rfl hidle
    exact h.sent_of_idle hidle) (by omega) (hbefore i i i) n
  refine ⟨hresult, h.move hmoves hreaches, ?_⟩
  cases i with
  | false => exact Iff.rfl
  | true =>
    -- the client sends nothing when it reads, so what it has sent shows that its phase is no longer idle
    have hsent := hmoves.sent_eq
    rw [hclient rfl, List.append_nil] at hsent
    rw [← Side.sent_eq_nil_iff true, ← Side.sent_eq_nil_iff true]
    exact iff_of_eq (congrArg (· = []) hsent)

theorem step (s : Step) (hroom : (c.step s).2.HasRoom)
    (hstart : s = .start → c.client.endpoint.face.phase = .idle) :
    c.Goes s ∧ (c.step s).2.Inv ∧
      ((c.step s).2.client.endpoint.face.phase = .idle ↔
        c.client.endpoint.face.phase = .idle ∧ s ≠ .start) := by
  cases s with
  | start =>
    obtain ⟨hresult, hinv, hphase⟩ := h.start (hstart rfl) hroom
    exact ⟨⟨nofun, fun _ => hresult⟩, hinv, iff_of_false hphase fun hnot => hnot.2 rfl⟩
  | write i message =>
    obtain ⟨hgoes, hinv, hphase⟩ := h.write i message hroom
    refine ⟨hgoes, hinv, ?_⟩
    rw [hphase]
    exact ⟨fun hidle => ⟨hidle, nofun⟩, fun hidle => hidle.1⟩
  | read i n =>
    obtain ⟨hresult, hinv, hphase⟩ := h.read i n hroom
    exact ⟨⟨nofun, fun _ => hresult⟩, hinv, hphase.trans ⟨fun hidle => ⟨hidle, nofun⟩, fun hidle => hidle.1⟩⟩

end Inv

/-! ### Runs -/

theorem inv_made {clientOptions serverOptions : MaskedOptions} {clientPool serverPool : Pool}
    (hfeigned : clientOptions.feignedOverflows = 0 ∧ serverOptions.feignedOverflows = 0)
    (hample : clientPool.IsAmple ∧ serverPool.IsAmple) :
    (made clientOptions serverOptions clientPool serverPool).Inv := by
  have hcalm : ∀ (i : Bool) {options : MaskedOptions} {pool : Pool},
      pool.IsAmple → options.feignedOverflows = 0 → (Side.made i options pool).Calm i := by
    intro i options pool hp hzero
    have hface := Endpoint.face_connected i options pool
    refine ⟨Endpoint.plain_connected i hp hzero, ?_, .inl ?_, fun _ => rfl⟩
    · exact congrArg (·.queued) hface
    · exact congrArg (·.phase) hface
  have hreaches : ∀ (i : Bool) (options : MaskedOptions) (pool : Pool),
      Reaches [] [] (Side.made i options pool).endpoint.face := by
    intro i options pool
    rw [show (Side.made i options pool).endpoint.face = _ from Endpoint.face_connected i options pool]
    exact ⟨[], [], ⟨rfl, rfl, rfl, nofun⟩, rfl, iff_of_false nofun fun hne => hne rfl⟩
  constructor
  · intro i
    cases i with
    | true => exact hcalm true hample.1 hfeigned.1
    | false => exact hcalm false hample.2 hfeigned.2
  · intro i
    cases i with
    | true => exact hreaches true clientOptions clientPool
    | false => exact hreaches false serverOptions serverPool

namespace Inv

/-- A run keeps the invariant, and the client is idle until it starts. -/
theorem run (h : c.Inv) (steps : List Step) (hroom : (c.run steps).HasRoom) (honce : steps.count .start ≤ 1)
    (hstart : .start ∈ steps → c.client.endpoint.face.phase = .idle) :
    (c.run steps).Inv ∧
      ((c.run steps).client.endpoint.face.phase = .idle ↔
        c.client.endpoint.face.phase = .idle ∧ .start ∉ steps) := by
  induction steps generalizing c with
  | nil => exact ⟨h, ⟨fun hidle => ⟨hidle, nofun⟩, fun hidle => hidle.1⟩⟩
  | cons s steps ih =>
    obtain ⟨-, hnext, hphase⟩ := h.step s (hasRoom_of_run steps hroom) fun hs =>
      hstart (hs ▸ List.mem_cons_self ..)
    rw [List.count_cons] at honce
    -- a later start would be the second if this step were one
    obtain ⟨hinv, hidle⟩ := ih hnext hroom (by omega) fun hmem => by
      have hpos := List.count_pos_iff.2 hmem
      refine hphase.2 ⟨hstart (List.mem_cons_of_mem _ hmem), ?_⟩
      rintro rfl
      simp only [beq_self_eq_true, if_true] at honce
      omega
    refine ⟨hinv, ?_⟩
    rw [show c.run (s :: steps) = (c.step s).2.run steps from rfl, hidle, hphase, List.mem_cons, not_or,
      and_assoc, ne_comm, ne_eq]

variable (h : c.Inv)

include h

/-- A channel is open when the first record of the other side has been taken. -/
private theorem sent_of_isSecured {i : Bool} (hsecured : (c.side i).IsSecured) :
    (c.side (!i)).sent (!i) ≠ [] := by
  obtain ⟨taken, rest, hflow, -, hopen⟩ := h.reaches i
  have htaken := hopen.1 ((h.calm i).isSecured_iff.1 hsecured)
  rw [hflow.sent_eq]
  exact fun hnil => htaken (List.append_eq_nil_iff.1 hnil).1

private theorem isSecured_of_outgoing {i : Bool} (hsent : (c.side (!i)).sent (!i) ≠ [])
    (hnil : (c.side (!i)).outgoing = []) :
    (c.side i).IsSecured := by
  obtain ⟨taken, rest, hflow, -, hopen⟩ := h.reaches i
  refine (h.calm i).isSecured_iff.2 (hopen.2 ?_)
  rw [(hflow.eq_of_outgoing hnil).1]
  exact hsent

private theorem server_isSecured_iff : (c.side false).IsSecured ↔ (c.side false).sent false ≠ [] := by
  rw [(h.calm false).isSecured_iff, Ne, Side.sent_eq_nil_iff]
  rcases (h.calm false).phase with hphase | ⟨⟨⟩, -⟩ | hphase
  · rw [hphase]
    exact iff_of_false nofun fun hne => hne rfl
  · rw [hphase]
    exact iff_of_true rfl nofun

theorem agrees : c.Agrees (c.client.endpoint.face.phase ≠ .idle) where
  received_prefix i := by
    obtain ⟨taken, rest, hflow, hreceived, -⟩ := h.reaches i
    rw [← (h.calm (!i)).payloads_sent, hflow.sent_eq,
      show (c.side i).endpoint.session.receivedBytes = _ from hreceived]
    cases taken with
    | nil => exact List.nil_prefix
    | cons r taken =>
      rw [List.cons_append, List.tail_cons, List.tail_cons, Record.payloads_append]
      exact List.prefix_append _ _
  begun_of_secured hsecured := mt (Side.sent_eq_nil_iff ..).2 (h.sent_of_isSecured (i := false) hsecured)
  server_of_client hsecured := h.server_isSecured_iff.2 (h.sent_of_isSecured (i := true) hsecured)
  server_of_begun hbegun hnil := h.isSecured_of_outgoing (i := false)
    (mt (Side.sent_eq_nil_iff ..).1 hbegun) hnil
  client_of_server hsecured hnil := h.isSecured_of_outgoing (i := true)
    (h.server_isSecured_iff.1 hsecured) hnil
  received_eq i hnil := by
    obtain ⟨taken, rest, hflow, hreceived, -⟩ := h.reaches i
    rw [← (h.calm (!i)).payloads_sent, ← (hflow.eq_of_outgoing hnil).1]
    exact hreceived
  pending_eq i hnil := by
    obtain ⟨taken, rest, hflow, -⟩ := h.reaches i
    exact (hflow.eq_of_outgoing hnil).2

end Inv

/-- Whatever the order of the steps and wherever the bytes under way are cut: no step fails, except for
writes that come too early, and both sides agree at every moment. -/
theorem run_agrees (clientOptions serverOptions : MaskedOptions) (clientPool serverPool : Pool)
    (hfeigned : clientOptions.feignedOverflows = 0 ∧ serverOptions.feignedOverflows = 0)
    (hample : clientPool.IsAmple ∧ serverPool.IsAmple) (steps : List Step) (honce : steps.count .start ≤ 1)
    (hroom : ((made clientOptions serverOptions clientPool serverPool).run steps).HasRoom) :
    let c := made clientOptions serverOptions clientPool serverPool
    (∀ before s after, steps = before ++ s :: after → (c.run before).Goes s) ∧
      ∀ before after, steps = before ++ after → (c.run before).Agrees (.start ∈ before) := by
  intro c
  have hinv := inv_made hfeigned hample
  have hidle : c.client.endpoint.face.phase = .idle := congrArg (·.phase) (Endpoint.face_connected true ..)
  -- what there is room for at the end there is room for at every moment before
  have hbefore : ∀ before after, steps = before ++ after → (c.run before).Inv ∧
      ((c.run before).client.endpoint.face.phase = .idle ↔ .start ∉ before) := by
    rintro before after rfl
    rw [run_append] at hroom
    rw [List.count_append] at honce
    obtain ⟨hran, hphase⟩ := hinv.run before (hasRoom_of_run after hroom) (by omega) fun _ => hidle
    exact ⟨hran, hphase.trans ⟨fun hnot => hnot.2, fun hnot => ⟨hidle, hnot⟩⟩⟩
  constructor
  · rintro before s after rfl
    obtain ⟨hran, hphase⟩ := hbefore before (s :: after) rfl
    rw [run_append] at hroom
    refine (hran.step s (hasRoom_of_run after hroom) ?_).1
    rintro rfl
    refine hphase.2 fun hmem => ?_
    have hpos := List.count_pos_iff.2 hmem
    rw [List.count_append, List.count_cons_self] at honce
    omega
  · rintro before after hsteps
    obtain ⟨hran, hphase⟩ := hbefore before after hsteps
    have hbegun : ((c.run before).client.endpoint.face.phase ≠ .idle) = (.start ∈ before) :=
      propext ((not_congr hphase).trans Classical.not_not)
    rw [← hbegun]
    exact hran.agrees

/-- Both sides greet each other.  The hello is cut behind its third byte, and the answer comes together with
the first bytes of what the server writes. -/
theorem run_agrees_greeting :
    let c := made .usual .usual .usual .usual
    let steps : List Step :=
      [.write true [1], .start, .read false 3, .read false 5, .write false [2, 3], .read true 12,
        .write true [4], .write true [], .read false 1, .read true 9, .read false 9]
    steps.count .start ≤ 1 ∧ (c.run steps).HasRoom ∧ c.Goes (.write true [1]) ∧
      (c.run steps).Agrees (.start ∈ steps) ∧
      (c.run steps).client.endpoint.session.receivedBytes = [2, 3] ∧
      (c.run steps).server.endpoint.session.receivedBytes = [4] := by
  intro c steps
  have hfeigned : MaskedOptions.usual.feignedOverflows = 0 ∧ MaskedOptions.usual.feignedOverflows = 0 :=
    ⟨rfl, rfl⟩
  have hpool : Pool.usual.IsAmple := ⟨by decide, by decide⟩
  have honce : steps.count .start ≤ 1 := by decide
  have hroom : (c.run steps).HasRoom := by decide +kernel
  obtain ⟨hgoes, hagrees⟩ := run_agrees .usual .usual .usual .usual hfeigned ⟨hpool, hpool⟩ steps honce hroom
  exact ⟨honce, hroom, hgoes [] (.write true [1]) _ rfl, hagrees steps [] (List.append_nil _).symm,
    by decide +kernel, by decide +kernel⟩

end Conversation

end SecureStream
