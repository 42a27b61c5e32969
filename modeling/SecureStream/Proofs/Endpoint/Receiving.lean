import Mathlib.Data.List.TakeWhile
import SecureStream.Proofs.Endpoint.Reached

/-!
# What an end receives

On an open channel the input that waits and new input are a sequence of records, the last of which may be
incomplete.  The data records before the first other one are delivered.  What becomes of the channel depends
on that one only (`Endpoint.receive_exactly`): if there is none, the incomplete record waits; an alert closes
the channel and is answered; and any other record is an error.
-/

namespace SecureStream

/-! ### Records -/

namespace Record

variable {records more : List Record} {r : Record}

/-- The data records in front of all others. -/
def front (records : List Record) : List Record := records.takeWhile fun r => r.kind = data

/-- The first record that is not data, and all that stand behind it. -/
def beyond (records : List Record) : List Record := records.dropWhile fun r => r.kind = data

theorem front_append_beyond (records : List Record) : front records ++ beyond records = records :=
  List.takeWhile_append_dropWhile

theorem kind_of_mem_front (h : r ∈ front records) : r.kind = data :=
  of_decide_eq_true (List.mem_takeWhile_imp (p := fun r : Record => decide (r.kind = data)) h)

theorem kind_of_beyond (h : beyond records = r :: more) : r.kind ≠ data := by
  have hne : records.dropWhile (fun r => r.kind = data) ≠ [] := by
    intro hnil
    cases h.symm.trans hnil
  have hhead := List.head_dropWhile_not _ hne
  have hfirst : (records.dropWhile fun r => r.kind = data).head hne = r := by
    simp only [show records.dropWhile (fun r => r.kind = data) = r :: more from h, List.head_cons]
  rw [hfirst] at hhead
  exact of_decide_eq_false hhead

end Record

namespace Standing

variable {pool : Pool} {s : Standing} {r : Record}

/-- The first record that is not taken ends a read, behind the data records that stand before it. -/
theorem acceptAll_of_stop (hphase : s.engine.phase = .established) {records : List Record}
    (hdata : ∀ r ∈ records, r.kind = Record.data) (more : List Record) {e : Stop} {after : Standing}
    (h : accept pool { s with session := s.session.deliverAll (Record.messages records) } r =
      (.error e, after)) :
    s.acceptAll pool (records ++ r :: more) = (.error e, after) := by
  rw [acceptAll_append, acceptAll_of_data hphase hdata]
  dsimp only
  rw [Standing.acceptAll, h]

/-- An alert closes an open channel, and is answered. -/
theorem accept_of_holds (halert : r.kind = Record.alert) (hsecured : s.IsSecured)
    (hholds : pool.Holds s.engine.options Masked.closingRecord) :
    s.accept pool r =
      (.error .closed,
        { s with
          engine := { s.engine with phase := .closed, isOutputOver := true }
          session := (s.session.moveTo .connected).enqueue Masked.closingRecord.toBytes }) := by
  let alerted : Standing :=
    { s with engine := { s.engine with phase := .sendAlert }, session := s.session.moveTo .connected }
  have hanswer : alerted.answerAlert pool = .ok
      { s with
        engine := { s.engine with phase := .closed, isOutputOver := true }
        session := (s.session.moveTo .connected).enqueue Masked.closingRecord.toBytes } :=
    emit_of_holds _ hholds
  rw [accept_of_closing pool halert hsecured, hanswer]

/-- Neither data nor an alert has a place on an open channel. -/
theorem accept_of_stray (hphase : s.engine.phase = .established) (halert : r.kind ≠ Record.alert)
    (hdata : r.kind ≠ Record.data) :
    s.accept pool r =
      (.error (.failed (.engine .unwrap (Masked.unexpected r.kind .established))), s) := by
  have hhello : ¬ (r.kind = Record.handshake ∧ s.engine.phase = .idle ∧ s.engine.isClient = false) := by
    rw [hphase]
    rintro ⟨-, ⟨⟩, -⟩
  have hfinished : ¬ (r.kind = Record.handshake ∧ s.engine.phase = .awaitFinished) := by
    rw [hphase]
    rintro ⟨-, ⟨⟩⟩
  rw [accept_of_unexpected halert hhello hfinished (fun h => hdata h.1), hphase]

end Standing

namespace Endpoint

variable {isClient : Bool} {options : MaskedOptions} {pool : Pool} {p : Endpoint} {input : Bytes}

/-! ### Reading on an open channel -/

section Open

variable {records : List Record} {rest : Bytes} {m : Masked}
variable (hreads : p.Reads input) (hsecured : p.session.state = .secured)
  (hengine : p.channel.engine = some m) (hphase : m.phase = .established)
  (hdata : ∀ r ∈ records, r.kind = Record.data)

include hreads hsecured hengine hphase hdata

/-- All records carry data. -/
theorem receive_of_data (hparse : Record.grammar.parse (p.pending ++ input) = (records, rest)) :
    (p.receive input).result =
        .ok (if (p.pending ++ input ≠ [] ∧ rest = []) ∨ (Record.payloads records).length ≠ 0 then
          .delivered (Record.payloads records).length else .starved) ∧
      (p.after (p.receive input)).pending = rest ∧
      (p.after (p.receive input)).session = p.session.deliverAll (Record.messages records) ∧
      (p.after (p.receive input)).channel.engine = some m := by
  have hopen : p.standing.IsSecured := hsecured
  have hstanding := standing_of_engine hengine
  unfold Reads at hreads
  rw [Standing.read_of_settle (Standing.settle_of_isSecured hopen), hparse, hstanding,
    Standing.acceptAll_of_data hphase hdata] at hreads
  obtain ⟨hresult, backlog, hafter, hheld, -⟩ := hreads
  rw [Standing.outcome, if_pos (hstanding ▸ hopen)] at hresult
  rw [hafter]
  exact ⟨hresult, pending_of_held hheld, rfl, rfl⟩

/-- A record that is not taken stands behind data records. -/
theorem receive_of_stop {r : Record} {more : List Record} {e : Stop} {after : Standing}
    (hparse : Record.grammar.parse (p.pending ++ input) = (records ++ r :: more, rest))
    (haccept : Standing.accept p.channel.pool
      ⟨m, p.session.deliverAll (Record.messages records), p.channel.handshaking⟩ r = (.error e, after)) :
    (p.receive input).result =
        (match e with
          | .closed => .ok .closed
          | .failed e => .error e) ∧
      p.after (p.receive input) = p.moved after none := by
  have hopen : p.standing.IsSecured := hsecured
  have hstop :=
    Standing.acceptAll_of_stop (s := ⟨m, p.session, p.channel.handshaking⟩) hphase hdata more haccept
  unfold Reads at hreads
  rw [Standing.read_of_settle (Standing.settle_of_isSecured hopen), hparse, standing_of_engine hengine,
    hstop] at hreads
  cases e with
  | closed => exact hreads
  | failed e => exact hreads

end Open

/-- Of the records of an input, those before the first that is not data are delivered.  If there is no other,
the bytes behind them wait.  If the other is an alert, the channel is closed, and one piece is queued, which is an
alert, too.  If it is of any other kind, the read fails and nothing else happens. -/
theorem receive_exactly (hp : pool.IsAmple)
    (hanswer : pool.growth + 8 ≤ pool.limit)
    (h : p.Reached isClient options pool) (hsecured : p.session.state = .secured) (input : Bytes)
    (hroom : p.pending.length + input.length ≤ pool.limit) :
    let (records, rest) := Record.grammar.parse (p.pending ++ input)
    let messages := ((Record.front records).map Record.payload).filter (· ≠ [])
    let total := messages.flatten.length
    let delivered := { p.session with received := p.session.received ++ messages.toArray }
    let turn := p.receive input
    let after := p.after turn
    Record.write records ++ rest = p.pending ++ input ∧ (∀ r ∈ records, r.Fits) ∧ Record.next? rest = none ∧
      match Record.beyond records with
      | [] =>
        turn.result =
            .ok (if (p.pending ++ input ≠ [] ∧ rest = []) ∨ total ≠ 0 then .delivered total else .starved) ∧
          after.pending = rest ∧ after.session = delivered ∧ after.channel.engine = p.channel.engine
      | r :: _ =>
        after.channel.backlog = none ∧
          if r.kind = Record.alert then
            turn.result = .ok .closed ∧
              after.session = (delivered.moveTo .connected).enqueue Masked.closingRecord.toBytes ∧
              Record.IsAlert Masked.closingRecord.toBytes
          else
            turn.result = .error (.engine .unwrap (Masked.unexpected r.kind .established)) ∧
              after.session = delivered ∧ after.channel.engine = p.channel.engine := by
  obtain ⟨m, hengine, hphase, -⟩ := h.exists_engine hp hsecured
  have hsound := h.sound hp
  obtain rfl := h.pool_eq
  have hreads := reads_of_room hp hsound input hroom
  have hwritten := Record.write_parse (p.pending ++ input)
  have hnone := Record.grammar.first?_left (p.pending ++ input)
  have hfits : ∀ r ∈ (Record.grammar.parse (p.pending ++ input)).1, r.Fits :=
    fun r => Record.fits_of_mem_parse
  rcases hparse : Record.grammar.parse (p.pending ++ input) with ⟨records, rest⟩
  rw [hparse] at hwritten hnone hfits
  dsimp only at hwritten hnone hfits ⊢
  refine ⟨hwritten, hfits, hnone, ?_⟩
  have hsplit := Record.front_append_beyond records
  have hdata : ∀ r ∈ Record.front records, r.kind = Record.data := fun r => Record.kind_of_mem_front
  have htotal : (((Record.front records).map Record.payload).filter (· ≠ [])).flatten =
      Record.payloads (Record.front records) := Record.flatten_messages _
  rw [htotal, hengine]
  rcases hbeyond : Record.beyond records with _ | ⟨r, more⟩
  · rw [hbeyond, List.append_nil] at hsplit
    exact receive_of_data hreads hsecured hengine hphase hdata (by rw [hsplit, hparse])
  · have hother := Record.kind_of_beyond hbeyond
    rw [hbeyond] at hsplit
    rw [← hsplit] at hparse
    dsimp only
    let s : Standing :=
      ⟨m, p.session.deliverAll (Record.messages (Record.front records)), p.channel.handshaking⟩
    by_cases halert : r.kind = Record.alert
    · have hholds : p.channel.pool.Holds m.options Masked.closingRecord :=
        Pool.holds_of_room hp m.options (by rw [Masked.length_closingRecord]; omega)
      have haccept := s.accept_of_holds halert hsecured hholds
      obtain ⟨hresult, hafter⟩ := receive_of_stop hreads hsecured hengine hphase hdata hparse haccept
      rw [if_pos halert, hafter]
      exact ⟨rfl, hresult, rfl, Masked.isAlert_closingRecord⟩
    · have haccept : s.accept p.channel.pool r = _ := Standing.accept_of_stray hphase halert hother
      obtain ⟨hresult, hafter⟩ := receive_of_stop hreads hsecured hengine hphase hdata hparse haccept
      rw [if_neg halert, hafter]
      exact ⟨rfl, hresult, rfl, rfl⟩

/-- A server at which two bytes of a record wait gets the rest of it, then a record without data, another one
with data, an alert and one byte more.  It answers with an alert of its own, the letters of `close` with the mask
on. -/
theorem receive_exactly_mixed :
    let first : Record := ⟨Record.data, [1, 2, 3]⟩
    let p := ((connected false .usual .usual).handleAll
      [.receive Masked.helloRecord.toBytes, .receive (first.toBytes.take 2)]).2.takeQueued.2
    let others : List Record := [⟨Record.data, []⟩, ⟨Record.data, [4]⟩, ⟨Record.alert, [5]⟩]
    let input := first.toBytes.drop 2 ++ Record.write others ++ [6]
    Pool.usual.IsAmple ∧ Pool.usual.growth + 8 ≤ Pool.usual.limit ∧
      p.Reached false .usual .usual ∧ p.session.state = .secured ∧
      p.pending.length + input.length ≤ Pool.usual.limit ∧
      (p.receive input).result = .ok .closed ∧ (p.after (p.receive input)).channel.backlog = none ∧
      (p.after (p.receive input)).session.received = p.session.received ++ #[[1, 2, 3], [4]] ∧
      (p.after (p.receive input)).session.queued = #[[0x15, 0, 5, 0x39, 0x36, 0x35, 0x29, 0x3f]] ∧
      Record.IsAlert [0x15, 0, 5, 0x39, 0x36, 0x35, 0x29, 0x3f] := by
  intro first p others input
  have hp : Pool.usual.IsAmple := ⟨by decide, by decide⟩
  have hanswer : Pool.usual.growth + 8 ≤ Pool.usual.limit := by decide
  have hreached : p.Reached false .usual .usual := (Reached.connected.handleAll _).takeQueued
  have hsecured : p.session.state = .secured := by decide +kernel
  have hroom : p.pending.length + input.length ≤ Pool.usual.limit := by decide +kernel
  have hparse : Record.grammar.parse (p.pending ++ input) = (first :: others, [6]) := by decide +kernel
  have hexactly := receive_exactly hp hanswer hreached hsecured input hroom
  rw [hparse] at hexactly
  obtain ⟨-, -, -, hnone, hresult, hsession, halert⟩ := hexactly
  have hwire : Masked.closingRecord.toBytes = [0x15, 0, 5, 0x39, 0x36, 0x35, 0x29, 0x3f] := by decide
  rw [hwire] at hsession halert
  have hempty : p.session.queued = #[] := rfl
  refine ⟨hp, hanswer, hreached, hsecured, hroom, hresult, hnone, congrArg Journal.received hsession, ?_, halert⟩
  rw [hsession]
  exact congrArg (·.push _) hempty

end Endpoint

end SecureStream
