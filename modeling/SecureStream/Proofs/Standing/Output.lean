import SecureStream.Proofs.Channel.Loops
import SecureStream.Proofs.Standing.Basic

/-!
# Records that are due

A link does what its standing does.  `Link.standing` forgets what a link has taken down, and `Link.bare`
does so behind a result.

Here it is shown for the records that an engine sends without being given data: the two messages of the
handshake and the answer to an alert.  Sending one of them is `Standing.emit` (`Link.bare_fetchOutput`).
-/

namespace SecureStream

variable {pool : Pool}

/-! ### Links and standings -/

namespace Link

/-- Where an end stands during a request. -/
def standing (k : Link Masked Journal) : Standing := ⟨k.engine, k.session, k.handshaking⟩

/-- A result, and where the end stands. -/
def bare {α : Type} (x : α × Link Masked Journal) : α × Standing := (x.1, x.2.standing)

@[simp] theorem bare_mk {α : Type} (a : α) (k : Link Masked Journal) : bare (a, k) = (a, k.standing) := rfl

@[simp] theorem standing_note (k : Link Masked Journal) (notice : Notice) :
    (k.note notice).standing = k.standing := rfl

@[simp] theorem engine_standing (k : Link Masked Journal) : k.standing.engine = k.engine := rfl

@[simp] theorem standing_enqueue (k : Link Masked Journal) (piece : Bytes) :
    (k.enqueue piece).standing = { k.standing with session := k.standing.session.enqueue piece } := rfl

@[simp] theorem standing_moveTo (k : Link Masked Journal) (state : SessionState) :
    (k.moveTo state).standing = { k.standing with session := k.standing.session.moveTo state } := rfl

theorem wrap_eq {k : Link Masked Journal} {input : Bytes} {room : Nat} {reply : Reply} {m : Masked}
    (h : k.engine.wrap input room = (reply, m)) :
    k.wrap input room = (.ok reply, { k with engine := m }.log (.wrap input room (.ok reply))) := by
  simp only [Link.wrap, Engine.wrap, h, Prod.map_apply, id_eq]

theorem unwrap_eq {k : Link Masked Journal} {input : Bytes} {room : Nat} {answer : Except EngineError Reply}
    {m : Masked} (h : k.engine.unwrap input room = (answer, m)) :
    k.unwrap input room = (answer, { k with engine := m }.log (.unwrap input room answer)) := by
  simp only [Link.unwrap, Engine.unwrap, h]

/-- What a link is after a call of its engine. -/
theorem exists_of_wrap {k : Link Masked Journal} {input : Bytes} {room : Nat} {reply : Reply} {m : Masked}
    (h : k.engine.wrap input room = (reply, m)) :
    ∃ after, k.wrap input room = (.ok reply, after) ∧ after.standing = { k.standing with engine := m } :=
  ⟨_, wrap_eq h, rfl⟩

theorem exists_of_unwrap {k : Link Masked Journal} {input : Bytes} {room : Nat}
    {answer : Except EngineError Reply}
    {m : Masked} (h : k.engine.unwrap input room = (answer, m)) :
    ∃ after, k.unwrap input room = (answer, after) ∧ after.standing = { k.standing with engine := m } :=
  ⟨_, unwrap_eq h, rfl⟩

end Link

/-! ### What is due -/

namespace Masked

/-- Wrapping nothing gives the bytes, once there is room for them, and leads to the next engine. -/
def Sends (m : Masked) (bytes : Bytes) (verdict : Verdict) (demand : Demand) (next : Masked) : Prop :=
  ∀ room, m.wrap [] room =
    if room < bytes.length then (.overflow m.demand, m) else (⟨verdict, demand, 0, bytes.length, bytes⟩, next)

variable {m : Masked}

theorem sends_hello (h : m.phase = .sendHello) :
    m.Sends helloRecord.toBytes .ok .input { m with phase := .awaitFinished } := by
  intro room
  unfold wrap
  rw [h]
  rfl

theorem sends_finished (h : m.phase = .awaitTask) (hrun : m.taskRun = true) :
    m.Sends finishedRecord.toBytes .ok .finished { m with phase := .established } := by
  intro room
  unfold wrap
  rw [h]
  dsimp only
  rw [if_pos hrun]
  rfl

theorem sends_closing (h : m.phase = .sendAlert) :
    m.Sends closingRecord.toBytes .closed .none { m with phase := .closed, isOutputOver := true } := by
  intro room
  unfold wrap
  rw [h]
  dsimp only
  unfold emit
  by_cases hroom : room < closingRecord.toBytes.length
  · rw [if_pos hroom, if_pos hroom]
    simp [Reply.overflow]
  · rw [if_neg hroom, if_neg hroom]
    simp [demand]

end Masked

namespace Link

variable {k : Link Masked Journal} {bytes : Bytes} {verdict : Verdict} {demand : Demand} {next : Masked}

theorem bare_wrapAll_of_sends {purpose : Purpose} (b : Scratch)
    (hsends : k.engine.Sends bytes verdict demand next)
    (hverdict : verdict = .ok ∨ verdict = .closed ∧ purpose ≠ .application) :
    bare (k.wrapAll purpose [] b) =
      match b.growFor bytes.length with
      | .error e => (.error (.buffer e), k.standing)
      | .ok b => (.ok (b.store bytes bytes.length, demand), { k.standing with engine := next }) := by
  -- the engine asks for more room as often as the buffer has to grow
  fun_induction Scratch.growFor b bytes.length generalizing k with
  | case1 b hfits =>
    have hwrap := hsends b.room
    rw [if_neg (by omega)] at hwrap
    rw [wrapAll, wrap_eq hwrap]
    rcases hverdict with rfl | ⟨rfl, hpurpose⟩
    · rfl
    · dsimp only
      rw [if_neg hpurpose]
      rfl
  | case2 b hfits e hgrow =>
    have hwrap := hsends b.room
    rw [if_pos (by omega)] at hwrap
    obtain ⟨after, hafter, hstanding⟩ := exists_of_wrap hwrap
    rw [wrapAll_of_overflow hafter, hgrow]
    exact Prod.ext rfl hstanding
  | case3 b hfits grown hgrow ih =>
    have hwrap := hsends b.room
    rw [if_pos (by omega)] at hwrap
    obtain ⟨after, hafter, hstanding⟩ := exists_of_wrap hwrap
    have hengine : after.engine = k.engine := congrArg (·.engine) hstanding
    rw [wrapAll_of_overflow hafter, hgrow]
    dsimp only
    rw [ih (by rw [engine_note, hengine]; exact hsends), standing_note, hstanding]
    rfl

theorem bare_wrapNew_of_sends (pool : Pool) (purpose : Purpose) (capacity : Nat)
    (hsends : k.engine.Sends bytes verdict demand next)
    (hverdict : verdict = .ok ∨ verdict = .closed ∧ purpose ≠ .application) :
    bare (k.wrapNew pool purpose capacity []) =
      match pool.roomFor capacity bytes.length with
      | .error e => (.error (.buffer e), k.standing)
      | .ok _ => (.ok (bytes, demand), { k.standing with engine := next }) := by
  rw [wrapNew_eq_bytes, Pool.roomFor]
  rcases hb : Scratch.ofCapacity? capacity pool with e | b
  · rfl
  · have hall := bare_wrapAll_of_sends b hsends hverdict
    dsimp only
    rcases hwrapped : k.wrapAll purpose [] b with ⟨result, after⟩
    rw [hwrapped] at hall
    rcases hroom : b.growFor bytes.length with e | grown
    · rw [hroom] at hall
      obtain ⟨rfl, hafter⟩ := Prod.mk.inj hall
      exact Prod.ext rfl hafter
    · rw [hroom] at hall
      obtain ⟨rfl, hafter⟩ := Prod.mk.inj hall
      obtain ⟨hbytes, hfits, -⟩ := Scratch.growFor_eq_ok hroom
      have hstored : (grown.store bytes bytes.length).bytes = bytes := by
        rw [Scratch.bytes_store hfits, hbytes, Scratch.bytes_of_ofCapacity? hb, List.nil_append]
      dsimp only
      rw [hstored]
      exact Prod.ext rfl hafter

/-- An engine that asks for output sends it. -/
theorem bare_fetchOutput {record : Record} (hsends : k.engine.Sends record.toBytes verdict demand next)
    (hverdict : verdict = .ok ∨ verdict = .closed) :
    bare (k.fetchOutput pool) =
      match k.standing.emit pool record next with
      | .error e => (.error (.buffer e), k.standing)
      | .ok s => (.ok demand, s) := by
  have hnew := bare_wrapNew_of_sends pool .handshake (pool.cap (Engine.largestRecord k.engine))
    hsends (hverdict.imp_right fun h => ⟨h, nofun⟩)
  have hcapacity : Engine.largestRecord k.engine =
    Record.headerSize + k.standing.engine.options.maxPayload := rfl
  unfold fetchOutput Standing.emit
  rcases hwrapped : k.wrapNew pool .handshake (pool.cap (Engine.largestRecord k.engine)) [] with
    ⟨result, after⟩
  rw [hwrapped] at hnew
  rw [← hcapacity]
  rcases hroom : pool.roomFor (pool.cap (Engine.largestRecord k.engine)) record.toBytes.length with e | b
  · rw [hroom] at hnew
    obtain ⟨rfl, hafter⟩ := Prod.mk.inj hnew
    exact Prod.ext rfl hafter
  · rw [hroom] at hnew
    obtain ⟨rfl, hafter⟩ := Prod.mk.inj hnew
    refine Prod.ext rfl ?_
    show (after.enqueue record.toBytes).standing = _
    rw [standing_enqueue, hafter]

/-- The answer to an alert is one record. -/
theorem bare_sendClosing (pool : Pool) (hphase : k.engine.phase = .sendAlert)
    (hover : k.engine.isOutputOver = false) (count : Nat) :
    bare (k.sendClosing pool count) =
      match k.standing.answerAlert pool with
      | .error e => (.error (.buffer e), k.standing)
      | .ok s => (.ok (count + 1), s) := by
  have hnew := bare_wrapNew_of_sends pool .close (pool.cap (Engine.largestRecord k.engine))
    (Masked.sends_closing hphase) (.inr ⟨rfl, nofun⟩)
  have hcapacity : Engine.largestRecord k.engine =
    Record.headerSize + k.standing.engine.options.maxPayload := rfl
  have hopen : ¬ Engine.isOutputOver k.engine = true := by
    show ¬ k.engine.isOutputOver = true
    rw [hover]
    nofun
  unfold Standing.answerAlert Standing.emit
  rw [sendClosing, if_neg hopen, ← hcapacity]
  rcases hwrapped : k.wrapNew pool .close (pool.cap (Engine.largestRecord k.engine)) [] with ⟨result, after⟩
  rw [hwrapped] at hnew
  rcases hroom : pool.roomFor (pool.cap (Engine.largestRecord k.engine))
    Masked.closingRecord.toBytes.length with e | b
  · rw [hroom] at hnew
    obtain ⟨rfl, hafter⟩ := Prod.mk.inj hnew
    exact Prod.ext rfl hafter
  · rw [hroom] at hnew
    obtain ⟨rfl, hafter⟩ := Prod.mk.inj hnew
    have hdone : Engine.isOutputOver (after.enqueue Masked.closingRecord.toBytes).engine = true :=
      congrArg (·.engine.isOutputOver) hafter
    dsimp only
    rw [dif_neg (by decide), sendClosing, if_pos hdone]
    refine Prod.ext rfl ?_
    show (after.enqueue Masked.closingRecord.toBytes).standing = _
    rw [standing_enqueue, hafter]
    rfl

end Link

end SecureStream
