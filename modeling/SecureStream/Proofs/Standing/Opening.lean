import SecureStream.Proofs.Standing.Handshake

/-!
# Channels that open

Both sides follow the rules and have room for what they send.  Then nothing fails: the client starts with
its hello (`Standing.start_of_idle`), the server answers it (`Standing.acceptAll_of_hello`), the client
takes the answer (`Standing.acceptAll_of_finished`), and after that both sides take data
(`Standing.acceptAll_of_data`).
-/

namespace SecureStream

/-! ### Messages of data records -/

/-- The messages that records carry.  A record without payload carries none. -/
def Record.messages (records : List Record) : List Bytes := (records.map payload).filter (· ≠ [])

theorem Record.flatten_messages (records : List Record) : (messages records).flatten = payloads records := by
  induction records with
  | nil => rfl
  | cons r records ih =>
    unfold messages at ih ⊢
    rw [payloads_cons, ← ih, List.map_cons, List.filter_cons]
    split
    · rfl
    · next hempty =>
      have hnil : r.payload = [] := by simpa using hempty
      rw [hnil]
      rfl

def Journal.deliverAll (j : Journal) (messages : List Bytes) : Journal :=
  { j with received := j.received ++ messages.toArray }

theorem Journal.deliverAll_nil (j : Journal) : j.deliverAll [] = j := by
  simp [deliverAll]

theorem Journal.deliverAll_cons (j : Journal) (message : Bytes) (messages : List Bytes) :
    j.deliverAll (message :: messages) = (j.deliver message).deliverAll messages := by
  simp [deliverAll, deliver]

theorem Journal.receivedBytes_deliverAll (j : Journal) (messages : List Bytes) :
    (j.deliverAll messages).receivedBytes = j.receivedBytes ++ messages.flatten := by
  simp [deliverAll, receivedBytes]

/-- An end with these options can have a buffer into which the record fits. -/
def Pool.Holds (pool : Pool) (options : MaskedOptions) (record : Record) : Prop :=
  ∃ b, pool.roomFor (pool.cap (Record.headerSize + options.maxPayload)) record.toBytes.length = .ok b

theorem Pool.holds_of_room {pool : Pool} (hp : pool.IsAmple) (options : MaskedOptions) {record : Record}
    (hroom : record.toBytes.length + pool.growth ≤ pool.limit) : pool.Holds options record :=
  Pool.exists_roomFor hp (Nat.min_le_right _ _) hroom

namespace Standing

variable {pool : Pool} {s : Standing}

/-- An open channel takes data records, and delivers their messages. -/
theorem acceptAll_of_data (hphase : s.engine.phase = .established) {records : List Record}
    (hdata : ∀ r ∈ records, r.kind = Record.data) :
    s.acceptAll pool records =
      (.ok (Record.payloads records).length,
        { s with session := s.session.deliverAll (Record.messages records) }) := by
  induction records generalizing s with
  | nil =>
    rw [Standing.acceptAll, show Record.messages [] = [] from rfl, Journal.deliverAll_nil]
    rfl
  | cons r records ih =>
    have hkind := hdata r (List.mem_cons_self ..)
    have hrest : ∀ r ∈ records, r.kind = Record.data := fun r hr => hdata r (List.mem_cons_of_mem _ hr)
    rw [Standing.acceptAll, accept_of_data ⟨hkind, hphase⟩]
    dsimp only
    by_cases hempty : r.payload = []
    · rw [if_pos hempty, ih hphase hrest]
      simp [Record.payloads_cons, Record.messages, hempty]
    · rw [if_neg hempty, ih (s := { s with session := s.session.deliver r.payload }) hphase hrest]
      simp [Record.payloads_cons, Record.messages, hempty, Journal.deliverAll_cons]

/-! ### The handshake -/

theorem emit_of_holds {record : Record} (engine : Masked) (h : pool.Holds s.engine.options record) :
    s.emit pool record engine = .ok { s with engine, session := s.session.enqueue record.toBytes } := by
  obtain ⟨b, hb⟩ := h
  unfold emit
  rw [hb]

theorem emit_of_not_holds {record : Record} (engine : Masked) (h : ¬ pool.Holds s.engine.options record) :
    ∃ e, s.emit pool record engine = .error e := by
  unfold emit
  rcases hb :
    pool.roomFor (pool.cap (Record.headerSize + s.engine.options.maxPayload)) record.toBytes.length with e | b
  · exact ⟨e, rfl⟩
  · exact absurd ⟨b, hb⟩ h

section Client

variable (hsecured : ¬ s.IsSecured) (hphase : s.engine.phase = .idle) (hclient : s.engine.isClient = true)

include hsecured hphase hclient

/-- A client that has done nothing tries to send its hello. -/
private theorem start_eq_emit :
    s.start pool =
      match emit pool { s.enter with engine := { s.engine with phase := .sendHello } } Masked.helloRecord
        { s.engine with phase := .awaitFinished } with
      | .error e => (.error (.buffer e), { s.enter with engine := { s.engine with phase := .sendHello } })
      | .ok s => (.ok .handshaking, s) := by
  have hstart : s.engine.startHandshake = (.ok (), { s.engine with phase := .sendHello }) := by
    unfold Masked.startHandshake
    rw [hphase]
    dsimp only
    rw [if_pos hclient]
  have henter : enter { s with engine := { s.engine with phase := .sendHello } } =
      { s.enter with engine := { s.engine with phase := .sendHello } } := by
    unfold enter
    split <;> rfl
  have hsettle : settle pool { s with engine := { s.engine with phase := .sendHello } } = _ :=
    settle_of_sendHello hsecured rfl
  rw [henter] at hsettle
  unfold start
  rw [if_neg hsecured, hstart]
  dsimp only
  unfold shake
  rw [hsettle]
  dsimp only
  rcases hemit : emit pool { s.enter with engine := { s.engine with phase := .sendHello } } Masked.helloRecord
    { s.engine with phase := .awaitFinished } with e | s'
  · rfl
  · have hwaits : ¬ s'.IsSecured := by
      rw [emit_eq_ok hemit]
      exact not_isSecured_enter hsecured
    dsimp only
    rw [if_neg hwaits]
    rfl

theorem start_of_idle (h : pool.Holds s.engine.options Masked.helloRecord) :
    s.start pool =
      (.ok .handshaking,
        { s.enter with
          engine := { s.engine with phase := .awaitFinished }
          session := s.enter.session.enqueue Masked.helloRecord.toBytes }) := by
  have hemit := emit_of_holds (s := { s.enter with engine := { s.engine with phase := .sendHello } })
    { s.engine with phase := .awaitFinished } h
  rw [start_eq_emit hsecured hphase hclient, hemit]

theorem start_fails (h : ¬ pool.Holds s.engine.options Masked.helloRecord) :
    ∃ e, (s.start pool).1 = .error e := by
  obtain ⟨e, he⟩ := emit_of_not_holds (s := { s.enter with engine := { s.engine with phase := .sendHello } })
    { s.engine with phase := .awaitFinished } h
  rw [start_eq_emit hsecured hphase hclient, he]
  exact ⟨.buffer e, rfl⟩

end Client

section Server

variable (hphase : s.engine.phase = .idle) (hserver : s.engine.isClient = false)
  {r : Record} {records : List Record}
variable (hkind : r.kind = Record.handshake)

include hphase hserver hkind

/-- A server that has done nothing answers the hello, and takes the data that follows it. -/
theorem acceptAll_of_hello (h : pool.Holds s.engine.options Masked.finishedRecord)
    (hdata : ∀ r ∈ records, r.kind = Record.data) :
    s.acceptAll pool (r :: records) =
      (.ok (Record.payloads records).length,
        { engine := { s.engine with phase := .established, taskRun := true, taskWaiting := false }
          session := ((s.session.enqueue Masked.finishedRecord.toBytes).moveTo .secured).deliverAll
            (Record.messages records)
          handshaking := false }) := by
  have halert : r.kind ≠ Record.alert := by
    rw [hkind]
    decide
  have hemit := emit_of_holds
    (s := { s with engine := { s.engine with phase := .awaitTask, taskRun := true, taskWaiting := false } })
    { s.engine with phase := .established, taskRun := true, taskWaiting := false } h
  rw [Standing.acceptAll, accept_of_hello halert ⟨hkind, hphase, hserver⟩, answer, hemit]
  dsimp only [secure]
  rw [acceptAll_of_data rfl hdata]
  dsimp only
  rw [Nat.zero_add]

theorem acceptAll_fails (h : ¬ pool.Holds s.engine.options Masked.finishedRecord) :
    ∃ e s', s.acceptAll pool (r :: records) = (.error (.failed e), s') := by
  have halert : r.kind ≠ Record.alert := by
    rw [hkind]
    decide
  obtain ⟨e, he⟩ := emit_of_not_holds
    (s := { s with engine := { s.engine with phase := .awaitTask, taskRun := true, taskWaiting := false } })
    { s.engine with phase := .established, taskRun := true, taskWaiting := false } h
  rw [Standing.acceptAll, accept_of_hello halert ⟨hkind, hphase, hserver⟩, answer, he]
  exact ⟨_, _, rfl⟩

end Server

/-- A client that waits for the answer takes it, and the data that follows it. -/
theorem acceptAll_of_finished (hphase : s.engine.phase = .awaitFinished) {r : Record} {records : List Record}
    (hkind : r.kind = Record.handshake) (hdata : ∀ r ∈ records, r.kind = Record.data) :
    s.acceptAll pool (r :: records) =
      (.ok (Record.payloads records).length,
        { engine := { s.engine with phase := .established }
          session := (s.session.moveTo .secured).deliverAll (Record.messages records)
          handshaking := false }) := by
  have halert : r.kind ≠ Record.alert := by
    rw [hkind]
    decide
  rw [Standing.acceptAll, accept_of_finished halert ⟨hkind, hphase⟩]
  dsimp only [secure]
  rw [acceptAll_of_data rfl hdata]
  dsimp only
  rw [Nat.zero_add]

end Standing

end SecureStream
