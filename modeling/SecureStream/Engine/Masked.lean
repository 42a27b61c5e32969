import SecureStream.Engine.Basic
import SecureStream.Record

/-!
# Engines for masked records

The `Masked` engine is the loopback engine, and protects nothing: it hides the bytes under a fixed mask. Its handshake
has two messages. The client sends a hello, the server runs one task and answers, and from then on both sides may send
data records. An alert from either side closes the channel.

* `Masked.isAlert_closingRecord`: the record that closes a channel is an alert.
-/

namespace SecureStream

/-- How far a `Masked` engine is. -/
inductive MaskedPhase where
  | idle
  /-- The client has to send its hello. -/
  | sendHello
  /-- The client waits for the answer. -/
  | awaitFinished
  /-- The server has to run its task and then to send its answer. -/
  | awaitTask
  | established
  /-- An alert has come in and has to be answered. -/
  | sendAlert
  /-- The alert has been answered. -/
  | closed
  deriving DecidableEq, Repr

namespace MaskedPhase

def name : MaskedPhase → String
  | idle => "Idle"
  | sendHello => "SendHello"
  | awaitFinished => "AwaitFinished"
  | awaitTask => "AwaitTask"
  | established => "Established"
  | sendAlert => "SendAlert"
  | closed => "Closed"

/-- How many phases may still follow. -/
def rank : MaskedPhase → Nat
  | idle => 5
  | sendHello => 4
  | awaitFinished | awaitTask => 3
  | established => 2
  | sendAlert => 1
  | closed => 0

end MaskedPhase

/-- How a `Masked` engine is set up. -/
@[ext] structure MaskedOptions where
  /-- How many times wrapping data fails for lack of room, whatever room there is. -/
  feignedOverflows : Nat
  /-- The most data in one record. -/
  maxPayload : Nat
  maxPayload_pos : 0 < maxPayload
  maxPayload_le : maxPayload ≤ Record.maxPayload
  deriving Repr

namespace MaskedOptions

instance : DecidableEq MaskedOptions := fun _ _ => decidable_of_iff _ MaskedOptions.ext_iff.symm

def usual : MaskedOptions := ⟨0, 16384, by decide, by decide⟩

/-- A setup with the given numbers, if records can carry so much data and carry some at all. -/
def ofNumbers? (feignedOverflows maxPayload : Nat) : Option MaskedOptions :=
  if h : 0 < maxPayload ∧ maxPayload ≤ Record.maxPayload then some ⟨feignedOverflows, maxPayload, h.1, h.2⟩ else none

end MaskedOptions

/-- An engine for masked records. -/
structure Masked where
  options : MaskedOptions
  phase : MaskedPhase
  isClient : Bool
  /-- All ways of asking for a certificate that were chosen, oldest first. -/
  policies : List CertificatePolicy
  /-- The task has been run. -/
  taskRun : Bool
  /-- The task has not been handed out. -/
  taskWaiting : Bool
  feignedOverflows : Nat
  isOutputOver : Bool
  deriving DecidableEq, Repr

namespace Masked

/-- The hello of a client: the letters of `hello`. -/
def hello : Bytes := [0x68, 0x65, 0x6c, 0x6c, 0x6f]

/-- The answer of a server: the letters of `finished`. -/
def finished : Bytes := [0x66, 0x69, 0x6e, 0x69, 0x73, 0x68, 0x65, 0x64]

/-- What an alert carries: the letters of `close`. -/
def closeNotice : Bytes := [0x63, 0x6c, 0x6f, 0x73, 0x65]

/-- The alert that closes a channel. -/
def closingRecord : Record := ⟨Record.alert, closeNotice⟩

theorem isAlert_closingRecord : Record.IsAlert closingRecord.toBytes := Record.isAlert_toBytes (by decide)

theorem length_closingRecord : closingRecord.toBytes.length = 8 := rfl

/-- An engine that has done nothing. -/
def start (options : MaskedOptions) : Masked :=
  ⟨options, .idle, false, [], false, false, options.feignedOverflows, false⟩

def isEstablished (m : Masked) : Bool := m.phase == .established

def demand (m : Masked) : Demand :=
  match m.phase with
  | .sendHello | .sendAlert => .output
  | .awaitFinished => .input
  | .awaitTask => if m.taskRun then .output else .task
  | .idle | .established | .closed => .none

/-- Sends a record of the handshake or an alert, which leads to the next phase. -/
def emit (m : Masked) (record : Record) (room : Nat) (next : MaskedPhase) (verdict : Verdict) : Reply × Masked :=
  let output := record.toBytes
  if room < output.length then (.overflow m.demand, m)
  else
    let m := { m with phase := next }
    (⟨verdict, if next = .established then .finished else m.demand, 0, output.length, output⟩, m)

/-- Wraps as much data as fits one record. -/
def wrapData (m : Masked) (input : Bytes) (room : Nat) : Reply × Masked :=
  let chunk := input.take m.options.maxPayload
  if chunk.isEmpty then (⟨.ok, .none, 0, 0, []⟩, m)
  -- only a call with data counts as one of the feigned failures
  else if 0 < m.feignedOverflows then (.overflow .none, { m with feignedOverflows := m.feignedOverflows - 1 })
  else
    let output := (Record.mk Record.data chunk).toBytes
    if room < output.length then (.overflow .none, m)
    else (⟨.ok, .none, chunk.length, output.length, output⟩, m)

/-- Wraps what the phase asks for: a message of the handshake, data, or an alert. -/
def wrap (m : Masked) (input : Bytes) (room : Nat) : Reply × Masked :=
  match m.phase with
  | .sendHello => m.emit ⟨Record.handshake, hello⟩ room .awaitFinished .ok
  | .awaitTask =>
    -- until its task is run, a server has nothing to say
    if m.taskRun then m.emit ⟨Record.handshake, finished⟩ room .established .ok else (⟨.ok, m.demand, 0, 0, []⟩, m)
  | .established => m.wrapData input room
  | .sendAlert =>
    let (reply, m) := m.emit closingRecord room .closed .closed
    (reply, { m with isOutputOver := m.isOutputOver || decide (reply.verdict = .closed) })
  | .closed => (⟨.closed, .none, 0, 0, []⟩, m)
  | .idle | .awaitFinished => (⟨.ok, m.demand, 0, 0, []⟩, m)

def hexDigit (n : Nat) : Char := Char.ofNat (if n < 10 then 48 + n else 87 + n)

/-- A record that has no place in a phase. -/
def unexpected (kind : UInt8) (phase : MaskedPhase) : EngineError :=
  let digits := String.ofList [hexDigit (kind.toNat / 16), hexDigit (kind.toNat % 16)]
  .ofMessage s!"unexpected record kind 0x{digits} in phase {phase.name}"

/-- Takes a complete record that came in, which is `size` bytes long. -/
def accept (m : Masked) (r : Record) (size room : Nat) : Except EngineError Reply × Masked :=
  -- an alert is taken in every phase, whatever it carries
  if r.kind = Record.alert then (.ok ⟨.closed, .output, size, 0, []⟩, { m with phase := .sendAlert })
  else if r.kind = Record.handshake ∧ m.phase = .idle ∧ m.isClient = false then
    (.ok ⟨.ok, .task, size, 0, []⟩, { m with phase := .awaitTask, taskWaiting := true })
  else if r.kind = Record.handshake ∧ m.phase = .awaitFinished then
    (.ok ⟨.ok, .finished, size, 0, []⟩, { m with phase := .established })
  else if r.kind = Record.data ∧ m.phase = .established then
    if room < r.payload.length then (.ok (.overflow .none), m)
    else (.ok ⟨.ok, .none, size, r.payload.length, r.payload⟩, m)
  else (.error (unexpected r.kind m.phase), m)

/-- Unwraps the record at the front of the input. -/
def unwrap (m : Masked) (input : Bytes) (room : Nat) : Except EngineError Reply × Masked :=
  if m.phase = .sendAlert ∨ m.phase = .closed then (.ok ⟨.closed, m.demand, 0, 0, []⟩, m)
  else
    match Record.next? input with
    | none => (.ok (.underflow m.demand), m)
    | some (r, _) => m.accept r (Record.headerSize + r.payload.length) room

/-- Hands out the task of a server. -/
def takeTask? (m : Masked) : Option Masked := if m.taskWaiting then some { m with taskWaiting := false } else none

/-- Starts the handshake, once. -/
def startHandshake (m : Masked) : Except EngineError Unit × Masked :=
  match m.phase with
  -- a server waits for the hello, so that its phase stays as it is
  | .idle => (.ok (), if m.isClient then { m with phase := .sendHello } else m)
  | phase => (.error (.ofMessage s!"handshake already started in phase {phase.name}"), m)

/-- The phases that may follow, and the task. -/
def work (m : Masked) : Nat := 2 * m.phase.rank + m.taskWaiting.toNat

private theorem emit_cases (m : Masked) (record : Record) (room : Nat) (next : MaskedPhase) (verdict : Verdict) :
    m.emit record room next verdict = (.overflow m.demand, m) ∨
      (m.emit record room next verdict).2 = { m with phase := next } := by
  by_cases h : room < record.toBytes.length
  · exact .inl (if_pos h)
  · exact .inr (congrArg Prod.snd (if_neg h))

private theorem work_emit_lt {m : Masked} {record : Record} {room : Nat} {next : MaskedPhase} {verdict : Verdict}
    (hnext : next.rank < m.phase.rank) :
    m.emit record room next verdict = (.overflow m.demand, m) ∨ (m.emit record room next verdict).2.work < m.work := by
  refine (m.emit_cases record room next verdict).imp_right fun h => ?_
  rw [h]
  simp only [work]
  omega

private theorem work_wrapData (m : Masked) (input : Bytes) (room : Nat) :
    (m.wrapData input room).2.work = m.work := by
  unfold wrapData
  dsimp only
  repeat' split
  all_goals rfl

/-- Wrapping lowers the work, fails for lack of room, wraps data, or does nothing and asks for no more of it. -/
private theorem work_wrap (m : Masked) (input : Bytes) (room : Nat) :
    (m.wrap input room).2.work < m.work ∨ m.wrap input room = (.overflow m.demand, m) ∨
      (m.phase = .established ∧ m.wrap input room = m.wrapData input room) ∨
      (m.demand ≠ .output ∧ ∃ verdict, m.wrap input room = (⟨verdict, m.demand, 0, 0, []⟩, m)) := by
  unfold wrap
  cases hphase : m.phase with
  | sendHello => exact (work_emit_lt (by simp [hphase, MaskedPhase.rank])).elim (.inr ∘ .inl) .inl
  | awaitTask =>
    cases hdone : m.taskRun with
    | true => exact (work_emit_lt (by simp [hphase, MaskedPhase.rank])).elim (.inr ∘ .inl) .inl
    | false => exact .inr (.inr (.inr ⟨by simp [demand, hphase, hdone], .ok, rfl⟩))
  | established => exact .inr (.inr (.inl ⟨rfl, rfl⟩))
  | sendAlert =>
    rcases m.emit_cases closingRecord room .closed .closed with h | h
    · refine .inr (.inl ?_)
      simp [h, Reply.overflow]
    · refine .inl ?_
      simp [work, h, hphase, MaskedPhase.rank]
  | closed => exact .inr (.inr (.inr ⟨by simp [demand, hphase], .closed, by simp [demand, hphase]⟩))
  | idle => exact .inr (.inr (.inr ⟨by simp [demand, hphase], .ok, rfl⟩))
  | awaitFinished => exact .inr (.inr (.inr ⟨by simp [demand, hphase], .ok, rfl⟩))

private theorem work_wrap_le (m : Masked) (input : Bytes) (room : Nat) : (m.wrap input room).2.work ≤ m.work := by
  rcases m.work_wrap input room with h | h | ⟨-, h⟩ | ⟨-, _, h⟩
  · exact Nat.le_of_lt h
  · exact Nat.le_of_eq (by rw [h])
  · exact Nat.le_of_eq (by rw [h, work_wrapData])
  · exact Nat.le_of_eq (by rw [h])

private theorem wrap_nil_cases (m : Masked) (room : Nat) :
    (m.wrap [] room).2.work < m.work ∨ ((m.wrap [] room).1.produced = 0 ∧
      ((m.wrap [] room).1.verdict = .ok ∨ (m.wrap [] room).1.verdict = .closed →
        (m.wrap [] room).1.demand ≠ .output ∧
          ((m.wrap [] room).1.demand = .task → (m.wrap [] room).2.demand = .task))) := by
  rcases m.work_wrap [] room with h | h | ⟨-, h⟩ | ⟨hdemand, _, h⟩
  · exact .inl h
  · exact .inr (by simp [h, Reply.overflow])
  · exact .inr (by simp [h, wrapData])
  · exact .inr (by simp [h, hdemand])

private theorem accept_cases (m : Masked) (r : Record) (size room : Nat) (hopen : 2 ≤ m.phase.rank) :
    (m.accept r size room).2.work < m.work ∨ ((m.accept r size room).2 = m ∧
      ∀ reply, (m.accept r size room).1 = .ok reply → reply.verdict = .ok → reply.consumed = size) := by
  unfold accept
  split
  -- an alert leads to a phase of rank 1, which is lower because the engine was still open
  · exact .inl (by simp only [work, show MaskedPhase.sendAlert.rank = 1 from rfl]; omega)
  · split
    · next h => exact .inl (by have := m.taskWaiting.toNat_le; simp [work, h.2.1, MaskedPhase.rank]; omega)
    · split
      · next h => exact .inl (by simp [work, h.2, MaskedPhase.rank])
      · split
        · split
          · refine .inr ⟨rfl, ?_⟩
            rintro _ ⟨⟩ hok
            cases hok
          · refine .inr ⟨rfl, ?_⟩
            rintro _ ⟨⟩ -
            rfl
        · exact .inr ⟨rfl, by simp⟩

private theorem work_unwrap_le (m : Masked) (input : Bytes) (room : Nat) :
    (m.unwrap input room).2.work ≤ m.work := by
  unfold unwrap
  split
  · exact Nat.le_refl _
  · next hphase =>
    split
    · exact Nat.le_refl _
    · have hopen : 2 ≤ m.phase.rank := by cases h : m.phase <;> simp_all [MaskedPhase.rank]
      rcases m.accept_cases _ _ room hopen with h | ⟨h, -⟩
      · exact Nat.le_of_lt h
      · exact Nat.le_of_eq (by rw [h])

private theorem unwrap_ok_cases {m m' : Masked} {input : Bytes} {room : Nat} {reply : Reply}
    (h : m.unwrap input room = (.ok reply, m')) (ok : reply.verdict = .ok) :
    m'.work < m.work ∨ (0 < reply.consumed ∧ reply.consumed ≤ input.length) := by
  unfold unwrap at h
  split at h
  · cases h
    cases ok
  · next hphase =>
    split at h
    · cases h
      cases ok
    · next r rest hnext =>
      have hopen : 2 ≤ m.phase.rank := by cases h : m.phase <;> simp_all [MaskedPhase.rank]
      rcases m.accept_cases r (Record.headerSize + r.payload.length) room hopen with hlt | ⟨-, hsize⟩
      · exact .inl (by rwa [h] at hlt)
      · have := Record.length_rest_of_next? hnext
        rw [hsize reply (by rw [h]) ok]
        simp only [Record.headerSize] at *
        omega

/-- The phases that may follow and the task bound the work. -/
instance : Engine Masked where
  wrap m input room := (m.wrap input room).map .ok id
  unwrap := unwrap
  demand := demand
  takeTask? := takeTask?
  runTask m := { m with taskRun := true }
  startHandshake := startHandshake
  isOutputOver := isOutputOver
  largestRecord m := Record.headerSize + m.options.maxPayload
  setSide m isClient := { m with isClient }
  setCertificatePolicy m policy := { m with policies := m.policies ++ [policy] }
  work := work
  work_wrap_le := work_wrap_le
  work_unwrap_le := work_unwrap_le
  work_takeTask_lt {m m'} h := by
    unfold takeTask? at h
    split at h
    · next hp =>
      cases h
      simp [work, hp]
    · cases h
  work_runTask_le _ := Nat.le_refl _
  wrap_nil {m m' room r} h := by
    have := m.wrap_nil_cases room
    cases h
    exact this
  unwrap_ok := unwrap_ok_cases

end Masked

end SecureStream
