import SecureStream.Proofs.Standing.Records
import SecureStream.Proofs.Standing.Writing

/-!
# Calls that may be made again

Who calls an engine gives it a space for its output, and makes the call again with a larger one when the engine
says that the space is too small.  That is harmless if the call needs a certain amount of room
(`Engine.Fits`): with less it changes nothing and says so, and more makes no difference.

* `Engine.Fits.isRepeatable`: attempts with too little room before a call do not show.
* `Masked.isFitting_unwrap`, `Masked.isFitting_wrap`: the calls of a masked engine are such calls, except that one
  which wraps data may feign a lack of room (`Masked.IsFeigning`).
* `Masked.callInto_unwrap_of_next?`: a complete record is taken in the same way whatever stands behind it.
* `Masked.calls_honest`: what holds of all calls of a masked engine.
-/

namespace SecureStream

/-! ### Calls with a space for output -/

/-- What stands in a space after a call: what was written, and behind it what was there before. -/
def Reply.leave (r : Reply) (space : Bytes) : Bytes := r.output ++ space.drop r.output.length

/-- A reply tells no more than is true of the input and of the space, of which it has touched just as much as it
says. -/
structure Reply.IsHonest (r : Reply) (input space after : Bytes) : Prop where
  consumed_le : r.consumed ≤ input.length
  produced_le : r.produced ≤ space.length
  length_after : after.length = space.length
  drop_after : after.drop r.produced = space.drop r.produced
  overflow : r.verdict = .overflow → r.consumed = 0 ∧ r.produced = 0 ∧ after = space

theorem Reply.isHonest_leave {r : Reply} {input space : Bytes} (hconsumed : r.consumed ≤ input.length)
    (hproduced : r.produced = r.output.length) (hfits : r.output.length ≤ space.length)
    (hoverflow : r.verdict = .overflow → r.consumed = 0 ∧ r.output = []) :
    r.IsHonest input space (r.leave space) where
  consumed_le := hconsumed
  produced_le := hproduced ▸ hfits
  length_after := by
    rw [leave, List.length_append, List.length_drop]
    omega
  drop_after := by rw [leave, hproduced, List.drop_left]
  overflow := by
    intro hverdict
    obtain ⟨hnone, hempty⟩ := hoverflow hverdict
    refine ⟨hnone, ?_, ?_⟩
    · rw [hproduced, hempty]
      rfl
    · rw [leave, hempty]
      rfl

namespace Engine

variable {E : Type}

/-- A call with a space for its output: the answer, the space afterwards, and the engine afterwards. -/
def callInto (ask : E → Nat → Except EngineError Reply × E) (e : E) (space : Bytes) :
    Except EngineError Reply × Bytes × E :=
  match ask e space.length with
  | (.error cause, next) => (.error cause, space, next)
  | (.ok r, next) => (.ok r, r.leave space, next)

/-- The engine says that there is too little room. -/
def Overflows (ask : E → Nat → Except EngineError Reply × E) (e : E) (space : Bytes) : Prop :=
  ∃ r, (callInto ask e space).1 = .ok r ∧ r.verdict = .overflow

/-- The last of several calls, one for each space. -/
def callAgain (ask : E → Nat → Except EngineError Reply × E) (e : E) (spaces : List Bytes) (last : Bytes) :
    Except EngineError Reply × Bytes × E :=
  callInto ask (spaces.foldl (fun e space => (callInto ask e space).2.2) e) last

/-- Every call gives an honest reply, and after one for which there was too little room the engine is `refused`. -/
def IsHonest (ask : E → Nat → Except EngineError Reply × E) (e : E) (input : Bytes) (refused : E) : Prop :=
  ∀ space r after next, callInto ask e space = (.ok r, after, next) →
    r.IsHonest input space after ∧ (r.verdict = .overflow → next = refused)

/-- A space is too small for a call exactly when it has less than a certain size, and attempts with spaces that are
too small do not show in the call that comes after them. -/
def IsRepeatable (ask : E → Nat → Except EngineError Reply × E) (e : E) : Prop :=
  ∃ needed, (∀ space, Overflows ask e space ↔ space.length < needed) ∧
    ∀ spaces last, (∀ space ∈ spaces, space.length < needed) →
      callAgain ask e spaces last = callInto ask e last

/-- A call that needs a certain amount of room.  With less it changes nothing and says so, and more makes no
difference to what it answers and to what the engine is next. -/
structure Fits (ask : Nat → Except EngineError Reply × E) (e : E) (input : Bytes) (needed : Nat) (demand : Demand)
    (answer : Except EngineError Reply) (next : E) : Prop where
  ask_eq : ∀ room, ask room = if room < needed then (.ok (.overflow demand), e) else (answer, next)
  reply : ∀ r, answer = .ok r →
    r.verdict ≠ .overflow ∧ r.consumed ≤ input.length ∧ r.produced = r.output.length ∧ r.output.length ≤ needed

/-- A call fits some amount of room. -/
def IsFitting (ask : Nat → Except EngineError Reply × E) (e : E) (input : Bytes) : Prop :=
  ∃ needed demand answer next, Fits ask e input needed demand answer next

variable {ask : E → Nat → Except EngineError Reply × E} {e next : E} {input space after : Bytes} {needed : Nat}
  {demand : Demand} {answer : Except EngineError Reply} {r : Reply}

theorem callInto_eq_ok_iff :
    callInto ask e space = (.ok r, after, next) ↔ ask e space.length = (.ok r, next) ∧ after = r.leave space := by
  unfold callInto
  constructor
  · intro h
    split at h
    · cases h
    · next hask =>
      cases h
      exact ⟨hask, rfl⟩
  · rintro ⟨hask, rfl⟩
    rw [hask]

/-- Attempts that change nothing do not show. -/
theorem callAgain_eq {spaces : List Bytes} (h : ∀ space ∈ spaces, (callInto ask e space).2.2 = e) (last : Bytes) :
    callAgain ask e spaces last = callInto ask e last := by
  unfold callAgain
  induction spaces with
  | nil => rfl
  | cons space spaces ih =>
    obtain ⟨hfirst, hrest⟩ := List.forall_mem_cons.1 h
    rw [List.foldl_cons, hfirst]
    exact ih hrest

namespace Fits

variable (h : Fits (ask e) e input needed demand answer next)

include h

theorem callInto_of_lt (hspace : space.length < needed) :
    callInto ask e space = (.ok (.overflow demand), space, e) := by
  have hask := h.ask_eq space.length
  rw [if_pos hspace] at hask
  exact callInto_eq_ok_iff.2 ⟨hask, rfl⟩

theorem overflows_iff (space : Bytes) : Overflows ask e space ↔ space.length < needed := by
  constructor
  · rintro ⟨r, hr, hverdict⟩
    refine Nat.lt_of_not_le fun hspace => ?_
    have hask := h.ask_eq space.length
    rw [if_neg (Nat.not_lt.2 hspace)] at hask
    rw [callInto, hask] at hr
    cases answer with
    | error cause => cases hr
    | ok r' =>
      cases hr
      exact (h.reply r rfl).1 hverdict
  · intro hspace
    exact ⟨.overflow demand, by rw [h.callInto_of_lt hspace], rfl⟩

theorem isRepeatable : IsRepeatable ask e := by
  refine ⟨needed, h.overflows_iff, fun spaces last hspaces => callAgain_eq (fun space hspace => ?_) last⟩
  rw [h.callInto_of_lt (hspaces space hspace)]

/-- The reply is honest, and after an overflow the engine is as it was. -/
theorem isHonest : IsHonest ask e input e := by
  intro space r after next' hcall
  obtain ⟨hask, rfl⟩ := callInto_eq_ok_iff.1 hcall
  rw [h.ask_eq] at hask
  split at hask
  · cases hask
    exact ⟨Reply.isHonest_leave (Nat.zero_le _) rfl (Nat.zero_le _) fun _ => ⟨rfl, rfl⟩, fun _ => rfl⟩
  · next hspace =>
    obtain ⟨hanswer, -⟩ := Prod.mk.inj hask
    obtain ⟨hverdict, hconsumed, hproduced, hlength⟩ := h.reply r hanswer
    refine ⟨Reply.isHonest_leave hconsumed hproduced (by omega) ?_, ?_⟩
    · exact fun hoverflow => absurd hoverflow hverdict
    · exact fun hoverflow => absurd hoverflow hverdict

end Fits

theorem IsFitting.isHonest (h : IsFitting (ask e) e input) : IsHonest ask e input e := by
  obtain ⟨_, _, _, _, hfits⟩ := h
  exact hfits.isHonest

theorem IsFitting.isRepeatable (h : IsFitting (ask e) e input) : IsRepeatable ask e := by
  obtain ⟨_, _, _, _, hfits⟩ := h
  exact hfits.isRepeatable

end Engine

/-! ### Masked engines -/

namespace Masked

variable {m : Masked} {input : Bytes}

/-- Only an open channel looks at the input. -/
theorem wrap_of_not_established (h : m.phase ≠ .established) (input : Bytes) (room : Nat) :
    m.wrap input room = m.wrap [] room := by
  unfold wrap
  cases hphase : m.phase with
  | established => exact absurd hphase h
  | _ => rfl

theorem ask_wrap (m : Masked) (input : Bytes) (room : Nat) :
    Engine.wrap m input room = (m.wrap input room).map Except.ok id := rfl

/-- What an engine sends without being given data needs room for the record. -/
theorem Sends.isFitting {record : Record} {verdict : Verdict} {demand : Demand} {next : Masked}
    (h : m.Sends record.toBytes verdict demand next) (hverdict : verdict ≠ .overflow) (input : Bytes) :
    Engine.IsFitting (Engine.wrap m []) m input := by
  refine ⟨record.toBytes.length, m.demand, .ok ⟨verdict, demand, 0, record.toBytes.length, record.toBytes⟩, next,
    fun room => ?_, ?_⟩
  · rw [ask_wrap, h room]
    split <;> rfl
  · rintro _ ⟨⟩
    exact ⟨hverdict, Nat.zero_le _, rfl, Nat.le_refl _⟩

/-- An answer without output needs no room. -/
theorem isFitting_of_quiet {ask : Nat → Except EngineError Reply × Masked} {verdict : Verdict} {demand : Demand}
    {consumed : Nat} {next : Masked} (hask : ∀ room, ask room = (.ok ⟨verdict, demand, consumed, 0, []⟩, next))
    (hverdict : verdict ≠ .overflow) (hconsumed : consumed ≤ input.length) : Engine.IsFitting ask m input := by
  refine ⟨0, .none, _, next, fun room => (hask room).trans (if_neg (Nat.not_lt_zero room)).symm, ?_⟩
  rintro _ ⟨⟩
  exact ⟨hverdict, hconsumed, rfl, Nat.le_refl 0⟩

/-- The engine is about to feign a lack of room. -/
def IsFeigning (m : Masked) (input : Bytes) : Prop := m.phase = .established ∧ input ≠ [] ∧ 0 < m.feignedOverflows

instance (m : Masked) (input : Bytes) : Decidable (m.IsFeigning input) := inferInstanceAs (Decidable (_ ∧ _ ∧ _))

theorem IsFeigning.wrap_eq (h : m.IsFeigning input) (room : Nat) :
    Engine.wrap m input room =
      (.ok (.overflow .none), { m with feignedOverflows := m.feignedOverflows - 1 }) := by
  obtain ⟨hphase, hinput, hfeigned⟩ := h
  rw [ask_wrap, wrap_of_feigned hphase hfeigned hinput room]
  rfl

theorem isFitting_wrap_of_established (hphase : m.phase = .established) (h : ¬ m.IsFeigning input) :
    Engine.IsFitting (Engine.wrap m input) m input := by
  by_cases hinput : input = []
  · have hnothing : ∀ room, Engine.wrap m input room = (.ok ⟨.ok, .none, 0, 0, []⟩, m) := by
      intro room
      rw [ask_wrap, hinput, wrap_eq_wrapData hphase, wrapData]
      simp
    exact isFitting_of_quiet hnothing (by decide) (Nat.zero_le _)
  have hfeigned : m.feignedOverflows = 0 :=
    Nat.eq_zero_of_not_pos fun hpos => h ⟨hphase, hinput, hpos⟩
  obtain ⟨record, hrecord⟩ : ∃ record : Record, record = ⟨Record.data, input.take m.options.maxPayload⟩ :=
    ⟨_, rfl⟩
  refine ⟨record.toBytes.length, .none,
    .ok ⟨.ok, .none, record.payload.length, record.toBytes.length, record.toBytes⟩, m, fun room => ?_, ?_⟩
  · rw [ask_wrap, wrap_of_data hphase hfeigned hinput room, ← hrecord]
    dsimp only
    split <;> rfl
  · rintro _ ⟨⟩
    refine ⟨(by decide : Verdict.ok ≠ .overflow), ?_, rfl, Nat.le_refl _⟩
    rw [hrecord]
    exact List.length_take_le' _ _

theorem isFitting_wrap (h : ¬ m.IsFeigning input) : Engine.IsFitting (Engine.wrap m input) m input := by
  by_cases hopen : m.phase = .established
  · exact isFitting_wrap_of_established hopen h
  have hinput : Engine.wrap m input = Engine.wrap m [] := by
    funext room
    rw [ask_wrap, wrap_of_not_established hopen]
    rfl
  have hquiet : ∀ verdict : Verdict, verdict ≠ .overflow →
      (∀ room, m.wrap [] room = (⟨verdict, m.demand, 0, 0, []⟩, m)) →
        Engine.IsFitting (Engine.wrap m []) m input :=
    fun _ hverdict hwrap => isFitting_of_quiet (fun room => congrArg (Prod.map Except.ok id) (hwrap room))
      hverdict (Nat.zero_le _)
  rw [hinput]
  -- the phase tells whether there is a record to be sent
  cases hphase : m.phase with
  | established => exact absurd hphase hopen
  | sendHello => exact (sends_hello hphase).isFitting nofun input
  | sendAlert => exact (sends_closing hphase).isFitting nofun input
  | awaitTask =>
    cases hrun : m.taskRun with
    | true => exact (sends_finished hphase hrun).isFitting nofun input
    | false => exact hquiet .ok nofun fun room => by simp [wrap, hphase, hrun]
  | closed => exact hquiet .closed nofun fun room => by simp [wrap, hphase, demand]
  | idle | awaitFinished => exact hquiet .ok nofun fun room => by simp [wrap, hphase]

theorem isFitting_unwrap (m : Masked) (input : Bytes) : Engine.IsFitting (Engine.unwrap m input) m input := by
  by_cases hclosed : m.phase = .sendAlert ∨ m.phase = .closed
  · exact isFitting_of_quiet (unwrap_of_closed hclosed input) nofun (Nat.zero_le _)
  rcases hnext : Record.next? input with _ | ⟨r, rest⟩
  · exact isFitting_of_quiet (unwrap_of_none hclosed hnext) nofun (Nat.zero_le _)
  have hsize : Record.headerSize + r.payload.length ≤ input.length := by
    rw [Record.length_rest_of_next? hnext]
    exact Nat.le_add_right _ _
  by_cases hdata : r.kind = Record.data ∧ m.phase = .established
  · refine ⟨r.payload.length, .none, _, m, unwrap_of_data hdata.2 hnext hdata.1, ?_⟩
    rintro _ ⟨⟩
    exact ⟨nofun, hsize, rfl, Nat.le_refl _⟩
  have hunwrap : Engine.unwrap m input = m.accept r (Record.headerSize + r.payload.length) :=
    funext (unwrap_of_some hclosed hnext)
  rw [hunwrap]
  -- whatever else the record is, nothing comes out of it
  by_cases halert : r.kind = Record.alert
  · exact isFitting_of_quiet (fun _ => if_pos halert) nofun hsize
  by_cases hhello : r.kind = Record.handshake ∧ m.phase = .idle ∧ m.isClient = false
  · exact isFitting_of_quiet (fun _ => (if_neg halert).trans (if_pos hhello)) nofun hsize
  by_cases hfinished : r.kind = Record.handshake ∧ m.phase = .awaitFinished
  · exact isFitting_of_quiet
      (fun _ => (if_neg halert).trans ((if_neg hhello).trans (if_pos hfinished))) nofun hsize
  refine ⟨0, .none, .error (unexpected r.kind m.phase), m, fun room => ?_, nofun⟩
  rw [accept, if_neg halert, if_neg hhello, if_neg hfinished, if_neg hdata, if_neg (Nat.not_lt_zero room)]

/-- The engine after a call to wrap for which there was too little room. -/
def refused (m : Masked) (input : Bytes) : Masked :=
  if m.IsFeigning input then { m with feignedOverflows := m.feignedOverflows - 1 } else m

theorem isHonest_wrap (m : Masked) (input : Bytes) :
    Engine.IsHonest (Engine.wrap · input) m input (m.refused input) := by
  by_cases hfeigning : m.IsFeigning input
  · intro space r after next hcall
    obtain ⟨hwrap, rfl⟩ := Engine.callInto_eq_ok_iff.1 hcall
    rw [hfeigning.wrap_eq] at hwrap
    cases hwrap
    refine ⟨Reply.isHonest_leave (Nat.zero_le _) rfl (Nat.zero_le _) fun _ => ⟨rfl, rfl⟩, fun _ => ?_⟩
    rw [refused, if_pos hfeigning]
  · rw [refused, if_neg hfeigning]
    exact (isFitting_wrap hfeigning).isHonest

theorem isRepeatable_wrap (h : m.feignedOverflows = 0) (input : Bytes) :
    Engine.IsRepeatable (Engine.wrap · input) m := by
  have hreal : ¬ m.IsFeigning input := fun hfeigning => absurd h (Nat.ne_of_gt hfeigning.2.2)
  exact (isFitting_wrap hreal).isRepeatable

/-- A complete record is never said to be incomplete. -/
theorem verdict_accept_ne_underflow {record : Record} {size room : Nat} {r : Reply}
    (h : (m.accept record size room).1 = .ok r) : r.verdict ≠ .underflow := by
  unfold accept at h
  repeat' split at h
  all_goals cases h
  all_goals rintro ⟨⟩

/-- The input is said to be incomplete only when it is. -/
theorem of_unwrap_underflow {room : Nat} {r : Reply} {next : Masked} (h : m.unwrap input room = (.ok r, next))
    (hverdict : r.verdict = .underflow) :
    ¬ (m.phase = .sendAlert ∨ m.phase = .closed) ∧ r = .underflow m.demand ∧ next = m := by
  by_cases hclosed : m.phase = .sendAlert ∨ m.phase = .closed
  · rw [unwrap_of_closed hclosed] at h
    cases h
    cases hverdict
  rcases hnext : Record.next? input with _ | ⟨record, rest⟩
  · rw [unwrap_of_none hclosed hnext] at h
    cases h
    exact ⟨hclosed, rfl, rfl⟩
  · rw [unwrap_of_some hclosed hnext] at h
    exact absurd hverdict (verdict_accept_ne_underflow (congrArg Prod.fst h))

/-- What stands behind the first record does not matter. -/
theorem unwrap_eq_unwrap_toBytes (hopen : ¬ (m.phase = .sendAlert ∨ m.phase = .closed)) {record : Record}
    {rest : Bytes} (hnext : Record.next? input = some (record, rest)) (room : Nat) :
    m.unwrap input room = m.unwrap record.toBytes room := by
  have halone := Record.next?_toBytes_append (Record.next?_eq_some hnext).2 []
  rw [List.append_nil] at halone
  rw [unwrap_of_some hopen hnext, unwrap_of_some hopen halone]

/-- Once all of its first record is there, the input is taken as the record alone would be. -/
theorem callInto_unwrap_of_next? (hopen : ¬ (m.phase = .sendAlert ∨ m.phase = .closed)) {record : Record}
    {rest : Bytes} (hnext : Record.next? input = some (record, rest)) (space : Bytes) :
    Engine.callInto (Engine.unwrap · input) m space = Engine.callInto (Engine.unwrap · record.toBytes) m space ∧
      ∀ r after next, Engine.callInto (Engine.unwrap · input) m space = (.ok r, after, next) →
        r.verdict ≠ .underflow := by
  constructor
  · have hsame : Engine.unwrap m input = Engine.unwrap m record.toBytes :=
      funext (unwrap_eq_unwrap_toBytes hopen hnext)
    rw [Engine.callInto, Engine.callInto, hsame]
  · intro r after next hcall
    have hunwrap : m.unwrap input space.length = (.ok r, next) := (Engine.callInto_eq_ok_iff.1 hcall).1
    rw [unwrap_of_some hopen hnext] at hunwrap
    exact verdict_accept_ne_underflow (congrArg Prod.fst hunwrap)

/-- Every call of a masked engine, in whatever state, is honest about what it has read and written.  If it says that
there is too little room it has changed nothing, except that a feigned lack of room is counted; so who calls may try
with one space after the other.  And if it says that a record is not complete it has changed nothing either, and
takes the record once the rest of it has come as if all of it had been there at first. -/
theorem calls_honest (m : Masked) (input : Bytes) :
    Engine.IsHonest (Engine.wrap · input) m input (m.refused input) ∧
    Engine.IsHonest (Engine.unwrap · input) m input m ∧
    (m.feignedOverflows = 0 → Engine.IsRepeatable (Engine.wrap · input) m) ∧
    Engine.IsRepeatable (Engine.unwrap · input) m ∧
    ∀ space r after next, Engine.callInto (Engine.unwrap · input) m space = (.ok r, after, next) →
      r.verdict = .underflow → after = space ∧ next = m ∧
        ∀ more record rest, Record.next? (input ++ more) = some (record, rest) → ∀ space',
          let late := Engine.callInto (Engine.unwrap · (input ++ more)) next space'
          late = Engine.callInto (Engine.unwrap · (input ++ more)) m space' ∧
            late = Engine.callInto (Engine.unwrap · record.toBytes) m space' ∧
              ∀ r' after' next', late = (.ok r', after', next') → r'.verdict ≠ .underflow := by
  refine ⟨m.isHonest_wrap input, (m.isFitting_unwrap input).isHonest, fun h => isRepeatable_wrap h input,
    (m.isFitting_unwrap input).isRepeatable, ?_⟩
  intro space r after next hcall hverdict
  obtain ⟨hunwrap, rfl⟩ := Engine.callInto_eq_ok_iff.1 hcall
  obtain ⟨hopen, rfl, rfl⟩ := of_unwrap_underflow hunwrap hverdict
  refine ⟨rfl, rfl, fun more record rest hrecord space' => ⟨rfl, ?_⟩⟩
  exact callInto_unwrap_of_next? hopen hrecord space'

/-- An open engine wraps data at the third attempt, and takes a record of which the last byte comes late.  With one
lack of room to be feigned, it says even of the largest space that it is too small. -/
theorem calls_honest_established :
    let m : Masked := { start ⟨0, 2, by decide, by decide⟩ with phase := .established }
    let spaces : List Bytes := [[], [9, 9, 9, 9]]
    let last : Bytes := [9, 9, 9, 9, 9, 9]
    let part : Bytes := [0x17, 0, 2, 0x5b]
    m.feignedOverflows = 0 ∧ (∀ space ∈ spaces, Engine.Overflows (Engine.wrap · [1, 2, 3]) m space) ∧
      Engine.callAgain (Engine.wrap · [1, 2, 3]) m spaces last =
        (.ok ⟨.ok, .none, 2, 5, [0x17, 0, 2, 0x5b, 0x58]⟩, [0x17, 0, 2, 0x5b, 0x58, 9], m) ∧
      Engine.callInto (Engine.unwrap · part) m last = (.ok (.underflow .none), last, m) ∧
      Record.next? (part ++ [0x58, 0]) = some (⟨Record.data, [1, 2]⟩, [0]) ∧
      Engine.callInto (Engine.unwrap · (part ++ [0x58, 0])) m last =
        (.ok ⟨.ok, .none, 5, 2, [1, 2]⟩, [1, 2, 9, 9, 9, 9], m) ∧
      Engine.callInto (Engine.wrap · [1, 2, 3]) { m with feignedOverflows := 1 } last =
        (.ok (.overflow .none), last, m) := by
  intro m spaces last part
  have hfeigned : m.feignedOverflows = 0 := rfl
  have hspaces : ∀ space ∈ spaces, Engine.Overflows (Engine.wrap · [1, 2, 3]) m space :=
    List.forall_mem_cons.2 ⟨⟨.overflow .none, rfl, rfl⟩,
      List.forall_mem_cons.2 ⟨⟨.overflow .none, rfl, rfl⟩, fun _ h => absurd h List.not_mem_nil⟩⟩
  have hpart : Engine.callInto (Engine.unwrap · part) m last = (.ok (.underflow .none), last, m) := rfl
  have hnext : Record.next? (part ++ [0x58, 0]) = some (⟨Record.data, [1, 2]⟩, [0]) := rfl
  have hwrap : m.wrap [1, 2, 3] 6 = (⟨.ok, .none, 2, 5, [0x17, 0, 2, 0x5b, 0x58]⟩, m) := by decide +kernel
  obtain ⟨-, -, hrepeatable, -, -⟩ := calls_honest m [1, 2, 3]
  obtain ⟨needed, hneeded, hagain⟩ := hrepeatable hfeigned
  obtain ⟨-, -, -, -, hunderflow⟩ := calls_honest m part
  obtain ⟨-, -, hwhole⟩ := hunderflow last _ _ _ hpart rfl
  obtain ⟨-, halone, -⟩ := hwhole [0x58, 0] _ _ hnext last
  refine ⟨hfeigned, hspaces, ?_, hpart, hnext, halone.trans rfl, ?_⟩
  · rw [hagain spaces last fun space hspace => (hneeded space).1 (hspaces space hspace)]
    exact Engine.callInto_eq_ok_iff.2 ⟨congrArg (Prod.map Except.ok id) hwrap, rfl⟩
  · rfl

end Masked

end SecureStream
