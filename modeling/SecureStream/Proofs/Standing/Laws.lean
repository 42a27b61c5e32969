import SecureStream.Proofs.Standing.Basic

/-!
# Laws of reading

Two facts about `Standing.read`, whatever the input is.

* `Standing.Sound.read`: reading keeps a standing sound, also when it fails.
* `Standing.Sound.read_append`: an input may be cut in two.  If the first part is read without the end of
  the channel, then the second part, behind what was left of the first, leads where the whole leads.
-/

namespace SecureStream.Standing

variable {pool : Pool} {s s' : Standing}

/-! ### Soundness -/

theorem Sound.enter (h : s.Sound) (hsecured : ¬ s.IsSecured) : s.enter.Sound := by
  refine ⟨?_, ?_, ?_⟩
  · rw [engine_enter]
    exact iff_of_false (not_isSecured_enter hsecured) (fun hphase => hsecured (h.secured_iff.2 hphase))
  · rw [engine_enter]
    exact h.taskRun
  · rw [engine_enter]
    exact h.isOutputOver

/-- A standing whose engine has gone on, and is not established unless the session is secured. -/
private theorem sound_of_phase (hsecured : s.IsSecured ↔ s.engine.phase = .established)
    (htask : s.engine.phase ≠ .awaitTask) (hover : s.engine.phase ≠ .closed → s.engine.isOutputOver = false) :
    s.Sound := ⟨hsecured, fun h => absurd h htask, hover⟩

theorem Sound.answer (pool : Pool) (hsecured : ¬ s.IsSecured) (hphase : s.engine.phase = .awaitTask)
    (hrun : s.engine.taskRun = true)
    (hover : s.engine.isOutputOver = false) : (s.answer pool).2.Sound := by
  unfold Standing.answer
  split
  · refine ⟨iff_of_false hsecured ?_, fun _ => hrun, fun _ => hover⟩
    rw [hphase]
    decide
  · next h =>
    rw [emit_eq_ok h]
    exact sound_of_phase (iff_of_true rfl rfl) nofun (fun _ => hover)

theorem Settled.of_isSecured (h : s.Sound) (hsecured : s.IsSecured) : s.Settled :=
  ⟨h, fun hnot => absurd hsecured hnot⟩

theorem isSecured_of_answer {done : Unit} (h : s.answer pool = (.ok done, s')) : s'.IsSecured := by
  unfold Standing.answer at h
  split at h <;> cases h
  rfl

/-- A server that has sent its answer is settled. -/
theorem settled_of_answer (h : (s.answer pool).2.Sound) {done : Unit} (hok : s.answer pool = (.ok done, s')) :
    s'.Settled := by
  rw [hok] at h
  exact .of_isSecured h (isSecured_of_answer hok)

theorem Sound.settle (h : s.Sound) (pool : Pool) :
    (s.settle pool).2.Sound ∧ ∀ done, (s.settle pool).1 = .ok done → (s.settle pool).2.Settled := by
  by_cases hsecured : s.IsSecured
  · rw [settle_of_isSecured hsecured]
    exact ⟨h, fun _ _ => .of_isSecured h hsecured⟩
  have henter := h.enter hsecured
  have hnot := not_isSecured_enter hsecured
  have hover : s.engine.phase ≠ .closed → s.enter.engine.isOutputOver = false := by
    rw [engine_enter]
    exact h.isOutputOver
  cases hphase : s.engine.phase with
  | sendHello =>
    rw [settle_of_sendHello hsecured hphase]
    split
    · exact ⟨henter, nofun⟩
    · next hemit =>
      rw [emit_eq_ok hemit]
      have hsound : Sound { s.enter with
          engine := { s.engine with phase := .awaitFinished }
          session := s.enter.session.enqueue Masked.helloRecord.toBytes } :=
        sound_of_phase (iff_of_false hnot nofun) nofun (fun _ => h.isOutputOver (by rw [hphase]; nofun))
      exact ⟨hsound, fun _ _ => ⟨hsound, fun _ => ⟨handshaking_enter, .inr rfl⟩⟩⟩
  | awaitTask =>
    rw [settle_of_awaitTask hsecured hphase]
    have hanswer := Sound.answer pool hnot (by rw [engine_enter, hphase])
      (by rw [engine_enter]; exact h.taskRun hphase) (hover (by rw [hphase]; nofun))
    exact ⟨hanswer, fun done hok => settled_of_answer hanswer (Prod.ext hok rfl)⟩
  | sendAlert =>
    rw [settle_of_sendAlert hsecured hphase]
    split
    · exact ⟨henter, nofun⟩
    · next hemit =>
      rw [emit_eq_ok hemit]
      exact ⟨sound_of_phase (iff_of_false hnot nofun) nofun (fun hclosed => absurd rfl hclosed), nofun⟩
  | closed =>
    rw [settle_of_closed hsecured hphase]
    exact ⟨henter, nofun⟩
  | idle =>
    rw [settle_of_waiting hsecured (.inl hphase)]
    exact ⟨henter, fun _ _ => ⟨henter, fun _ => ⟨handshaking_enter, .inl (by rw [engine_enter, hphase])⟩⟩⟩
  | awaitFinished =>
    rw [settle_of_waiting hsecured (.inr hphase)]
    exact ⟨henter, fun _ _ => ⟨henter, fun _ => ⟨handshaking_enter, .inr (by rw [engine_enter, hphase])⟩⟩⟩
  | established => exact absurd (h.secured_iff.2 hphase) hsecured

theorem Settled.accept (h : s.Settled) (pool : Pool) (r : Record) :
    (s.accept pool r).2.Sound ∧ ∀ n, (s.accept pool r).1 = .ok n → (s.accept pool r).2.Settled := by
  have hopen : s.engine.phase ≠ .closed := by
    by_cases hsecured : s.IsSecured
    · rw [h.secured_iff.1 hsecured]
      nofun
    · rcases (h.waiting hsecured).2 with hphase | hphase <;> (rw [hphase]; nofun)
  have hover := h.isOutputOver hopen
  by_cases halert : r.kind = Record.alert
  · -- whatever comes of it, neither is the session secured nor is the engine established
    by_cases hsecured : s.IsSecured
    · rw [accept_of_closing pool halert hsecured]
      split
      · exact ⟨sound_of_phase (iff_of_false nofun nofun) nofun (fun _ => hover), nofun⟩
      · next hemit =>
        rw [emit_eq_ok hemit]
        exact ⟨sound_of_phase (iff_of_false nofun nofun) nofun (fun hclosed => absurd rfl hclosed), nofun⟩
    · rw [accept_of_alert halert hsecured]
      exact ⟨sound_of_phase (iff_of_false hsecured nofun) nofun (fun _ => hover), nofun⟩
  by_cases hhello : r.kind = Record.handshake ∧ s.engine.phase = .idle ∧ s.engine.isClient = false
  · have hsecured : ¬ s.IsSecured := by
      intro hsecured
      rw [h.secured_iff.1 hsecured] at hhello
      cases hhello.2.1
    have hanswer := Sound.answer pool
      (s := { s with engine := { s.engine with phase := .awaitTask, taskRun := true, taskWaiting := false } })
      hsecured rfl rfl hover
    rw [accept_of_hello halert hhello]
    split
    · next heq =>
      rw [heq] at hanswer
      exact ⟨hanswer, nofun⟩
    · next heq =>
      have hsettled := settled_of_answer hanswer heq
      exact ⟨hsettled.toSound, fun _ _ => hsettled⟩
  by_cases hfinished : r.kind = Record.handshake ∧ s.engine.phase = .awaitFinished
  · have hsound : (Standing.secure { s with engine := { s.engine with phase := .established } }).Sound :=
      sound_of_phase (iff_of_true rfl rfl) nofun (fun _ => hover)
    rw [accept_of_finished halert hfinished]
    exact ⟨hsound, fun _ _ => .of_isSecured hsound rfl⟩
  by_cases hdata : r.kind = Record.data ∧ s.engine.phase = .established
  · have hsecured := h.secured_iff.2 hdata.2
    rw [accept_of_data hdata]
    dsimp only
    split
    · exact ⟨h.toSound, fun _ _ => h⟩
    · have hsound : Sound { s with session := s.session.deliver r.payload } :=
        ⟨h.secured_iff, h.taskRun, h.isOutputOver⟩
      exact ⟨hsound, fun _ _ => .of_isSecured hsound hsecured⟩
  · rw [accept_of_unexpected halert hhello hfinished hdata]
    exact ⟨h.toSound, nofun⟩

theorem Settled.acceptAll (h : s.Settled) (pool : Pool) (records : List Record) :
    (s.acceptAll pool records).2.Sound ∧
      ∀ n, (s.acceptAll pool records).1 = .ok n → (s.acceptAll pool records).2.Settled := by
  induction records generalizing s with
  | nil => exact ⟨h.toSound, fun _ _ => h⟩
  | cons r records ih =>
    obtain ⟨hsound, hsettled⟩ := h.accept pool r
    unfold Standing.acceptAll
    split
    · next heq =>
      rw [heq] at hsound
      exact ⟨hsound, nofun⟩
    · next n next heq =>
      rw [heq] at hsettled
      obtain ⟨hsound', hsettled'⟩ := ih (hsettled n rfl)
      split
      · next hall =>
        rw [hall] at hsound'
        exact ⟨hsound', nofun⟩
      · next m last hall =>
        rw [hall] at hsettled'
        have := hsettled' m rfl
        exact ⟨this.toSound, fun _ _ => this⟩

theorem Sound.read (h : s.Sound) (pool : Pool) (input : Bytes) :
    (s.read pool input).2.Sound ∧
      ∀ found, (s.read pool input).1 = .ok found → (s.read pool input).2.Settled := by
  obtain ⟨hsound, hsettled⟩ := h.settle pool
  unfold Standing.read
  split
  · next heq =>
    rw [heq] at hsound
    exact ⟨hsound, nofun⟩
  · next settled heq =>
    rw [heq] at hsettled
    obtain ⟨hsound', hsettled'⟩ := (hsettled () rfl).acceptAll pool (Record.grammar.parse input).1
    dsimp only
    split
    · next hall =>
      rw [hall] at hsound'
      exact ⟨hsound', nofun⟩
    · next n after hall =>
      rw [hall] at hsettled'
      have := hsettled' n rfl
      exact ⟨this.toSound, fun _ _ => this⟩

/-! ### Cutting an input -/

theorem acceptAll_append (a b : List Record) :
    s.acceptAll pool (a ++ b) =
      match s.acceptAll pool a with
      | (.error e, s) => (.error e, s)
      | (.ok n, s) =>
        match s.acceptAll pool b with
        | (.error e, s) => (.error e, s)
        | (.ok m, s) => (.ok (n + m), s) := by
  -- the standing goes on from record to record, so the induction is on the first list
  induction a generalizing s with
  | nil =>
    simp only [List.nil_append, Standing.acceptAll]
    split <;> simp_all
  | cons r a ih =>
    simp only [List.cons_append, Standing.acceptAll]
    rcases s.accept pool r with ⟨_ | n, next⟩
    · rfl
    · dsimp only
      rw [ih]
      rcases next.acceptAll pool a with ⟨_ | m, last⟩
      · rfl
      · dsimp only
        rcases last.acceptAll pool b with ⟨_ | _, _⟩
        · rfl
        · dsimp only
          rw [Nat.add_assoc]

theorem Settled.settle_eq (h : s.Settled) : s.settle pool = (.ok (), s) := by
  by_cases hsecured : s.IsSecured
  · exact settle_of_isSecured hsecured
  · obtain ⟨hhandshaking, hphase⟩ := h.waiting hsecured
    rw [settle_of_waiting hsecured hphase, enter_of_handshaking hhandshaking]

/-! ### How much is delivered -/

theorem Settled.accept_ok (h : s.Settled) {r : Record} {n : Nat} (hr : s.accept pool r = (.ok n, s')) :
    s'.IsSecured ∧ (s.IsSecured ∨ n = 0) := by
  by_cases halert : r.kind = Record.alert
  · by_cases hsecured : s.IsSecured
    · rw [accept_of_closing pool halert hsecured] at hr
      split at hr <;> cases hr
    · rw [accept_of_alert halert hsecured] at hr
      cases hr
  by_cases hhello : r.kind = Record.handshake ∧ s.engine.phase = .idle ∧ s.engine.isClient = false
  · rw [accept_of_hello halert hhello] at hr
    split at hr
    · cases hr
    · next hok =>
      cases hr
      exact ⟨isSecured_of_answer hok, .inr rfl⟩
  by_cases hfinished : r.kind = Record.handshake ∧ s.engine.phase = .awaitFinished
  · rw [accept_of_finished halert hfinished] at hr
    cases hr
    exact ⟨rfl, .inr rfl⟩
  by_cases hdata : r.kind = Record.data ∧ s.engine.phase = .established
  · have hsecured := h.secured_iff.2 hdata.2
    rw [accept_of_data hdata] at hr
    cases hr
    refine ⟨?_, .inl hsecured⟩
    split
    · exact hsecured
    · exact hsecured
  · rw [accept_of_unexpected halert hhello hfinished hdata] at hr
    cases hr

theorem Settled.acceptAll_ok (h : s.Settled) {records : List Record} {n : Nat}
    (hall : s.acceptAll pool records = (.ok n, s')) :
    (s.IsSecured → s'.IsSecured) ∧ (s'.IsSecured ∨ n = 0) := by
  induction records generalizing s n with
  | nil =>
    cases hall
    exact ⟨id, .inr rfl⟩
  | cons r records ih =>
    unfold Standing.acceptAll at hall
    split at hall
    · cases hall
    · next heq =>
      have hnext := ((h.accept pool r).2 _ (by rw [heq]))
      rw [heq] at hnext
      split at hall
      · cases hall
      · next heq' =>
        cases hall
        have hsecured := (ih hnext heq').1 (h.accept_ok heq).1
        exact ⟨fun _ => hsecured, .inl hsecured⟩

theorem count_outcome {input left : Bytes} {n : Nat} (h : s'.IsSecured ∨ n = 0) :
    (s.outcome s' input left n).count = n := by
  unfold outcome
  split
  · split
    · rfl
    · next hn =>
      rcases Nat.eq_zero_or_pos n with rfl | hpos
      · rfl
      · exact absurd (.inr (Nat.ne_of_gt hpos)) hn
  · split
    · rfl
    · next hsecured => exact (h.resolve_left hsecured).symm

theorem outcome_ne_closed (s after : Standing) (input left : Bytes) (n : Nat) :
    s.outcome after input left n ≠ .closed := by
  unfold outcome
  split
  · split <;> nofun
  · split <;> nofun

/-! ### Reading in pieces -/

/-- A read that does not fail settles, and then takes all records. -/
theorem Sound.exists_of_read (h : s.Sound)
    {input left : Bytes} {o : Outcome} (hread : s.read pool input = (.ok (o, left), s')) :
    ∃ settled, s.settle pool = (.ok (), settled) ∧
      settled.acceptAll pool (Record.grammar.parse input).1 = (.ok o.count, s') ∧
      left = (Record.grammar.parse input).2 := by
  rcases hsettle : s.settle pool with ⟨_ | ⟨⟩, settled⟩
  · rw [Standing.read, hsettle] at hread
    cases hread
  · refine ⟨settled, rfl, ?_⟩
    have hsettled := (h.settle pool).2 () (by rw [hsettle])
    rw [hsettle] at hsettled
    rw [read_of_settle hsettle] at hread
    split at hread
    · cases hread
    · next hall =>
      cases hread
      rw [hall, count_outcome (hsettled.acceptAll_ok hall).2]
      exact ⟨rfl, rfl⟩

theorem Sound.length_le_of_read (h : s.Sound) {input left : Bytes} {o : Outcome}
    (hread : s.read pool input = (.ok (o, left), s')) : left.length ≤ input.length := by
  obtain ⟨-, -, -, hleft⟩ := h.exists_of_read hread
  obtain ⟨front, hfront, -⟩ := Grammar.exists_front (g := Record.grammar) input
  rw [← hleft] at hfront
  rw [hfront, List.length_append]
  omega

theorem ne_closed_of_read {input left : Bytes}
    {o : Outcome} (hread : s.read pool input = (.ok (o, left), s')) :
    o ≠ .closed := by
  rcases hsettle : s.settle pool with ⟨_ | ⟨⟩, settled⟩
  · rw [Standing.read, hsettle] at hread
    cases hread
  · rw [read_of_settle hsettle] at hread
    split at hread
    · cases hread
    · cases hread
      exact outcome_ne_closed _ _ _ _ _

/-- A read that fails does so whatever follows the input. -/
theorem read_append_of_error {a : Bytes} {e : Stop} (hread : s.read pool a = (.error e, s')) (b : Bytes) :
    s.read pool (a ++ b) = (.error e, s') := by
  rcases hsettle : s.settle pool with ⟨_ | ⟨⟩, settled⟩
  · rw [Standing.read, hsettle] at hread ⊢
    exact hread
  · rw [read_of_settle hsettle] at hread
    rw [read_of_settle hsettle, Grammar.parse_append, acceptAll_append]
    rcases hall : settled.acceptAll pool (Record.grammar.parse a).1 with ⟨_ | n, after⟩
    · rw [hall] at hread
      cases hread
      rfl
    · rw [hall] at hread
      cases hread

/-- Behind what a read has left, the rest of an input leads where the whole input leads. -/
theorem Sound.read_append (h : s.Sound)
    {a left : Bytes} {o : Outcome} (hread : s.read pool a = (.ok (o, left), s'))
    (b : Bytes) :
    match s'.read pool (left ++ b) with
    | (.error e, after) => s.read pool (a ++ b) = (.error e, after)
    | (.ok (o', rest), after) =>
      ∃ whole, s.read pool (a ++ b) = (.ok (whole, rest), after) ∧ whole.count = o.count + o'.count := by
  have hsettled' : s'.Settled := by
    have := (h.read pool a).2 _ (by rw [hread])
    rwa [hread] at this
  obtain ⟨settled, hsettle, hall, rfl⟩ := h.exists_of_read hread
  rw [read_of_settle hsettled'.settle_eq, read_of_settle hsettle, Grammar.parse_append a b,
    acceptAll_append, hall]
  dsimp only
  rcases hrest : s'.acceptAll pool (Record.grammar.parse ((Record.grammar.parse a).2 ++ b)).1 with
    ⟨e | n, after⟩
  · rfl
  · have hcount := (hsettled'.acceptAll_ok hrest).2
    refine ⟨_, rfl, ?_⟩
    rw [count_outcome hcount, count_outcome]
    by_cases ho : o.count = 0
    · rcases hcount with hcount | hcount
      · exact .inl hcount
      · exact .inr (by omega)
    · -- messages were delivered by the first part, so the channel is open from then on
      have hsettled := (h.settle pool).2 () (by rw [hsettle])
      rw [hsettle] at hsettled
      have hsecured := ((hsettled.acceptAll_ok hall).2).resolve_right ho
      exact .inl ((hsettled'.acceptAll_ok hrest).1 hsecured)

end SecureStream.Standing
