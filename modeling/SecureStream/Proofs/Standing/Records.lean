import SecureStream.Proofs.Standing.Handshake

/-!
# Records of a standing

On an open channel the loop over the records of an input is `Standing.acceptAll` (`Link.ending_unwrapAll`),
unless there is no room for a message.  A buffer as large as the input has room for all its messages, and a
pool gives such a buffer as long as the input is within its limit, so that `Link.read` is `Standing.read`
(`Link.ending_read`).
-/

namespace SecureStream

variable {pool : Pool}

theorem Masked.unwrap_of_data {m : Masked} {input rest : Bytes} {r : Record} (hphase : m.phase = .established)
    (hnext : Record.next? input = some (r, rest)) (hdata : r.kind = Record.data) (room : Nat) :
    m.unwrap input room =
      if room < r.payload.length then (.ok (.overflow .none), m)
      else (.ok ⟨.ok, .none, Record.headerSize + r.payload.length, r.payload.length, r.payload⟩, m) := by
  have hopen : ¬ (m.phase = .sendAlert ∨ m.phase = .closed) := by
    rw [hphase]
    nofun
  have hkind : r.kind ≠ Record.alert ∧ r.kind ≠ Record.handshake := by
    rw [hdata]
    decide
  rw [unwrap_of_some hopen hnext, accept, if_neg hkind.1, if_neg (fun h => hkind.2 h.1),
    if_neg (fun h => hkind.2 h.1), if_pos ⟨hdata, hphase⟩]

namespace Link

/-- How a read ends, and where the end stands then.  What is left behind the end of the channel does not
count. -/
def ending (x : Except ChannelError (Outcome × Bytes) × Link Masked Journal) :
    Except Stop (Outcome × Bytes) × Standing :=
  (match x.1 with
    | .error e => .error (.failed e)
    | .ok (.closed, _) => .error .closed
    | .ok found => .ok found,
   x.2.standing)

theorem ending_ok {o : Outcome} (h : o ≠ .closed) (left : Bytes) (k : Link Masked Journal) :
    ending (.ok (o, left), k) = (.ok (o, left), k.standing) := by
  cases o with
  | closed => exact absurd rfl h
  | _ => rfl

variable {k : Link Masked Journal} {input rest : Bytes} {r : Record} {b : Scratch} {n : Nat}

/-! ### One record -/

theorem standing_handOver (consumed : Nat) :
    (k.handOver consumed b).standing =
      if b.bytes = [] then k.standing else
        { k.standing with session := k.standing.session.deliver b.bytes } := by
  unfold handOver
  by_cases hempty : b.bytes = []
  · rw [if_pos hempty, if_pos (Scratch.isEmpty_iff.2 hempty)]
  · rw [if_neg hempty, if_neg (mt Scratch.isEmpty_iff.1 hempty)]
    rfl

/-- The answer to an alert that comes in on an open channel. -/
theorem bare_answerClose (pool : Pool) (hphase : k.engine.phase = .sendAlert)
    (hover : k.engine.isOutputOver = false) :
    bare (k.answerClose pool .output) =
      match Standing.answerAlert pool { k.standing with session := k.standing.session.moveTo .connected } with
      | .error e => (.error (.buffer e), { k.standing with session := k.standing.session.moveTo .connected })
      | .ok s => (.ok (), s) := by
  have hclosing :=
    bare_sendClosing (k := (k.note (.closeReceived .output)).moveTo .connected) pool hphase hover 0
  unfold answerClose
  rw [if_pos rfl]
  rcases hsent : ((k.note (.closeReceived .output)).moveTo .connected).sendClosing pool 0 with ⟨result, after⟩
  rw [hsent, standing_moveTo, standing_note] at hclosing
  split at hclosing
  · next heq =>
    obtain ⟨rfl, hafter⟩ := Prod.mk.inj hclosing
    rw [heq]
    exact Prod.ext rfl hafter
  · next heq =>
    obtain ⟨rfl, hafter⟩ := Prod.mk.inj hclosing
    rw [heq]
    exact Prod.ext rfl hafter

section Established

variable (hphase : k.engine.phase = .established)

include hphase

private theorem not_closed_of_established : ¬ (k.engine.phase = .sendAlert ∨ k.engine.phase = .closed) := by
  rw [hphase]
  nofun

theorem ending_unwrapAll_of_none (hnext : Record.next? input = none) :
    ending (k.unwrapAll pool input b n) =
      (.ok (if n = 0 then .starved else .delivered n, input), k.standing) := by
  rw [unwrapAll_eq, unwrap_eq (Masked.unwrap_of_none (not_closed_of_established hphase) hnext b.room)]
  by_cases hn : n = 0
  · simp only [if_pos hn]
    rfl
  · simp only [if_neg hn]
    rfl

/-- A record that has no place on an open channel. -/
theorem ending_unwrapAll_of_unexpected (hnext : Record.next? input = some (r, rest))
    (halert : r.kind ≠ Record.alert)
    (hdata : r.kind ≠ Record.data) :
    ∃ e s, k.standing.accept pool r = (.error e, s) ∧
      ending (k.unwrapAll pool input b n) = (.error e, s) := by
  have hhello : ¬ (r.kind = Record.handshake ∧ k.engine.phase = .idle ∧ k.engine.isClient = false) := by
    rw [hphase]
    rintro ⟨-, ⟨⟩, -⟩
  have hfinished : ¬ (r.kind = Record.handshake ∧ k.engine.phase = .awaitFinished) := by
    rw [hphase]
    rintro ⟨-, ⟨⟩⟩
  have hunwrap := Masked.unwrap_of_some (not_closed_of_established hphase) hnext b.room
  rw [Masked.accept, if_neg halert, if_neg hhello, if_neg hfinished, if_neg (fun h => hdata h.1)] at hunwrap
  refine ⟨_, _, Standing.accept_of_unexpected halert hhello hfinished (fun h => hdata h.1), ?_⟩
  rw [unwrapAll_eq, unwrap_eq hunwrap]
  rfl

/-- An alert on an open channel. -/
theorem ending_unwrapAll_of_alert (hnext : Record.next? input = some (r, rest))
    (halert : r.kind = Record.alert)
    (hsecured : k.standing.IsSecured) (hover : k.engine.isOutputOver = false) :
    ∃ e s, k.standing.accept pool r = (.error e, s) ∧
      ending (k.unwrapAll pool input b n) = (.error e, s) := by
  have hunwrap := Masked.unwrap_of_some (not_closed_of_established hphase) hnext b.room
  rw [Masked.accept, if_pos halert] at hunwrap
  obtain ⟨after, hafter, hstanding⟩ := exists_of_unwrap hunwrap
  have hopen : after.state = .secured := by
    show after.standing.session.state = .secured
    rw [hstanding]
    exact hsecured
  have hengine : after.engine = { k.engine with phase := .sendAlert } := congrArg (·.engine) hstanding
  have hanswer := bare_answerClose (k := after) pool (by rw [hengine]) (by rw [hengine, hover])
  have haccept := Standing.accept_of_closing pool halert hsecured
  rw [unwrapAll_eq, hafter]
  dsimp only
  rw [if_pos hopen]
  rcases hanswered : after.answerClose pool .output with ⟨result, last⟩
  rw [hanswered, hstanding] at hanswer
  split at hanswer
  · next heq =>
    obtain ⟨rfl, hlast⟩ := Prod.mk.inj hanswer
    erw [heq] at haccept
    exact ⟨_, _, haccept, Prod.ext rfl hlast⟩
  · next heq =>
    obtain ⟨rfl, hlast⟩ := Prod.mk.inj hanswer
    erw [heq] at haccept
    exact ⟨_, _, haccept, Prod.ext rfl hlast⟩

/-- The buffer is enlarged until there is room for the message of a data record. -/
theorem unwrapAll_growFor (pool : Pool) (hnext : Record.next? input = some (r, rest))
    (hdata : r.kind = Record.data) :
    ∃ after, after.standing = k.standing ∧
      k.unwrapAll pool input b n =
        match b.growFor r.payload.length with
        | .error e => (.error (.buffer e), after)
        | .ok grown => after.unwrapAll pool input grown n := by
  -- the engine turns the record down until the buffer has grown enough
  fun_induction Scratch.growFor b r.payload.length generalizing k with
  | case1 b _ => exact ⟨k, rfl, rfl⟩
  | case2 b hfits e hgrow =>
    have hunwrap := Masked.unwrap_of_data hphase hnext hdata b.room
    rw [if_pos (by omega)] at hunwrap
    obtain ⟨after, hafter, hstanding⟩ := exists_of_unwrap hunwrap
    refine ⟨after, hstanding, ?_⟩
    rw [unwrapAll_eq, hafter]
    dsimp only [Reply.overflow]
    rw [Scratch.store_nil, hgrow]
  | case3 b hfits grown hgrow ih =>
    have hunwrap := Masked.unwrap_of_data hphase hnext hdata b.room
    rw [if_pos (by omega)] at hunwrap
    obtain ⟨after, hafter, hstanding⟩ := exists_of_unwrap hunwrap
    have hengine : after.engine = k.engine := congrArg (·.engine) hstanding
    obtain ⟨last, hlast, hall⟩ := ih (hengine ▸ hphase)
    refine ⟨last, hlast.trans hstanding, ?_⟩
    rw [← hall, unwrapAll_eq, hafter]
    dsimp only [Reply.overflow]
    rw [Scratch.store_nil, hgrow]
    rfl

/-- A data record for whose message there is room. -/
theorem unwrapAll_of_fits (pool : Pool) (hnext : Record.next? input = some (r, rest))
    (hdata : r.kind = Record.data)
    (hempty : b.bytes = []) (hfits : r.payload.length ≤ b.room) :
    ∃ served, served.standing = (k.standing.accept pool r).2 ∧
      k.unwrapAll pool input b n =
        if rest = [] then (.ok (.delivered (n + r.payload.length), []), served)
        else served.unwrapAll pool rest (b.store r.payload r.payload.length).clear
          (n + r.payload.length) := by
  have hunwrap := Masked.unwrap_of_data hphase hnext hdata b.room
  rw [if_neg (by omega)] at hunwrap
  obtain ⟨after, hafter, hstanding⟩ := exists_of_unwrap hunwrap
  have hbytes : (b.store r.payload r.payload.length).bytes = r.payload := by
    rw [Scratch.bytes_store hfits, hempty, List.nil_append]
  have hsize : (b.store r.payload r.payload.length).size = r.payload.length := by
    rw [← Scratch.length_bytes, hbytes]
  refine ⟨after.handOver (Record.headerSize + r.payload.length) (b.store r.payload r.payload.length), ?_, ?_⟩
  · rw [standing_handOver, hbytes, hstanding, Standing.accept_of_data ⟨hdata, hphase⟩]
    rfl
  · rw [unwrapAll_eq, hafter]
    dsimp only
    rw [if_neg (by simp only [Record.headerSize]; omega), Record.drop_of_next? hnext, hsize]
    by_cases hrest : rest = []
    · rw [if_pos hrest, if_pos (List.isEmpty_iff.2 hrest), hrest]
    · rw [if_neg hrest, if_neg (mt List.isEmpty_iff.1 hrest)]

/-- A data record is taken, or there is no room for its message. -/
theorem unwrapAll_of_data (pool : Pool) (hnext : Record.next? input = some (r, rest))
    (hdata : r.kind = Record.data)
    (hempty : b.bytes = []) :
    (b.capacity < r.payload.length ∧ ∃ e after, k.unwrapAll pool input b n = (.error (.buffer e), after) ∧
        after.standing = k.standing) ∨
      ∃ served cleared, served.standing = (k.standing.accept pool r).2 ∧ cleared.bytes = [] ∧
        b.capacity ≤ cleared.capacity ∧
        k.unwrapAll pool input b n =
          if rest = [] then (.ok (.delivered (n + r.payload.length), []), served)
          else served.unwrapAll pool rest cleared (n + r.payload.length) := by
  obtain ⟨after, hafter, hall⟩ := unwrapAll_growFor (b := b) (n := n) hphase pool hnext hdata
  rcases hroom : b.growFor r.payload.length with e | grown
  · rw [hroom] at hall
    have hshort := Scratch.room_lt_of_growFor hroom
    rw [Scratch.room_eq, ← Scratch.length_bytes, hempty] at hshort
    exact .inl ⟨hshort, e, after, hall, hafter⟩
  · rw [hroom] at hall
    obtain ⟨hbytes, hfits, hcapacity⟩ := Scratch.growFor_eq_ok hroom
    have hengine : after.engine = k.engine := congrArg (·.engine) hafter
    obtain ⟨served, hserved, hone⟩ := unwrapAll_of_fits (n := n) (by rw [hengine, hphase]) pool hnext hdata
      (hbytes.trans hempty) hfits
    exact .inr ⟨served, (grown.store r.payload r.payload.length).clear, by rw [hserved, hafter], rfl,
      hcapacity, hall.trans hone⟩

end Established

/-! ### All records -/

/-- The loop takes all records, or there is no room for a message in a buffer that is smaller than the
input. -/
theorem ending_unwrapAll (hsound : k.standing.Sound) (hsecured : k.standing.IsSecured) (hempty : b.bytes = [])
    (hinput : input ≠ []) :
    (b.capacity < input.length ∧ (∃ e, (k.unwrapAll pool input b n).1 = .error (.buffer e)) ∧
        (k.unwrapAll pool input b n).2.standing.Sound) ∨
      ending (k.unwrapAll pool input b n) =
        match k.standing.acceptAll pool (Record.grammar.parse input).1 with
        | (.error e, s) => (.error e, s)
        | (.ok m, s) =>
          (.ok (if (Record.grammar.parse input).2 = [] ∨ n + m ≠ 0 then .delivered (n + m) else .starved,
            (Record.grammar.parse input).2), s) := by
  -- along the records of the input; an open channel stays open with every record that is taken
  fun_induction Grammar.parse Record.grammar input generalizing k b n with
  | case1 input hnext =>
    have hphase := hsound.secured_iff.1 hsecured
    refine .inr ?_
    rw [ending_unwrapAll_of_none hphase hnext]
    by_cases hn : n = 0 <;> simp [Standing.acceptAll, hinput, hn]
  | case2 input r rest hnext hlt ih =>
    have hphase := hsound.secured_iff.1 hsecured
    have hlength := Record.length_rest_of_next? hnext
    rw [Standing.acceptAll]
    by_cases halert : r.kind = Record.alert
    · refine .inr ?_
      have hover := hsound.isOutputOver (by rw [hphase]; decide)
      obtain ⟨e, s, haccept, hends⟩ :=
        ending_unwrapAll_of_alert (b := b) (n := n) hphase hnext halert hsecured hover
      rw [hends, haccept]
    by_cases hdata : r.kind = Record.data
    · rcases unwrapAll_of_data (n := n) hphase pool hnext hdata hempty with
        ⟨hshort, e, after, hall, hafter⟩ | ⟨served, cleared, hserved, hcleared, hcapacity, hall⟩
      · rw [hall]
        exact .inl ⟨by omega, ⟨e, rfl⟩, hafter ▸ hsound⟩
      · have hsettled := Standing.Settled.of_isSecured hsound hsecured
        obtain ⟨next, haccept⟩ : ∃ next, k.standing.accept pool r = (.ok r.payload.length, next) :=
          ⟨_, Standing.accept_of_data ⟨hdata, hphase⟩⟩
        have hserves : next.Sound := by
          have := (hsettled.accept pool r).1
          rwa [haccept] at this
        have hstays := (hsettled.accept_ok haccept).1
        rw [haccept] at hserved ⊢
        rw [hall]
        by_cases hrest : rest = []
        · refine .inr ?_
          rw [if_pos hrest, hrest, Grammar.parse_of_none (by rfl)]
          simp [ending, Standing.acceptAll, hserved]
        · rw [if_neg hrest]
          rw [← show served.standing = next from hserved] at hserves hstays
          rcases ih (n := n + r.payload.length) hserves hstays hcleared hrest with
            ⟨hshort, hfails, hends⟩ | hends
          · exact .inl ⟨by omega, hfails, hends⟩
          · refine .inr ?_
            rw [hends, hserved]
            dsimp only
            rcases Standing.acceptAll pool _ (Record.grammar.parse rest).1 with ⟨_ | m, s⟩
            · rfl
            · dsimp only
              rw [Nat.add_assoc]
    · refine .inr ?_
      obtain ⟨e, s, haccept, hends⟩ :=
        ending_unwrapAll_of_unexpected (b := b) (n := n) hphase hnext halert hdata
      rw [hends, haccept]

/-! ### Reading -/

/-- The first buffer for messages is as large as the input, or as large as it may be. -/
private theorem plaintextRoom_lt (hp : pool.IsAmple) (h : pool.plaintextRoom input.length < input.length) :
    pool.limit < input.length := by
  have hblock := hp.1
  have hle : input.length ≤ input.length * pool.expansion := Nat.le_mul_of_pos_right _ pool.expansion_pos
  simp only [Sizing.plaintextRoom, Size.mul, Size.maxBlock, Size.top] at *
  omega

/-- A read on an open channel. -/
theorem ending_unwrapRecords (hp : pool.IsAmple) (hsound : k.standing.Sound) (hsecured : k.standing.IsSecured)
    (input : Bytes) :
    (pool.limit < input.length ∧ (∃ e, (k.unwrapRecords pool input).1 = .error (.buffer e)) ∧
        (k.unwrapRecords pool input).2.standing.Sound) ∨
      ending (k.unwrapRecords pool input) = k.standing.read pool input := by
  rw [Standing.read_of_settle (Standing.settle_of_isSecured hsecured)]
  by_cases hinput : input = []
  · subst hinput
    refine .inr ?_
    rw [Grammar.parse_of_none (by rfl)]
    dsimp only [Standing.acceptAll]
    rw [Standing.outcome, if_pos hsecured]
    rfl
  · obtain ⟨b, hb⟩ := Scratch.exists_ofCapacity? hp (pool.plaintextRoom_le input.length)
    have hcapacity := (Scratch.isOf_of_ofCapacity? hb).2.2
    unfold unwrapRecords
    rw [if_neg (mt List.isEmpty_iff.1 hinput), hb]
    rcases ending_unwrapAll (n := 0) hsound hsecured (Scratch.bytes_of_ofCapacity? hb) hinput with
      ⟨hshort, hfails, hends⟩ | hends
    · rw [hcapacity] at hshort
      exact .inl ⟨plaintextRoom_lt hp hshort, hfails, hends⟩
    · refine .inr (hends.trans ?_)
      rcases k.standing.acceptAll pool (Record.grammar.parse input).1 with ⟨_ | m, s⟩
      · rfl
      · dsimp only
        rw [Standing.outcome, if_pos hsecured, Nat.zero_add]
        simp [hinput]

/-- A read that opens the channel reports what was delivered after that. -/
private theorem ending_secured {x : Except ChannelError (Outcome × Bytes) × Link Masked Journal}
    {s : Standing}
    (hsecured : s.IsSecured) {input left : Bytes} {y : Except Stop Nat × Standing} :
    (ending x =
      match y with
      | (.error e, after) => (.error e, after)
      | (.ok n, after) => (.ok (s.outcome after input left n, left), after)) →
    ending
        (match x with
        | (.error e, k) => (.error e, k)
        | (.ok (.closed, left), k) => (.ok (.closed, left), k)
        | (.ok (.delivered n, left), k) => (.ok (.secured n, left), k)
        | (.ok (_, left), k) => (.ok (.secured 0, left), k)) =
      match y with
      | (.error e, s) => (.error e, s)
      | (.ok n, s) => (.ok (.secured n, left), s) := by
  intro h
  obtain ⟨e | ⟨o, rest⟩, k⟩ := x
  · obtain ⟨_ | n, after⟩ := y
    · exact h
    · cases h
  · obtain ⟨e | n, after⟩ := y
    · cases o <;> cases h
      rfl
    · dsimp only [Standing.outcome] at h
      rw [if_pos hsecured] at h
      split at h
      · cases o <;> cases h
        rfl
      · next hstarved =>
        have hn : n = 0 := Nat.eq_zero_of_not_pos fun hpos => hstarved (.inr (Nat.ne_of_gt hpos))
        cases o <;> cases h
        rw [hn]
        rfl

/-- A read is what the standing says, unless there is no room for a message of an input beyond the limit. -/
theorem ending_read (hp : pool.IsAmple) (hsound : k.standing.Sound) (input : Bytes) :
    (pool.limit < input.length ∧ (∃ e, (k.read pool .onTheSpot input).1 = .error (.buffer e)) ∧
        (k.read pool .onTheSpot input).2.standing.Sound) ∨
      ending (k.read pool .onTheSpot input) = k.standing.read pool input := by
  unfold read
  by_cases hstate : k.state = .secured
  · rw [if_pos hstate]
    exact ending_unwrapRecords hp hsound hstate input
  rw [if_neg hstate]
  have hsecured : ¬ k.standing.IsSecured := hstate
  obtain ⟨hsound', hopens, hread⟩ := hsound.read_of_shake pool hsecured input
  have hshake := bare_shake_enterHandshake hp hsound hsecured input.length input
  rw [hread, ← hshake]
  rw [← hshake] at hsound' hopens
  unfold readSecuring
  dsimp only
  rcases hshook : k.enterHandshake.shake pool .onTheSpot input.length k.enterHandshake.demand input with
    ⟨e | ⟨_ | _, left⟩, after⟩
  · exact .inr rfl
  · exact .inr rfl
  · rw [hshook] at hsound' hopens
    dsimp only [bare_mk] at hsound' hopens ⊢
    obtain ⟨hopen, hlength⟩ := hopens left rfl
    rcases ending_unwrapRecords hp hsound' hopen left with ⟨hlong, ⟨e, hfails⟩, hends⟩ | hends
    · rcases hunwrapped : after.unwrapRecords pool left with ⟨result, last⟩
      rw [hunwrapped] at hfails hends
      dsimp only at hfails
      subst hfails
      exact .inl ⟨by omega, ⟨e, rfl⟩, hends⟩
    · rw [Standing.read_of_settle (Standing.settle_of_isSecured hopen)] at hends
      refine .inr (Eq.trans ?_ (ending_secured hopen hends))
      rcases after.unwrapRecords pool left with ⟨_ | ⟨o, _⟩, _⟩
      · rfl
      · cases o <;> rfl

end Link

end SecureStream
