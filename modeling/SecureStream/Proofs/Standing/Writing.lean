import SecureStream.Channel.Basic
import SecureStream.Proofs.Standing.Output

/-!
# Writing on an open channel

A message is wrapped in the data records of `MaskedOptions.recordsOf`.  First the buffer grows once for every
overflow that the engine still feigns (`Link.wrapAll_feigned`), and then until all the records fit
(`Link.bare_wrapAll_cases`).  A write succeeds exactly if the steps that this takes stay within the limit
(`Link.write_cases`); one step to spare is enough (`Link.bare_write`).  Whatever comes of a write, it changes
nothing but the outgoing queue and the number of overflows that are still to be feigned
(`Link.standing_write`, `Link.sound_write`).
-/

namespace SecureStream

variable {pool : Pool}

/-! ### One call of the engine -/

namespace Masked

variable {m : Masked} {input : Bytes}

theorem wrap_eq_wrapData (h : m.phase = .established) (input : Bytes) (room : Nat) :
    m.wrap input room = m.wrapData input room := by
  unfold wrap
  rw [h]

/-- An open channel stays open. -/
theorem wrap_of_established (h : m.phase = .established) (input : Bytes) (room : Nat) :
    ∃ n, (m.wrap input room).2 = { m with feignedOverflows := n } := by
  rw [wrap_eq_wrapData h, wrapData]
  dsimp only
  split
  · exact ⟨m.feignedOverflows, rfl⟩
  · split
    · exact ⟨_, rfl⟩
    · split
      · exact ⟨m.feignedOverflows, rfl⟩
      · exact ⟨m.feignedOverflows, rfl⟩

private theorem take_ne_nil (h : input ≠ []) : ¬ (input.take m.options.maxPayload).isEmpty = true := by
  have := m.options.maxPayload_pos
  rw [List.isEmpty_iff, List.take_eq_nil_iff]
  rintro (hzero | hnil)
  · omega
  · exact h hnil

/-- A lack of room is feigned. -/
theorem wrap_of_feigned (h : m.phase = .established) (hfeigned : 0 < m.feignedOverflows) (hne : input ≠ [])
    (room : Nat) :
    m.wrap input room = (.overflow .none, { m with feignedOverflows := m.feignedOverflows - 1 }) := by
  rw [wrap_eq_wrapData h, wrapData]
  dsimp only
  rw [if_neg (take_ne_nil hne), if_pos hfeigned]

/-- The first record of a message. -/
theorem wrap_of_data (h : m.phase = .established) (hfeigned : m.feignedOverflows = 0) (hne : input ≠ [])
    (room : Nat) :
    m.wrap input room =
      let record : Record := ⟨Record.data, input.take m.options.maxPayload⟩
      if room < record.toBytes.length then (.overflow .none, m)
      else (⟨.ok, .none, record.payload.length, record.toBytes.length, record.toBytes⟩, m) := by
  rw [wrap_eq_wrapData h, wrapData]
  dsimp only
  rw [if_neg (take_ne_nil hne), if_neg (by omega)]

end Masked

namespace Link

variable {k : Link Masked Journal} {input : Bytes} {b : Scratch} {purpose : Purpose}

/-! ### What a write leaves as it is -/

theorem standing_wrapAll (purpose : Purpose) (hphase : k.engine.phase = .established) (input : Bytes)
    (b : Scratch) :
    ∃ n, (k.wrapAll purpose input b).2.standing =
      { k.standing with engine := { k.engine with feignedOverflows := n } } := by
  have hcall : ∀ {k : Link Masked Journal} (_ : k.engine.phase = .established) {room : Nat} {input : Bytes}
      {answer : Except EngineError Reply} {after : Link Masked Journal}
      (_ : k.wrap input room = (answer, after)),
      ∃ n, after.standing = { k.standing with engine := { k.engine with feignedOverflows := n } } := by
    intro k hphase room input answer after hwrap
    obtain ⟨n, hn⟩ := Masked.wrap_of_established hphase input room
    cases hwrap
    exact ⟨n, congrArg (fun m => Standing.mk m k.session k.handshaking) hn⟩
  fun_induction wrapAll purpose k input b with
  | case3 k input b r after hwrap filled hverdict grown hgrow ih =>
    obtain ⟨n, hn⟩ := hcall hphase hwrap
    have hengine : after.engine = { k.engine with feignedOverflows := n } := congrArg (·.engine) hn
    obtain ⟨n', hn'⟩ := ih (by show after.engine.phase = _; rw [hengine, hphase])
    refine ⟨n', ?_⟩
    rw [hn', standing_note, hn]
    show Standing.mk { after.engine with feignedOverflows := n' } k.session k.handshaking = _
    rw [hengine]
    rfl
  | case6 k input b r after hwrap filled hverdict hrest hconsumed ih =>
    obtain ⟨n, hn⟩ := hcall hphase hwrap
    have hengine : after.engine = { k.engine with feignedOverflows := n } := congrArg (·.engine) hn
    obtain ⟨n', hn'⟩ := ih (by rw [hengine, hphase])
    refine ⟨n', ?_⟩
    rw [hn', hn, hengine]
  | _ => exact hcall hphase ‹_›

/-- A write changes nothing but the number of overflows that are still to be feigned, and the outgoing queue
if it succeeds. -/
theorem standing_write (pool : Pool) (hphase : k.engine.phase = .established) (message : Bytes) :
    ∃ n, (k.write pool message).2.standing =
      { k.standing with
        engine := { k.engine with feignedOverflows := n }
        session :=
          match (k.write pool message).1 with
          | .error _ => k.session
          | .ok piece => k.session.enqueue piece } := by
  unfold write
  rw [wrapNew_eq_bytes]
  rcases Scratch.ofCapacity? (pool.ciphertextRoom message.length) pool with e | b
  · exact ⟨k.engine.feignedOverflows, rfl⟩
  · obtain ⟨n, hn⟩ := standing_wrapAll .application hphase message b
    dsimp only
    rcases hwrapped : k.wrapAll .application message b with ⟨_ | ⟨b', demand⟩, after⟩
    · rw [hwrapped] at hn
      exact ⟨n, hn⟩
    · rw [hwrapped] at hn
      refine ⟨n, ?_⟩
      dsimp only at hn ⊢
      rw [standing_enqueue, standing_note, hn]
      rfl

theorem sound_write (hsound : k.standing.Sound) (hsecured : k.standing.IsSecured) (message : Bytes) :
    (k.write pool message).2.standing.Sound := by
  obtain ⟨n, h⟩ := standing_write pool (hsound.secured_iff.1 hsecured) message
  rw [h]
  refine ⟨?_, hsound.taskRun, hsound.isOutputOver⟩
  rcases (k.write pool message).1 with _ | _
  · exact hsound.secured_iff
  · exact hsound.secured_iff

/-! ### One record -/

section Open

variable (hphase : k.engine.phase = .established) (hfeigned : k.engine.feignedOverflows = 0)
  (hne : input ≠ [])

include hphase hfeigned hne

/-- The buffer is enlarged until there is room for the first record. -/
theorem wrapAll_growFor (purpose : Purpose) (b : Scratch) :
    ∃ after, after.standing = k.standing ∧
      k.wrapAll purpose input b =
        match b.growFor (Record.mk Record.data (input.take k.engine.options.maxPayload)).toBytes.length with
        | .error e => (.error (.buffer e), after)
        | .ok grown => after.wrapAll purpose input grown := by
  obtain ⟨size, hsize⟩ :
      ∃ size, size = (Record.mk Record.data (input.take k.engine.options.maxPayload)).toBytes.length :=
    ⟨_, rfl⟩
  rw [← hsize]
  fun_induction Scratch.growFor b size generalizing k with
  | case1 b _ => exact ⟨k, rfl, rfl⟩
  | case2 b hfits e hgrow =>
    have hwrap := Masked.wrap_of_data hphase hfeigned hne b.room
    dsimp only at hwrap
    rw [if_pos (by omega)] at hwrap
    obtain ⟨after, hafter, hstanding⟩ := exists_of_wrap hwrap
    refine ⟨after, hstanding, ?_⟩
    rw [wrapAll_of_overflow hafter, hgrow]
  | case3 b hfits grown hgrow ih =>
    have hwrap := Masked.wrap_of_data hphase hfeigned hne b.room
    dsimp only at hwrap
    rw [if_pos (by omega)] at hwrap
    obtain ⟨after, hafter, hstanding⟩ := exists_of_wrap hwrap
    have hengine : after.engine = k.engine := congrArg (·.engine) hstanding
    rw [← hengine] at hphase hfeigned hsize
    obtain ⟨last, hlast, hall⟩ :=
      ih (k := after.note (.bufferGrown grown.capacity purpose)) hphase hfeigned hsize
    refine ⟨last, hlast.trans hstanding, ?_⟩
    rw [wrapAll_of_overflow hafter, hgrow]
    exact hall

/-- The first record is put into a buffer in which there is room for it. -/
theorem wrapAll_of_fits (purpose : Purpose) {b : Scratch}
    (hfits : (Record.mk Record.data (input.take k.engine.options.maxPayload)).toBytes.length ≤ b.room) :
    ∃ after stored, after.standing = k.standing ∧
      stored.bytes = b.bytes ++ (Record.mk Record.data (input.take k.engine.options.maxPayload)).toBytes ∧
      (∀ p, b.IsOf p → stored.IsOf p) ∧ stored.capacity = b.capacity ∧
      k.wrapAll purpose input b =
        if input.drop k.engine.options.maxPayload = [] then (.ok (stored, .none), after)
        else after.wrapAll purpose (input.drop k.engine.options.maxPayload) stored := by
  have hwrap := Masked.wrap_of_data hphase hfeigned hne b.room
  dsimp only at hwrap
  rw [if_neg (by omega)] at hwrap
  obtain ⟨after, hafter, hstanding⟩ := exists_of_wrap hwrap
  have hpos := k.engine.options.maxPayload_pos
  have hlength := List.length_pos_iff.2 hne
  have hdrop : input.drop (input.take k.engine.options.maxPayload).length =
    input.drop k.engine.options.maxPayload := by
    rw [List.length_take]
    rcases Nat.le_total k.engine.options.maxPayload input.length with hle | hle
    · rw [Nat.min_eq_left hle]
    · rw [Nat.min_eq_right hle, List.drop_length, List.drop_of_length_le hle]
  refine ⟨after, _, hstanding, Scratch.bytes_store hfits, fun p hp => hp.store _ _, rfl, ?_⟩
  rw [wrapAll, hafter]
  dsimp only
  rw [hdrop]
  by_cases hrest : input.drop k.engine.options.maxPayload = []
  · rw [if_pos hrest, dif_pos (List.isEmpty_iff.2 hrest)]
  · rw [if_neg hrest, dif_neg (mt List.isEmpty_iff.1 hrest), dif_neg (by rw [List.length_take]; omega)]

end Open

/-! ### All records -/

theorem bare_wrapAll_nil (hphase : k.engine.phase = .established) (b : Scratch) :
    bare (k.wrapAll purpose [] b) = (.ok (b, .none), k.standing) := by
  have hwrap : k.engine.wrap [] b.room = (⟨.ok, .none, 0, 0, []⟩, k.engine) := by
    rw [Masked.wrap_eq_wrapData hphase, Masked.wrapData]
    simp
  obtain ⟨after, hafter, hstanding⟩ := exists_of_wrap hwrap
  rw [wrapAll, hafter]
  dsimp only
  rw [dif_pos rfl, Scratch.store_nil]
  exact Prod.ext rfl hstanding

/-- The records of a message take the fewest steps after which all of them fit, or these go beyond the
limit. -/
theorem bare_wrapAll_cases (purpose : Purpose) (input : Bytes) (hp : pool.IsAmple)
    (hphase : k.engine.phase = .established) (hfeigned : k.engine.feignedOverflows = 0) (hb : b.IsOf pool) :
    let capacity := pool.reach b.capacity (b.size + k.engine.options.wrappedSize input.length)
    (capacity ≤ pool.limit ∧ ∃ b', bare (k.wrapAll purpose input b) = (.ok (b', .none), k.standing) ∧
        b'.bytes = b.bytes ++ Record.write (k.engine.options.recordsOf input)) ∨
      (pool.limit < capacity ∧
        bare (k.wrapAll purpose input b) = (.error (.buffer (pool.excess b.capacity)), k.standing)) := by
  obtain ⟨o, ho⟩ : ∃ o, o = k.engine.options := ⟨_, rfl⟩
  rw [← ho, ← o.length_recordsOf]
  -- record by record: the steps for all of them are those for the first and then those for the others
  fun_induction MaskedOptions.recordsOf o input generalizing k b with
  | case1 =>
    refine .inl ⟨?_, b, bare_wrapAll_nil hphase b, (List.append_nil _).symm⟩
    rw [pool.reach_of_le (by simp [b.size_le])]
    exact hb.capacity_le
  | case2 input hne ih =>
    obtain ⟨size, hsize⟩ : ∃ size, size = (Record.mk Record.data (input.take o.maxPayload)).toBytes.length :=
      ⟨_, rfl⟩
    obtain ⟨others, hothers⟩ : ∃ others, others = Record.write (o.recordsOf (input.drop o.maxPayload)) :=
      ⟨_, rfl⟩
    rw [← hothers] at ih
    rw [Record.write_cons, List.length_append, ← hsize, ← hothers]
    dsimp only at ih ⊢
    obtain ⟨after, hafter, hgrows⟩ := wrapAll_growFor hphase hfeigned hne purpose b
    rw [← ho, ← hsize] at hgrows
    rcases Scratch.growFor_cases hp hb size with ⟨hwithin, grown, hgrown, hcapacity⟩ | ⟨hbeyond, hfails⟩
    · obtain ⟨hbytes, hfits, -⟩ := Scratch.growFor_eq_ok hgrown
      have hengine : after.engine = k.engine := congrArg (·.engine) hafter
      rw [← hengine] at hphase hfeigned ho
      rw [hsize, ho] at hfits
      obtain ⟨last, stored, hlast, hstored, hof, hkept, hall⟩ :=
        wrapAll_of_fits hphase hfeigned hne purpose hfits
      rw [← ho, hbytes] at hstored
      rw [← ho] at hall
      rw [hgrown] at hgrows
      rw [hgrows]
      dsimp only
      rw [hall]
      by_cases hrest : input.drop o.maxPayload = []
      · have hnone : others = [] := by
          rw [hothers, hrest, MaskedOptions.recordsOf, if_pos rfl]
          rfl
        rw [if_pos hrest, hnone]
        refine .inl ⟨hwithin, stored, Prod.ext rfl (hlast.trans hafter), ?_⟩
        rw [hstored, List.append_nil]
      · have hlastEngine : last.engine = after.engine := congrArg (·.engine) hlast
        rw [← hlastEngine] at hphase hfeigned ho
        have hstoredSize : stored.size = b.size + size := by
          rw [← Scratch.length_bytes, hstored, List.length_append, Scratch.length_bytes, hsize]
        have hcases := ih hphase hfeigned (hof pool (hb.of_growFor hgrown)) ho
        rw [hstoredSize, hkept, hcapacity, pool.reach_reach (Nat.le_add_right _ _), pool.excess_reach hwithin,
          hstored, hlast, hafter, Nat.add_assoc, List.append_assoc] at hcases
        rw [if_neg hrest]
        exact hcases
    · rw [hfails] at hgrows
      rw [hgrows]
      refine .inr ⟨Nat.lt_of_lt_of_le hbeyond (pool.reach_mono (by omega)), ?_⟩
      exact Prod.ext rfl hafter

/-- A write on an open channel, when there is room for all records of the message and one step to spare. -/
theorem bare_write (hp : pool.IsAmple) (hphase : k.engine.phase = .established)
    (hfeigned : k.engine.feignedOverflows = 0)
    (message : Bytes) (hroom : k.engine.options.wrappedSize message.length + pool.growth ≤ pool.limit) :
    bare (k.write pool message) =
      (.ok (Record.write (k.engine.options.recordsOf message)),
        { k.standing with
          session := k.standing.session.enqueue (Record.write (k.engine.options.recordsOf message)) }) := by
  obtain ⟨b, hb⟩ := Scratch.exists_ofCapacity? hp (pool.ciphertextRoom_le message.length)
  obtain ⟨hof, hsize, -⟩ := Scratch.isOf_of_ofCapacity? hb
  have hcapacity := hof.capacity_le
  have hreach := pool.reach_le b.capacity (b.size + k.engine.options.wrappedSize message.length)
  rcases bare_wrapAll_cases .application message hp hphase hfeigned hof with
    ⟨-, b', hbare, hbytes⟩ | ⟨hbeyond, -⟩
  · rw [Scratch.bytes_of_ofCapacity? hb, List.nil_append] at hbytes
    unfold write
    rw [wrapNew_eq_bytes, hb]
    dsimp only
    rcases hwrapped : k.wrapAll .application message b with ⟨result, after⟩
    rw [hwrapped] at hbare
    obtain ⟨rfl, hafter⟩ := Prod.mk.inj hbare
    dsimp only at hafter ⊢
    rw [bare_mk, standing_enqueue, standing_note, hafter, hbytes]
  · omega

end Link

end SecureStream
