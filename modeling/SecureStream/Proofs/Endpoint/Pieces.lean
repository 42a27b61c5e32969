import SecureStream.Proofs.Endpoint.Standing

/-!
# Input in pieces

It makes no difference how input is cut into pieces.  `Endpoint.receive_append` is the law for two pieces,
for an end with any history: if the first read neither fails nor finds the channel closed, then the second
leads where the read of both pieces together leads (`Endpoint.Agrees`), it fails and is closed as that one
does, and the numbers of bytes delivered add up (`Endpoint.EndsAs`).  `Endpoint.receiveAll` takes any number
of pieces, up to the first read that fails or is closed.

What waits and the new pieces must be within the limit together.  Beyond the limit the law is lost: a read
at once needs no buffer for what waits, while the second of two reads does.
-/

namespace SecureStream.Endpoint

/-- Ends that differ in nothing but the room to spare behind the input that waits. -/
structure Agrees (p q : Endpoint) : Prop where
  options_eq : p.options = q.options
  pool_eq : p.channel.pool = q.channel.pool
  runner_eq : p.channel.runner = q.channel.runner
  engine_eq : p.channel.engine = q.channel.engine
  handshaking_eq : p.channel.handshaking = q.channel.handshaking
  waiting_eq : p.channel.backlog.map (·.bytes) = q.channel.backlog.map (·.bytes)
  session_eq : p.session = q.session

/-- The last of several reads ends as one read at once, if the reads before it have delivered `n` bytes. -/
structure EndsAs (n : Nat) (last whole : Except ChannelError Outcome) : Prop where
  error_iff : ∀ e, last = .error e ↔ whole = .error e
  closed_iff : last = .ok .closed ↔ whole = .ok .closed
  count_eq : ∀ o o', last = .ok o → whole = .ok o' → o ≠ .closed → o'.count = n + o.count

/-- Takes input piece by piece, up to the first read that fails or finds the channel closed.  Gives the
number of bytes delivered before the last read, its result, and the end after it. -/
def receiveAll (p : Endpoint) (input : Bytes) : List Bytes → Nat × Except ChannelError Outcome × Endpoint
  | [] => (0, (p.receive input).result, p.after (p.receive input))
  | next :: more =>
    match (p.receive input).result with
    | .error e => (0, .error e, p.after (p.receive input))
    | .ok .closed => (0, .ok .closed, p.after (p.receive input))
    | .ok o =>
      let (n, result, last) := (p.after (p.receive input)).receiveAll next more
      (o.count + n, result, last)

variable {p q r : Endpoint}

theorem Agrees.refl (p : Endpoint) : p.Agrees p := ⟨rfl, rfl, rfl, rfl, rfl, rfl, rfl⟩

theorem Agrees.trans (hpq : p.Agrees q) (hqr : q.Agrees r) : p.Agrees r :=
  ⟨hpq.options_eq.trans hqr.options_eq, hpq.pool_eq.trans hqr.pool_eq, hpq.runner_eq.trans hqr.runner_eq,
    hpq.engine_eq.trans hqr.engine_eq, hpq.handshaking_eq.trans hqr.handshaking_eq,
    hpq.waiting_eq.trans hqr.waiting_eq, hpq.session_eq.trans hqr.session_eq⟩

theorem agrees_moved (p : Endpoint) (s : Standing) {backlog backlog' : Option Backlog}
    (h : backlog.map (·.bytes) = backlog'.map (·.bytes)) : (p.moved s backlog).Agrees (p.moved s backlog') :=
  ⟨rfl, rfl, rfl, rfl, rfl, h, rfl⟩

namespace EndsAs

variable {n m : Nat} {first last whole : Except ChannelError Outcome}

theorem refl (result : Except ChannelError Outcome) : EndsAs 0 result result := by
  refine ⟨fun _ => Iff.rfl, Iff.rfl, ?_⟩
  rintro o o' rfl ⟨⟩ -
  exact (Nat.zero_add _).symm

theorem of_error (e : ChannelError) : EndsAs n (.error e) (.error e) := ⟨fun _ => Iff.rfl, Iff.rfl, nofun⟩

theorem of_closed : EndsAs n (.ok .closed) (.ok .closed) := by
  refine ⟨fun _ => Iff.rfl, Iff.rfl, ?_⟩
  rintro o o' ⟨⟩ - hclosed
  exact absurd rfl hclosed

theorem of_count {o o' : Outcome} (ho : o ≠ .closed) (ho' : o' ≠ .closed) (h : o'.count = n + o.count) :
    EndsAs n (.ok o) (.ok o') := by
  refine ⟨fun e => iff_of_false nofun nofun, iff_of_false ?_ ?_, ?_⟩
  · rintro ⟨⟩
    exact ho rfl
  · rintro ⟨⟩
    exact ho' rfl
  · rintro _ _ ⟨⟩ ⟨⟩ -
    exact h

theorem trans (hfirst : EndsAs n first last) (hlast : EndsAs m last whole) : EndsAs (m + n) first whole := by
  refine ⟨fun e => (hfirst.error_iff e).trans (hlast.error_iff e), hfirst.closed_iff.trans hlast.closed_iff,
    ?_⟩
  rintro o o' rfl rfl ho
  rcases last with e | mid
  · cases (hfirst.error_iff e).2 rfl
  · have hmid : mid ≠ .closed := by
      rintro rfl
      cases hfirst.closed_iff.2 rfl
      exact ho rfl
    have hn := hfirst.count_eq o mid rfl rfl ho
    have hm := hlast.count_eq mid o' rfl rfl hmid
    omega

end EndsAs

/-! ### Sound ends -/

theorem pending_of_held {backlog : Option Backlog} {left : Bytes} {s : Standing}
    (h : backlog.map (·.bytes) = held left) : (p.moved s backlog).pending = left := by
  show (backlog.map (·.bytes)).getD [] = left
  rw [h]
  unfold held
  split
  · next hnil => exact hnil.symm
  · rfl

section Law

variable (hp : p.channel.pool.IsAmple) (h : p.Sound) {a b : Bytes}
variable (hroom : p.pending.length + a.length + b.length ≤ p.channel.pool.limit)

include hp h hroom

/-- What a read says that neither fails nor finds the channel closed. -/
theorem exists_of_receive {o : Outcome} (hresult : (p.receive a).result = .ok o) (ho : o ≠ .closed) :
    ∃ left s backlog, p.standing.read p.channel.pool (p.pending ++ a) = (.ok (o, left), s) ∧
      p.after (p.receive a) = p.moved s backlog ∧ backlog.map (·.bytes) = held left := by
  have hfirst := reads_of_room hp h a (by omega)
  unfold Reads at hfirst
  split at hfirst
  · rw [hfirst.1] at hresult
    cases hresult
    exact absurd rfl ho
  · rw [hfirst.1] at hresult
    cases hresult
  · next o' left s hread =>
    obtain ⟨hok, backlog, hafter, hheld, -⟩ := hfirst
    rw [hok] at hresult
    cases hresult
    exact ⟨left, s, backlog, hread, hafter, hheld⟩

/-- The second of two reads leads where the read of everything at once leads. -/
theorem receive_append_of_sound {o : Outcome} (hresult : (p.receive a).result = .ok o) (ho : o ≠ .closed) :
    ((p.after (p.receive a)).after ((p.after (p.receive a)).receive b)).Agrees
      (p.after (p.receive (a ++ b))) ∧
      EndsAs o.count ((p.after (p.receive a)).receive b).result (p.receive (a ++ b)).result := by
  obtain ⟨left, s, backlog, hread, hafter, hheld⟩ := exists_of_receive hp h hroom hresult ho
  have hmoved : (p.moved s backlog).Sound := hafter ▸ h.receive hp a
  have hpending : (p.moved s backlog).pending = left := pending_of_held hheld
  have hleft := h.standing.length_le_of_read hread
  rw [List.length_append] at hleft
  rw [hafter]
  have hsecond := reads_of_room (p := p.moved s backlog) hp hmoved b (by
    rw [hpending]
    show left.length + b.length ≤ p.channel.pool.limit
    omega)
  have hwhole := reads_of_room hp h (a ++ b) (by rw [List.length_append]; omega)
  have hlaw := h.standing.read_append hread b
  rw [List.append_assoc] at hlaw
  unfold Reads at hsecond hwhole
  rw [hpending, standing_moved, pool_moved] at hsecond
  rcases hrest : s.read p.channel.pool (left ++ b) with ⟨(_ | e) | ⟨o', left'⟩, last⟩
  · rw [hrest] at hlaw hsecond
    rw [hlaw] at hwhole
    rw [hsecond.1, hsecond.2, hwhole.1, hwhole.2]
    exact ⟨Agrees.refl _, .of_closed⟩
  · rw [hrest] at hlaw hsecond
    rw [hlaw] at hwhole
    rw [hsecond.1, hsecond.2, hwhole.1, hwhole.2]
    exact ⟨Agrees.refl _, .of_error e⟩
  · rw [hrest] at hlaw hsecond
    obtain ⟨whole, hwholeRead, hcount⟩ := hlaw
    rw [hwholeRead] at hwhole
    obtain ⟨hok, backlog₁, hafter₁, hheld₁, -⟩ := hsecond
    obtain ⟨hok₂, backlog₂, hafter₂, hheld₂, -⟩ := hwhole
    rw [hok, hafter₁, hok₂, hafter₂]
    exact ⟨agrees_moved p last (hheld₁.trans hheld₂.symm),
      .of_count (Standing.ne_closed_of_read hrest) (Standing.ne_closed_of_read hwholeRead) hcount⟩

/-- A read that fails, or finds the channel closed, does so whatever follows the input. -/
theorem receive_append_of_stop (hresult : ∀ o, (p.receive a).result = .ok o → o = .closed) :
    (p.after (p.receive a)).Agrees (p.after (p.receive (a ++ b))) ∧
      EndsAs 0 (p.receive a).result (p.receive (a ++ b)).result := by
  have hfirst := reads_of_room hp h a (by omega)
  have hwhole := reads_of_room hp h (a ++ b) (by rw [List.length_append]; omega)
  unfold Reads at hfirst hwhole
  rw [← List.append_assoc] at hwhole
  rcases hread : p.standing.read p.channel.pool (p.pending ++ a) with ⟨(_ | e) | ⟨o, left⟩, s⟩
  · rw [hread] at hfirst
    rw [Standing.read_append_of_error hread] at hwhole
    rw [hfirst.1, hfirst.2, hwhole.1, hwhole.2]
    exact ⟨Agrees.refl _, .of_closed⟩
  · rw [hread] at hfirst
    rw [Standing.read_append_of_error hread] at hwhole
    rw [hfirst.1, hfirst.2, hwhole.1, hwhole.2]
    exact ⟨Agrees.refl _, .of_error e⟩
  · rw [hread] at hfirst
    exact absurd (hresult o hfirst.1) (Standing.ne_closed_of_read hread)

end Law

/-- Any number of pieces leads where the read of everything at once leads. -/
theorem receiveAll_of_sound (hp : p.channel.pool.IsAmple) (h : p.Sound) (input : Bytes) (more : List Bytes)
    (hroom : p.pending.length + input.length + more.flatten.length ≤ p.channel.pool.limit) :
    (p.receiveAll input more).2.2.Agrees (p.after (p.receive (input ++ more.flatten))) ∧
      EndsAs (p.receiveAll input more).1 (p.receiveAll input more).2.1
        (p.receive (input ++ more.flatten)).result := by
  -- the end after the first piece is sound again, and has room for the other pieces behind what waits
  induction more generalizing p input with
  | nil =>
    rw [List.flatten_nil, List.append_nil]
    exact ⟨Agrees.refl _, EndsAs.refl _⟩
  | cons next more ih =>
    rw [List.flatten_cons] at hroom ⊢
    unfold receiveAll
    split
    · next e hresult =>
      have hstop := receive_append_of_stop hp h hroom (by rw [hresult]; nofun)
      rw [hresult] at hstop
      exact hstop
    · next hresult =>
      have hstop := receive_append_of_stop hp h hroom (by rw [hresult]; rintro o ⟨⟩; rfl)
      rw [hresult] at hstop
      exact hstop
    · next o ho hresult =>
      have hopen : o ≠ .closed := ho
      obtain ⟨left, s, backlog, hread, hafter, hheld⟩ := exists_of_receive hp h hroom hresult hopen
      have hleft := h.standing.length_le_of_read hread
      rw [List.length_append] at hleft hroom
      have hmoved : (p.moved s backlog).Sound := hafter ▸ h.receive hp input
      have hrest := ih (p := p.moved s backlog) hp hmoved next (by
        rw [pending_of_held hheld, pool_moved]
        omega)
      have htwo := receive_append_of_sound hp h (b := next ++ more.flatten)
        (by rw [List.length_append]; omega) hresult hopen
      rw [hafter] at htwo ⊢
      exact ⟨hrest.1.trans htwo.1, hrest.2.trans htwo.2⟩

/-- How input is cut makes no difference to an end with any history, in which requests may have failed. -/
theorem receive_append (isClient : Bool) (options : MaskedOptions) (pool : Pool) (hpool : pool.IsAmple)
    (requests : List Request) :
    let p := ((connected isClient options pool).handleAll requests).2
    (∀ a b o, p.pending.length + a.length + b.length ≤ pool.limit →
      (p.receive a).result = .ok o → o ≠ .closed →
      let q := p.after (p.receive a)
      (q.after (q.receive b)).Agrees (p.after (p.receive (a ++ b))) ∧
        EndsAs o.count (q.receive b).result (p.receive (a ++ b)).result) ∧
    ∀ input more, p.pending.length + input.length + more.flatten.length ≤ pool.limit →
      (p.receiveAll input more).2.2.Agrees (p.after (p.receive (input ++ more.flatten))) ∧
        EndsAs (p.receiveAll input more).1 (p.receiveAll input more).2.1
          (p.receive (input ++ more.flatten)).result := by
  intro p
  obtain ⟨hsound, hsame⟩ := (sound_connected isClient options pool).handleAll hpool requests
  have hsame' : p.channel.pool = pool := hsame
  have hample : p.channel.pool.IsAmple := by
    rw [hsame']
    exact hpool
  constructor
  · intro a b o hroom hresult ho
    rw [← hsame'] at hroom
    exact receive_append_of_sound hample hsound hroom hresult ho
  · intro input more hroom
    rw [← hsame'] at hroom
    exact receiveAll_of_sound hample hsound input more hroom

/-- A hello that is cut behind its fourth byte, at a server that could not send before. -/
theorem receive_append_hello :
    let p := ((connected false .usual .usual).handleAll [.send [0]]).2
    let q := p.after (p.receive (Masked.helloRecord.toBytes.take 4))
    Pool.usual.IsAmple ∧ (p.receive (Masked.helloRecord.toBytes.take 4)).result = .ok .handshaking ∧
      (q.after (q.receive (Masked.helloRecord.toBytes.drop 4))).Agrees
        (p.after (p.receive Masked.helloRecord.toBytes)) ∧
      EndsAs 0 (q.receive (Masked.helloRecord.toBytes.drop 4)).result
        (p.receive Masked.helloRecord.toBytes).result := by
  intro p q
  have hpool : Pool.usual.IsAmple := ⟨by decide, by decide⟩
  have hresult : (p.receive (Masked.helloRecord.toBytes.take 4)).result = .ok .handshaking := by
    have hoption : (p.receive (Masked.helloRecord.toBytes.take 4)).result.toOption = some .handshaking := by
      decide +kernel
    rcases hfound : (p.receive (Masked.helloRecord.toBytes.take 4)).result with e | o
    · rw [hfound] at hoption
      cases hoption
    · rw [hfound] at hoption
      cases hoption
      rfl
  exact ⟨hpool, hresult, (receive_append false .usual .usual hpool [.send [0]]).1
    (Masked.helloRecord.toBytes.take 4) (Masked.helloRecord.toBytes.drop 4) .handshaking
    (by decide +kernel) hresult nofun⟩

end SecureStream.Endpoint
