import SecureStream.Endpoint
import SecureStream.Proofs.Channel.Log
import SecureStream.Proofs.Standing.Records
import SecureStream.Proofs.Standing.Writing

/-!
# Where an endpoint stands

An endpoint without an engine stands where it would with the engine that its next request makes
(`Endpoint.standing`).  Each request is then what it is of the standing, with the input that waits put in
front of new input.

`Endpoint.Sound` holds of an endpoint that has just been connected, and after every request, whatever comes
of it (`Endpoint.Sound.handleAll`).
-/

namespace SecureStream.Endpoint

/-- The engine that the next request makes if there is none. -/
def fresh (p : Endpoint) : Masked :=
  (Link.configure (Link.mk (Masked.start p.options) p.session p.channel.handshaking #[] #[])).engine

def standing (p : Endpoint) : Standing := ⟨p.channel.engine.getD p.fresh, p.session, p.channel.handshaking⟩

/-- The input that waits for more. -/
def pending (p : Endpoint) : Bytes := (p.channel.backlog.map (·.bytes)).getD []

/-- What waits when these bytes are left: nothing, if there are none. -/
def held (left : Bytes) : Option Bytes := if left = [] then none else some left

/-- The end after a request that led to a standing and lets input wait. -/
def moved (p : Endpoint) (s : Standing) (backlog : Option Backlog) : Endpoint :=
  { p with
    channel := { p.channel with engine := some s.engine, handshaking := s.handshaking, backlog }
    session := s.session }

def receive (p : Endpoint) (input : Bytes) : Turn Masked Journal Outcome :=
  p.channel.receive p.make p.session input

/-- An endpoint between requests. -/
structure Sound (p : Endpoint) : Prop where
  standing : p.standing.Sound
  runner : p.channel.runner = .onTheSpot
  backlog : ∀ b, p.channel.backlog = some b → b.IsOf p.channel.pool

variable {p : Endpoint}

@[simp] theorem standing_moved (s : Standing) (backlog : Option Backlog) :
    (p.moved s backlog).standing = s := rfl

@[simp] theorem pool_moved (s : Standing) (backlog : Option Backlog) :
    (p.moved s backlog).channel.pool = p.channel.pool := rfl

/-! ### Serving -/

/-- Requests are served by a link that stands where the end stands. -/
theorem exists_serve (p : Endpoint) :
    ∃ k : Link Masked Journal, k.standing = p.standing ∧
      ∀ {α : Type} (request : Link Masked Journal → Turn Masked Journal α),
        p.channel.serve p.make p.session request = request k := by
  rcases hengine : p.channel.engine with _ | engine
  · refine ⟨Link.configure (Link.mk (Masked.start p.options) p.session p.channel.handshaking
      #[.create (Session.attributes p.session).peer] #[]), ?_, fun request => ?_⟩
    · have hfresh : p.standing = ⟨p.fresh, p.session, p.channel.handshaking⟩ := by
        unfold standing
        rw [hengine]
        rfl
      rw [hfresh]
      unfold fresh Link.configure
      dsimp only
      split <;> rfl
    · unfold Channel.serve
      rw [hengine]
      rfl
  · refine ⟨⟨engine, p.session, p.channel.handshaking, #[], #[]⟩, ?_, fun request => ?_⟩
    · unfold standing
      rw [hengine]
      rfl
    · unfold Channel.serve
      rw [hengine]

theorem after_turn {α : Type} (backlog : Option Backlog) (result : Except ChannelError α)
    (k : Link Masked Journal) :
    p.after (p.channel.turn backlog result k) = p.moved k.standing backlog := rfl

theorem Sound.moved (h : p.Sound) {s : Standing} (hs : s.Sound) {backlog : Option Backlog}
    (hb : ∀ b, backlog = some b → b.IsOf p.channel.pool) : (p.moved s backlog).Sound := ⟨hs, h.runner, hb⟩

/-! ### Input that waits -/

section Backlog

variable (hp : p.channel.pool.IsAmple) (h : p.Sound) {input left : Bytes} {backlog backlog' : Option Backlog}

include hp h

theorem eq_of_gather {all : Bytes} (hg : Channel.gather p.channel.backlog input = .ok (backlog, all)) :
    all = p.pending ++ input ∧ ∀ b, backlog = some b → b.IsOf p.channel.pool ∧ b.bytes = all := by
  unfold Channel.gather pending at *
  rcases hbacklog : p.channel.backlog with _ | b
  · rw [hbacklog] at hg
    cases hg
    exact ⟨rfl, nofun⟩
  · rw [hbacklog] at hg
    dsimp only at hg
    rcases happend : b.append input with e | b'
    · rw [happend] at hg
      cases hg
    · rw [happend] at hg
      cases hg
      refine ⟨Backlog.bytes_of_append happend, ?_⟩
      rintro b'' ⟨⟩
      have hof := h.backlog b hbacklog
      have hlength := hof.length_le
      have hcapacity := hof.capacity_le
      have hlimit := hof.limit_eq
      have hblock := hp.1
      -- an append that does not fail has found that all of it is within the limit
      have hroom : b.bytes.length + input.length ≤ p.channel.pool.limit := by
        rw [Backlog.append_eq_ite] at happend
        dsimp only at happend
        split at happend
        · cases happend
        · simp only [Size.add, Size.maxBlock, Size.top] at *
          omega
      obtain ⟨b'', happend', hof', -⟩ := hof.exists_append hp hroom
      rw [happend] at happend'
      cases happend'
      exact ⟨hof', rfl⟩

end Backlog

/-! ### Taking input -/

/-- Taking input is reading behind the input that waits. -/
def Reads (p : Endpoint) (input : Bytes) : Prop :=
  match p.standing.read p.channel.pool (p.pending ++ input) with
  | (.error .closed, s) => (p.receive input).result = .ok .closed ∧ p.after (p.receive input) = p.moved s none
  | (.error (.failed e), s) => (p.receive input).result = .error e ∧
    p.after (p.receive input) = p.moved s none
  | (.ok (o, left), s) =>
    (p.receive input).result = .ok o ∧ ∃ backlog, p.after (p.receive input) = p.moved s backlog ∧
      backlog.map (·.bytes) = held left ∧ ∀ b, backlog = some b → b.IsOf p.channel.pool

section Receive

variable (hp : p.channel.pool.IsAmple) (h : p.Sound)

include hp h

/-- Taking input fails for want of room only when there is more of it than the limit. -/
theorem receive_cases (input : Bytes) :
    (p.channel.pool.limit < p.pending.length + input.length ∧ (∃ e, (p.receive input).result = .error e) ∧
        ∃ s : Standing, s.Sound ∧ p.after (p.receive input) = p.moved s none) ∨ p.Reads input := by
  obtain ⟨k, hk, hserve⟩ := exists_serve p
  have hsound : k.standing.Sound := hk ▸ h.standing
  unfold Reads receive Channel.receive
  rw [hserve, h.runner, ← hk]
  -- room is wanted in three places: for what is gathered, for a message, and for what is left
  rcases hgather : Channel.gather p.channel.backlog input with e | ⟨backlog, pending⟩
  · refine .inl ⟨Nat.lt_of_not_le fun hroom => ?_, ⟨.buffer e, rfl⟩, k.standing, hsound, rfl⟩
    obtain ⟨backlog, hok, -⟩ := Channel.exists_gather hp h.backlog hroom
    rw [hgather] at hok
    cases hok
  · obtain ⟨rfl, hbacklog⟩ := eq_of_gather hp h hgather
    have hstays := hsound.read p.channel.pool (p.pending ++ input)
    rw [← List.length_append]
    dsimp only
    rcases Link.ending_read hp hsound (p.pending ++ input) with ⟨hlong, ⟨e, hfails⟩, hsound'⟩ | hends
    · rcases hread : k.read p.channel.pool .onTheSpot (p.pending ++ input) with ⟨result, after⟩
      rw [hread] at hfails hsound'
      dsimp only at hfails
      subst hfails
      exact .inl ⟨hlong, ⟨.buffer e, rfl⟩, after.standing, hsound', rfl⟩
    · rw [← hends] at hstays ⊢
      rcases hread : k.read p.channel.pool .onTheSpot (p.pending ++ input) with ⟨e | ⟨o, left⟩, after⟩
      · exact .inr ⟨rfl, rfl⟩
      by_cases hclosed : o = .closed
      · subst hclosed
        exact .inr ⟨rfl, rfl⟩
      rw [hread, Link.ending_ok hclosed] at hends hstays
      have hlength := hsound.length_le_of_read hends.symm
      rw [Link.ending_ok hclosed]
      rcases hretain : Channel.retain p.channel.pool backlog left with e | backlog'
      · have hlong : p.channel.pool.limit < (p.pending ++ input).length := by
          refine Nat.lt_of_not_le fun hroom => ?_
          obtain ⟨backlog', hok⟩ := Channel.exists_retain hp left (by omega) backlog
          rw [hretain] at hok
          cases hok
        cases o with
        | closed => exact absurd rfl hclosed
        | _ =>
          dsimp only
          rw [hretain]
          exact .inl ⟨hlong, ⟨.buffer e, rfl⟩, after.standing, hstays.1, rfl⟩
      · have hkept := Channel.isOf_of_retain hretain fun b hb =>
          ⟨(hbacklog b hb).1, by rw [(hbacklog b hb).2]; exact hlength⟩
        cases o with
        | closed => exact absurd rfl hclosed
        | _ =>
          dsimp only
          rw [hretain]
          exact .inr ⟨rfl, backlog', rfl, Channel.retain_ok hretain, hkept⟩

theorem reads_of_room (input : Bytes) (hroom : p.pending.length + input.length ≤ p.channel.pool.limit) :
    p.Reads input := by
  rcases receive_cases hp h input with ⟨hlong, -⟩ | hreads
  · omega
  · exact hreads

/-- Taking input keeps an end sound, whatever the input. -/
theorem Sound.receive (input : Bytes) : (p.after (p.receive input)).Sound := by
  have hstays := (h.standing.read p.channel.pool (p.pending ++ input)).1
  rcases receive_cases hp h input with ⟨-, -, s, hsound, hafter⟩ | hreads
  · rw [hafter]
    exact h.moved hsound nofun
  · unfold Reads at hreads
    rcases hread : p.standing.read p.channel.pool (p.pending ++ input) with ⟨(_ | e) | ⟨o, left⟩, s⟩
    · rw [hread] at hreads hstays
      rw [hreads.2]
      exact h.moved hstays nofun
    · rw [hread] at hreads hstays
      rw [hreads.2]
      exact h.moved hstays nofun
    · rw [hread] at hreads hstays
      obtain ⟨-, backlog, hafter, -, hof⟩ := hreads
      rw [hafter]
      exact h.moved hstays hof

end Receive

/-! ### The other requests -/

theorem start_eq (hp : p.channel.pool.IsAmple) (h : p.Sound) :
    (p.channel.start p.make p.session).result = (p.standing.start p.channel.pool).1 ∧
      p.after (p.channel.start p.make p.session) =
        p.moved (p.standing.start p.channel.pool).2 p.channel.backlog := by
  obtain ⟨k, hk, hserve⟩ := exists_serve p
  have hstart := Link.bare_start hp (hk ▸ h.standing)
  unfold Channel.start
  rw [hserve, h.runner, ← hk, ← hstart]
  exact ⟨rfl, rfl⟩

theorem exists_send (hsecured : p.standing.IsSecured) (message : Bytes) :
    ∃ k : Link Masked Journal, k.standing = p.standing ∧
      (p.channel.send p.make p.session message).result = (k.write p.channel.pool message).1 ∧
      p.after (p.channel.send p.make p.session message) =
        p.moved (k.write p.channel.pool message).2.standing p.channel.backlog := by
  obtain ⟨k, hk, hserve⟩ := exists_serve p
  refine ⟨k, hk, ?_⟩
  unfold Channel.send
  rw [if_pos (show Session.state p.session = .secured from hsecured), hserve]
  exact ⟨rfl, rfl⟩

theorem send_of_not_isSecured (hsecured : ¬ p.standing.IsSecured) (message : Bytes) :
    (p.channel.send p.make p.session message).result = .error .notSecured ∧
      p.after (p.channel.send p.make p.session message) = p := by
  unfold Channel.send
  rw [if_neg (show ¬ Session.state p.session = .secured from hsecured)]
  exact ⟨rfl, rfl⟩

theorem Sound.handle (hp : p.channel.pool.IsAmple) (h : p.Sound) (request : Request) :
    (p.after (p.handle request)).Sound := by
  cases request with
  | prepare =>
    obtain ⟨k, hk, hserve⟩ := exists_serve p
    show (p.after (p.channel.prepare p.make p.session)).Sound
    unfold Channel.prepare
    rw [hserve]
    exact h.moved (hk ▸ h.standing) h.backlog
  | start =>
    show (p.after (p.channel.start p.make p.session)).Sound
    rw [(start_eq hp h).2]
    exact h.moved h.standing.start h.backlog
  | receive input => exact h.receive hp input
  | send message =>
    show (p.after (p.channel.send p.make p.session message)).Sound
    by_cases hsecured : p.standing.IsSecured
    · obtain ⟨k, hk, -, hafter⟩ := exists_send hsecured message
      rw [hafter]
      exact h.moved (Link.sound_write (hk ▸ h.standing) (hk ▸ hsecured) message) h.backlog
    · rw [(send_of_not_isSecured hsecured message).2]
      exact h

/-! ### Histories -/

theorem handleAll_cons (p : Endpoint) (request : Request) (requests : List Request) :
    p.handleAll (request :: requests) =
      (p.handle request :: ((p.after (p.handle request)).handleAll requests).1,
        ((p.after (p.handle request)).handleAll requests).2) := rfl

@[simp] theorem handleAll_nil (p : Endpoint) : p.handleAll [] = ([], p) := rfl

/-- A request moves the end, or is turned down. -/
theorem after_handle_cases (p : Endpoint) (request : Request) :
    p.after (p.handle request) = p ∨ ∃ s backlog, p.after (p.handle request) = p.moved s backlog := by
  obtain ⟨k, -, hserve⟩ := exists_serve p
  cases request with
  | prepare =>
    refine .inr ⟨k.standing, p.channel.backlog, ?_⟩
    show p.after (p.channel.prepare p.make p.session) = _
    unfold Channel.prepare
    rw [hserve]
    rfl
  | start =>
    refine .inr ⟨(k.start p.channel.pool p.channel.runner).2.standing, p.channel.backlog, ?_⟩
    show p.after (p.channel.start p.make p.session) = _
    unfold Channel.start
    rw [hserve]
    rfl
  | receive input =>
    refine .inr ?_
    show ∃ s backlog, p.after (p.channel.receive p.make p.session input) = p.moved s backlog
    unfold Channel.receive
    rw [hserve]
    split
    · exact ⟨_, _, after_turn ..⟩
    · split
      · exact ⟨_, _, after_turn ..⟩
      · exact ⟨_, _, after_turn ..⟩
      · split <;> exact ⟨_, _, after_turn ..⟩
  | send message =>
    show p.after (p.channel.send p.make p.session message) = p ∨
      ∃ s backlog, p.after (p.channel.send p.make p.session message) = p.moved s backlog
    unfold Channel.send
    split
    · rw [hserve]
      exact .inr ⟨_, _, after_turn _ (k.write p.channel.pool message).1 (k.write p.channel.pool message).2⟩
    · exact .inl rfl

theorem pool_after_handle (p : Endpoint) (request : Request) :
    (p.after (p.handle request)).channel.pool = p.channel.pool := by
  rcases after_handle_cases p request with h | ⟨s, backlog, h⟩
  · rw [h]
  · rw [h]
    rfl

theorem sound_connected (isClient : Bool) (options : MaskedOptions) (pool : Pool) :
    (connected isClient options pool).Sound := by
  refine ⟨?_, rfl, nofun⟩
  cases isClient with
  | true => exact ⟨iff_of_false nofun nofun, nofun, fun _ => rfl⟩
  | false => exact ⟨iff_of_false nofun nofun, nofun, fun _ => rfl⟩

/-- An end is sound after every history. -/
theorem Sound.handleAll (hp : p.channel.pool.IsAmple) (h : p.Sound) (requests : List Request) :
    (p.handleAll requests).2.Sound ∧ (p.handleAll requests).2.channel.pool = p.channel.pool := by
  induction requests generalizing p with
  | nil => exact ⟨h, rfl⟩
  | cons request requests ih =>
    have hpool := pool_after_handle p request
    rw [handleAll_cons]
    obtain ⟨hsound, hsame⟩ := ih (hpool ▸ hp) (h.handle hp request)
    exact ⟨hsound, hsame.trans hpool⟩

end SecureStream.Endpoint
