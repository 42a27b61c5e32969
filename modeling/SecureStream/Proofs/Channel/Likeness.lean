import SecureStream.Proofs.Buffer.Room
import SecureStream.Proofs.Channel.Loops

/-!
# Links that are alike

Two links may differ in what they have taken down and in nothing else (`Link.Alike`).  Two attempts match
(`Link.Matches`) if they end with the same result and links that are alike, unless a buffer could not be had in
one of them.

A loop that asks its engine again with a larger buffer takes one turn more or less as its buffers are smaller
or larger.  That makes no difference for an engine of which each call needs a certain amount of room
(`Engine.IsMeasured`): the turns that find too little room leave everything as it is, so that two such loops
come to the same answer (`Link.Retries.meet`).
-/

namespace SecureStream

variable {E S : Type}

/-! ### Engines -/

/-- A call of an engine needs a certain amount of room.  With less it changes nothing and says so, and more
makes no difference.  An engine may also say that there is too little room, whatever room there is. -/
inductive Engine.Measured (e : E) (ask : Nat → Except EngineError Reply × E) : Prop where
  | feigned (demand : Demand) (next : E) (hask : ∀ room, ask room = (.ok (.overflow demand), next))
  | fits (needed : Nat) (demand : Demand) (answer : Except EngineError Reply) (next : E)
    (hanswer : ∀ r, answer = .ok r →
      r.verdict ≠ .overflow ∧ r.produced = r.output.length ∧ r.output.length ≤ needed)
    (hask : ∀ room, ask room = if room < needed then (.ok (.overflow demand), e) else (answer, next))

/-- All calls of an engine need certain amounts of room. -/
structure Engine.IsMeasured (E : Type) [Engine E] : Prop where
  wrap : ∀ (e : E) (input : Bytes), Measured e (Engine.wrap e input)
  unwrap : ∀ (e : E) (input : Bytes), Measured e (Engine.unwrap e input)

namespace Link

/-! ### Links -/

/-- Links that differ in nothing but what they have taken down. -/
structure Alike (k k' : Link E S) : Prop where
  engine_eq : k.engine = k'.engine
  session_eq : k.session = k'.session
  handshaking_eq : k.handshaking = k'.handshaking

variable {k k' k'' : Link E S}

namespace Alike

theorem refl (k : Link E S) : k.Alike k := ⟨rfl, rfl, rfl⟩

theorem symm (h : k.Alike k') : k'.Alike k := ⟨h.engine_eq.symm, h.session_eq.symm, h.handshaking_eq.symm⟩

theorem trans (h : k.Alike k') (h' : k'.Alike k'') : k.Alike k'' :=
  ⟨h.engine_eq.trans h'.engine_eq, h.session_eq.trans h'.session_eq,
    h.handshaking_eq.trans h'.handshaking_eq⟩

theorem of_note (k : Link E S) (notice : Notice) : (k.note notice).Alike k := ⟨rfl, rfl, rfl⟩

/-- What is reported may differ. -/
theorem note (h : k.Alike k') (notice notice' : Notice) : (k.note notice).Alike (k'.note notice') :=
  ⟨h.engine_eq, h.session_eq, h.handshaking_eq⟩

theorem withEngine (h : k.Alike k') (e : E) : Alike { k with engine := e } { k' with engine := e } :=
  ⟨rfl, h.session_eq, h.handshaking_eq⟩

theorem noted (h : k.Alike k') (notice : Notice) : (k.note notice).Alike (k'.note notice) :=
  h.note notice notice

section Engine

variable [Engine E]

theorem demand_eq (h : k.Alike k') : k.demand = k'.demand := congrArg Engine.demand h.engine_eq

theorem work_eq (h : k.Alike k') : k.work = k'.work := congrArg Engine.work h.engine_eq

end Engine

section Session

variable [Session S]

theorem state_eq (h : k.Alike k') : k.state = k'.state := congrArg Session.state h.session_eq

theorem moveTo (h : k.Alike k') (state : SessionState) : (k.moveTo state).Alike (k'.moveTo state) :=
  ⟨h.engine_eq, congrArg (Session.moveTo · state) h.session_eq, h.handshaking_eq⟩

theorem enqueue (h : k.Alike k') (piece : Bytes) : (k.enqueue piece).Alike (k'.enqueue piece) :=
  ⟨h.engine_eq, congrArg (Session.enqueue · piece) h.session_eq, h.handshaking_eq⟩

theorem deliver (h : k.Alike k') (message : Bytes) : (k.deliver message).Alike (k'.deliver message) :=
  ⟨h.engine_eq, congrArg (Session.deliver · message) h.session_eq, h.handshaking_eq⟩

theorem enterHandshake (h : k.Alike k') : k.enterHandshake.Alike k'.enterHandshake := by
  unfold Link.enterHandshake
  rw [← h.handshaking_eq]
  split
  · exact h
  · exact ⟨h.engine_eq, congrArg (Session.moveTo · .securing) h.session_eq, rfl⟩

end Session

end Alike

section Engine

variable [Engine E] {input : Bytes} {room : Nat} {answer : Except EngineError Reply} {e : E}

/-- What a link is after a call of its engine. -/
theorem exists_wrap (hask : Engine.wrap k.engine input room = (answer, e)) :
    ∃ after : Link E S, k.wrap input room = (answer, after) ∧ after.Alike { k with engine := e } := by
  unfold Link.wrap
  rw [hask]
  exact ⟨_, rfl, rfl, rfl, rfl⟩

theorem exists_unwrap (hask : Engine.unwrap k.engine input room = (answer, e)) :
    ∃ after : Link E S, k.unwrap input room = (answer, after) ∧ after.Alike { k with engine := e } := by
  unfold Link.unwrap
  rw [hask]
  exact ⟨_, rfl, rfl, rfl, rfl⟩

end Engine

/-! ### Attempts -/

/-- Two attempts end alike, or a buffer could not be had in one of them. -/
inductive Matches {α : Type} : Except ChannelError α × Link E S → Except ChannelError α × Link E S → Prop where
  | short (e : BufferError) (k : Link E S) (y : Except ChannelError α × Link E S) : Matches (.error (.buffer e), k) y
  | short' (x : Except ChannelError α × Link E S) (e : BufferError) (k : Link E S) : Matches x (.error (.buffer e), k)
  | error (e : ChannelError) {k k' : Link E S} (halike : k.Alike k') : Matches (.error e, k) (.error e, k')
  | ok (a : α) {k k' : Link E S} (halike : k.Alike k') : Matches (.ok a, k) (.ok a, k')

namespace Matches

variable {α : Type} {x y : Except ChannelError α × Link E S}

theorem of_eq (hresult : x.1 = y.1) (halike : x.2.Alike y.2) : Matches x y := by
  rcases x with ⟨e | a, k⟩
  · rcases y with ⟨_ | _, k'⟩ <;> cases hresult
    exact .error e halike
  · rcases y with ⟨_ | _, k'⟩ <;> cases hresult
    exact .ok a halike

end Matches

/-! ### Asking again -/

section Retries

variable [Engine E] {α : Type}

/-- A loop that asks its engine again, with a larger buffer, when there was too little room. -/
structure Retries (ask : E → Nat → Except EngineError Reply × E)
    (run : Link E S → Scratch → Except ChannelError α × Link E S) : Prop where
  work_le : ∀ e room, Engine.work (ask e room).2 ≤ Engine.work e
  again : ∀ (k : Link E S) (b : Scratch) (demand : Demand) (e : E),
    ask k.engine b.room = (.ok (.overflow demand), e) →
      (∃ cause after, b.grow = .error cause ∧ run k b = (.error (.buffer cause), after)) ∨
        ∃ grown next, b.grow = .ok grown ∧ next.Alike { k with engine := e } ∧ run k b = run next grown

variable {ask : E → Nat → Except EngineError Reply × E}
  {run run' : Link E S → Scratch → Except ChannelError α × Link E S}

namespace Retries

/-- The loop goes on until there is room, and nothing has changed by then. -/
theorem exists_room (h : Retries ask run) {needed : Nat} {demand : Demand} {answer : Except EngineError Reply}
    {e next : E}
    (hask : ∀ room, ask e room = if room < needed then (.ok (.overflow demand), e) else (answer, next))
    (b : Scratch) (hengine : k.engine = e) :
    (∃ cause after, run k b = (.error (.buffer cause), after)) ∨
      ∃ (later : Link E S) (larger : Scratch), later.Alike k ∧ larger.bytes = b.bytes ∧ needed ≤ larger.room ∧
        run k b = run later larger := by
  subst hengine
  -- the buffer grows as `Scratch.growFor` does
  fun_induction Scratch.growFor b needed generalizing k with
  | case1 b hfits => exact .inr ⟨k, b, .refl k, rfl, hfits, rfl⟩
  | case2 b hfits cause hgrow =>
    have hover := hask b.room
    rw [if_pos (by omega)] at hover
    rcases h.again k b demand _ hover with ⟨cause', after, -, hrun⟩ | ⟨grown, _, hgrown, -⟩
    · exact .inl ⟨cause', after, hrun⟩
    · rw [hgrow] at hgrown
      cases hgrown
  | case3 b hfits grown hgrow ih =>
    have hover := hask b.room
    rw [if_pos (by omega)] at hover
    rcases h.again k b demand _ hover with ⟨_, _, hfails, -⟩ | ⟨grown', next, hgrown, hnext, hrun⟩
    · rw [hgrow] at hfails
      cases hfails
    · rw [hgrow] at hgrown
      cases hgrown
      have hengine : next.engine = k.engine := hnext.engine_eq
      rcases ih (hengine ▸ hask) with ⟨cause, after, hfails⟩ | ⟨later, larger, hlater, hbytes, hfits, hgoes⟩
      · exact .inl ⟨cause, after, hrun.trans hfails⟩
      · refine .inr ⟨later, larger, hlater.trans hnext, hbytes.trans ?_, hfits, hrun.trans hgoes⟩
        rw [Scratch.bytes, (Scratch.eq_of_grow hgrow).1, Scratch.bytes]

/-- Two such loops come to the same answer of the engine, for which there is room in both of them. -/
theorem meet (h : Retries ask run) (h' : Retries ask run') (hmeasured : ∀ e, Engine.Measured e (ask e))
    {b b' : Scratch} (halike : k.Alike k') (hbytes : b.bytes = b'.bytes)
    (hmet : ∀ (k₁ k₂ : Link E S) (b₁ b₂ : Scratch) (answer : Except EngineError Reply) (e : E),
      k₁.Alike k₂ → k₁.work ≤ k.work → ask k₁.engine b₁.room = (answer, e) →
        ask k₂.engine b₂.room = (answer, e) →
        (∀ r, answer = .ok r → r.verdict ≠ .overflow ∧
          (b₁.store r.output r.produced).bytes = (b₂.store r.output r.produced).bytes) →
        Matches (run k₁ b₁) (run' k₂ b₂)) :
    Matches (run k b) (run' k' b') := by
  -- as long as the lack of room is feigned, both loops take the same turns
  generalize hleft : b.limit - b.capacity = left
  induction left using Nat.strongRecOn generalizing k k' b b' with
  | ind left ih =>
    cases hmeasured k.engine with
    | feigned demand next hask =>
      have hask' := halike.engine_eq ▸ hask
      rcases h.again k b demand next (hask _) with ⟨cause, after, -, hrun⟩ | ⟨grown, after, hgrow, hafter, hrun⟩
      · rw [hrun]
        exact .short cause after _
      rcases h'.again k' b' demand next (hask' _) with
        ⟨cause, after', -, hrun'⟩ | ⟨grown', after', hgrow', hafter', hrun'⟩
      · rw [hrun']
        exact .short' _ cause after'
      have hless := Scratch.limit_sub_lt_of_grow hgrow
      have hwork : after.work ≤ k.work := by
        have hle := h.work_le k.engine 0
        rw [hask] at hle
        exact Nat.le_trans (Nat.le_of_eq hafter.work_eq) hle
      have hsame : grown.bytes = grown'.bytes := by
        rw [Scratch.bytes, (Scratch.eq_of_grow hgrow).1, Scratch.bytes, (Scratch.eq_of_grow hgrow').1]
        exact hbytes
      rw [hrun, hrun']
      refine ih _ (hleft ▸ hless) (hafter.trans ((halike.withEngine next).trans hafter'.symm)) hsame ?_ rfl
      intro k₁ k₂ b₁ b₂ answer e hlike hle
      exact hmet k₁ k₂ b₁ b₂ answer e hlike (Nat.le_trans hle hwork)
    | fits needed demand answer next hanswer hask =>
      rcases h.exists_room hask b rfl with ⟨cause, after, hrun⟩ | ⟨k₁, b₁, hlike, hkept, hfits, hrun⟩
      · rw [hrun]
        exact .short cause after _
      rcases h'.exists_room hask b' halike.engine_eq.symm with
        ⟨cause, after, hrun'⟩ | ⟨k₂, b₂, hlike', hkept', hfits', hrun'⟩
      · rw [hrun']
        exact .short' _ cause after
      have hboth : k₁.Alike k₂ := (hlike.trans halike).trans hlike'.symm
      have hfirst := hask b₁.room
      rw [if_neg (by omega), ← hlike.engine_eq] at hfirst
      have hsecond := hask b₂.room
      rw [if_neg (by omega), ← hlike.engine_eq, hboth.engine_eq] at hsecond
      rw [hrun, hrun']
      refine hmet k₁ k₂ b₁ b₂ answer next hboth (Nat.le_of_eq hlike.work_eq) hfirst hsecond ?_
      intro r hr
      obtain ⟨hverdict, hproduced, hlength⟩ := hanswer r hr
      refine ⟨hverdict, ?_⟩
      rw [hproduced, Scratch.bytes_store (by omega), Scratch.bytes_store (by omega), hkept, hkept', hbytes]

end Retries

end Retries

end Link

end SecureStream
