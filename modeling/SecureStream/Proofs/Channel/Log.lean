import Mathlib.Algebra.GroupWithZero.Nat
import SecureStream.Channel.Request
import SecureStream.Proofs.Channel.Course

/-!
# What a log tells

A turn comes with a log of the calls that were made of the engine and the session.  The log tells everything
that was done to the two: replayed call by call it leads from what a request has found to what it leaves
(`Moment.Told.replay_eq`).  A `Scene` is what is known between two calls.

`Moment.Told` holds in the whole course of a request (`Moment.Told.course`).  It also says of the log that
every call that unwraps is offered what the calls before it have left of the input, and that the session is
secured only right after the engine has said that the handshake is completed.

`Channel.handle_cases` says how a request is served: it is turned down before anything happens, or it takes
a course.
-/

namespace SecureStream

/-- An engine and a session between two calls. -/
structure Scene (E S : Type) where
  /-- The engine, once there is one. -/
  engine : Option E
  session : S
  /-- What the engine said last that it needs. -/
  said : Option Demand

namespace Scene

variable {E S : Type} [Engine E] [Session S]

/-- The engine has changed and is asked what it needs. -/
def ask (x : Scene E S) (engine : Option E) : Scene E S := ⟨engine, x.session, engine.map Engine.demand⟩

/-- The engine has changed and says in its answer what it needs, unless it fails. -/
def hear (x : Scene E S) (engine : Option E) (answer : Except EngineError Reply) : Scene E S :=
  ⟨engine, x.session, x.said.map (·.heard answer)⟩

/-- What a call leads to. -/
def after (make : EngineMaker E) (runner : Runner) (x : Scene E S) : Call → Scene E S
  | .create peer => x.ask (make peer).toOption
  | .setSide isClient => x.ask (x.engine.map (Engine.setSide · isClient))
  | .setCertificatePolicy policy => x.ask (x.engine.map (Engine.setCertificatePolicy · policy))
  | .startHandshake => x.ask (x.engine.map fun e => (Engine.startHandshake e).2)
  | .wrap input room answer => x.hear (x.engine.map fun e => (Engine.wrap e input room).2) answer
  | .unwrap input room answer => x.hear (x.engine.map fun e => (Engine.unwrap e input room).2) answer
  | .takeTask _ => x.ask (x.engine.map fun e => (Engine.takeTask? e).getD e)
  | .runTask => x.ask (x.engine.map runner.run)
  | .moveTo state => { x with session := Session.moveTo x.session state }
  | .enqueue piece => { x with session := Session.enqueue x.session piece }
  | .deliver message => { x with session := Session.deliver x.session message }

/-- What the calls of a log lead to. -/
def replay (make : EngineMaker E) (runner : Runner) (x : Scene E S) (calls : List Call) : Scene E S :=
  calls.foldl (after make runner) x

theorem replay_append (make : EngineMaker E) (runner : Runner) (x : Scene E S) (a b : List Call) :
    x.replay make runner (a ++ b) = (x.replay make runner a).replay make runner b := List.foldl_append

end Scene

/-- How many bytes of input the calls of a log have used up. -/
def Call.usedBy (calls : List Call) : Nat := (calls.map Call.used).sum

/-- No call uses up more than it offers. -/
theorem Call.used_le {call : Call} {input : Bytes}
    (h : ∀ offered room answer, call = .unwrap offered room answer → offered = input) :
    call.used ≤ input.length := by
  cases call with
  | unwrap offered room answer =>
    rw [← h offered room answer rfl]
    cases answer with
    | ok r => exact Nat.min_le_right ..
    | error e => exact Nat.zero_le _
  | _ => exact Nat.zero_le _

@[simp] theorem Call.usedBy_append (a b : List Call) : usedBy (a ++ b) = usedBy a + usedBy b := by
  simp [usedBy]

/-- What a channel and its session are like when a request comes. -/
def Channel.scene {E S : Type} [Engine E] (c : Channel E) (s : S) : Scene E S :=
  ⟨c.engine, s, c.engine.map Engine.demand⟩

/-- The last item of a list that ends in a given one. -/
private theorem eq_of_append_singleton {α : Type} {l before after : List α} {a b : α}
    (h : l ++ [a] = before ++ b :: after) :
    (before = l ∧ b = a) ∨ ∃ rest, l = before ++ b :: rest := by
  rcases List.eq_nil_or_concat after with rfl | ⟨rest, last, rfl⟩
  · obtain ⟨rfl, heq⟩ := List.append_inj' h rfl
    exact .inl ⟨rfl, (List.cons.inj heq).1.symm⟩
  · refine .inr ⟨rest, ?_⟩
    rw [List.concat_eq_append, ← List.cons_append, ← List.append_assoc] at h
    exact (List.append_inj' h rfl).1

namespace Moment

variable {E S : Type} [Engine E] [Session S] {make : EngineMaker E} {runner : Runner} {x : Scene E S}
  {input : Bytes} {m m' : Moment E S}

def scene (m : Moment E S) : Scene E S := ⟨some m.link.engine, m.link.session, some m.said⟩

/-- What the log of a link tells that has come from a scene, with so much input to begin with. -/
structure Told (make : EngineMaker E) (runner : Runner) (x : Scene E S) (input : Bytes) (m : Moment E S) :
    Prop where
  replay_eq : x.replay make runner m.link.calls.toList = m.scene
  input_eq : m.input = input.drop (Call.usedBy m.link.calls.toList)
  usedBy_le : Call.usedBy m.link.calls.toList ≤ input.length
  offered_eq : ∀ before offered room answer after,
    m.link.calls.toList = before ++ .unwrap offered room answer :: after →
      offered = input.drop (Call.usedBy before)
  said_eq : ∀ before after, m.link.calls.toList = before ++ .moveTo .secured :: after →
    (x.replay make runner before).said = some .finished

/-- Before anything has been done, an engine may have been asked for. -/
private theorem told_start {k : Link E S}
    (hreplay : x.replay make runner k.calls.toList = (Moment.mk k k.demand input).scene)
    (hcalls : k.calls.toList = [] ∨ ∃ peer, k.calls.toList = [.create peer]) :
    Told make runner x input ⟨k, k.demand, input⟩ := by
  have hcreate : ∀ call ∈ k.calls.toList, ∃ peer, call = .create peer := by
    intro call hmem
    rcases hcalls with heq | ⟨peer, heq⟩
    · rw [heq] at hmem
      cases hmem
    · rw [heq] at hmem
      exact ⟨peer, List.mem_singleton.1 hmem⟩
  have hused : Call.usedBy k.calls.toList = 0 := by
    rcases hcalls with heq | ⟨peer, heq⟩ <;> (rw [heq]; rfl)
  refine ⟨hreplay, ?_, ?_, ?_, ?_⟩
  · dsimp only
    rw [hused]
    rfl
  · exact hused ▸ Nat.zero_le _
  · intro before offered room answer after heq
    obtain ⟨peer, ⟨⟩⟩ := hcreate (.unwrap offered room answer) (by dsimp only at heq; simp [heq])
  · intro before after heq
    obtain ⟨peer, ⟨⟩⟩ := hcreate (.moveTo .secured) (by dsimp only at heq; simp [heq])

/-- One more call. -/
private theorem Told.push (h : Told make runner x input m) (call : Call)
    (hcalls : m'.link.calls = m.link.calls.push call) (hscene : m.scene.after make runner call = m'.scene)
    (hinput : m'.input = m.input.drop call.used)
    (hoffered : ∀ offered room answer, call = .unwrap offered room answer → offered = m.input)
    (hsaid : call = .moveTo .secured → m.said = .finished) : Told make runner x input m' := by
  have hlist : m'.link.calls.toList = m.link.calls.toList ++ [call] := by
    rw [hcalls, Array.toList_push]
  have hused : Call.usedBy m'.link.calls.toList = Call.usedBy m.link.calls.toList + call.used := by
    rw [hlist, Call.usedBy_append]
    rfl
  refine ⟨?_, ?_, ?_, ?_, ?_⟩
  · rw [hlist, Scene.replay_append, h.replay_eq]
    exact hscene
  · rw [hinput, h.input_eq, hused, List.drop_drop]
  · have hleft := Call.used_le hoffered
    rw [h.input_eq, List.length_drop] at hleft
    have hle := h.usedBy_le
    omega
  · intro before offered room answer after heq
    rw [hlist] at heq
    rcases eq_of_append_singleton heq with ⟨rfl, hcall⟩ | ⟨rest, hrest⟩
    · rw [hoffered offered room answer hcall.symm, h.input_eq]
    · exact h.offered_eq before offered room answer rest hrest
  · intro before after heq
    rw [hlist] at heq
    rcases eq_of_append_singleton heq with ⟨rfl, hcall⟩ | ⟨rest, hrest⟩
    · rw [h.replay_eq, ← hsaid hcall.symm]
      rfl
    · exact h.said_eq before rest hrest

theorem Told.act (h : Told make runner x input m) (hact : Act runner m m') : Told make runner x input m' := by
  cases hact with
  | note notice => exact ⟨h.replay_eq, h.input_eq, h.usedBy_le, h.offered_eq, h.said_eq⟩
  | setSide isClient => exact h.push (.setSide isClient) rfl rfl rfl nofun nofun
  | setCertificatePolicy policy => exact h.push (.setCertificatePolicy policy) rfl rfl rfl nofun nofun
  | startHandshake hcall =>
    cases hcall
    exact h.push .startHandshake rfl rfl rfl nofun nofun
  | wrap hcall =>
    cases hcall
    exact h.push (.wrap _ _ _) rfl rfl rfl nofun nofun
  | unwrap hcall =>
    cases hcall
    refine h.push (.unwrap m.input _ _) rfl rfl rfl ?_ nofun
    rintro _ _ _ ⟨⟩
    rfl
  | runTask htask =>
    rename_i engine
    let taken : Moment E S := ⟨{ m.link with engine }.log (.takeTask true), Engine.demand engine, m.input⟩
    have htaken : Told make runner x input taken := by
      refine h.push (.takeTask true) rfl ?_ rfl nofun nofun
      dsimp only [Scene.after, scene, Option.map]
      rw [htask]
      rfl
    exact htaken.push .runTask rfl rfl rfl nofun nofun
  | noTask htask =>
    refine h.push (.takeTask false) rfl ?_ rfl nofun nofun
    dsimp only [Scene.after, scene, Option.map]
    rw [htask]
    rfl
  | enqueue piece => exact h.push (.enqueue piece) rfl rfl rfl nofun nofun
  | deliver hmessage => exact h.push (.deliver _) rfl rfl rfl nofun nofun

theorem Told.step (h : Told make runner x input m) (hstep : Step runner m m') :
    Told make runner x input m' := by
  cases hstep with
  | act hact => exact h.act hact
  | enter hidle hstate => exact h.push (.moveTo .securing) rfl rfl rfl nofun nofun
  | secure hgoing hsaid => exact h.push (.moveTo .secured) rfl rfl rfl nofun (fun _ => hsaid)
  | leave hstate => exact h.push (.moveTo .connected) rfl rfl rfl nofun nofun

/-- A log tells this in the whole course of a request. -/
theorem Told.course (h : Told make runner x input m) (hcourse : Course runner m m') :
    Told make runner x input m' := by
  induction hcourse with
  | refl => exact h
  | tail _ hstep ih => exact ih.step hstep

end Moment

/-! ### Serving -/

theorem Link.acts_configure {E S : Type} [Engine E] [Session S] (runner : Runner) (k : Link E S)
    (said : Demand) (left : Bytes) :
    Moment.Acts runner ⟨k, said, left⟩ ⟨k.configure, k.configure.demand, left⟩ := by
  unfold configure
  dsimp only
  split
  · exact .head (.setSide _ _) (Moment.Act.note _ _).acts
  · exact .head (.setSide _ _) (.head (.setCertificatePolicy _ _) (Moment.Act.note _ _).acts)

theorem Link.session_configure {E S : Type} [Engine E] [Session S] (k : Link E S) :
    k.configure.session = k.session := by
  unfold configure
  dsimp only
  split <;> rfl

/-- The request has succeeded, and has not found the channel closed. -/
def Turn.goesOn {E S : Type} (turn : Turn E S Response) : Bool :=
  match turn.result with
  | .ok response => decide (response ≠ .outcome .closed)
  | .error _ => false

namespace Channel

variable {E S : Type}

/-- The input that waits for more. -/
def pending (c : Channel E) : Bytes := (c.backlog.map (·.bytes)).getD []

variable [Engine E] [Session S] {α : Type} (c : Channel E) (make : EngineMaker E) (s : S)

/-- A request fails before anything is done for it, except that an engine may have been asked for. -/
structure TurnsDown (c : Channel E) (make : EngineMaker E) (s : S) (turn : Turn E S α) : Prop where
  result_eq : ∃ e, turn.result = .error e
  channel_eq : turn.channel = c
  session_eq : turn.session = s
  calls_eq : turn.calls.toList = [] ∨
    c.engine = none ∧ ∃ peer e, make peer = .error e ∧ turn.calls.toList = [.create peer]

/-- A request takes a course that begins with a link and ends at a moment. -/
structure Serves (c : Channel E) (make : EngineMaker E) (s : S) (input : Bytes) (turn : Turn E S α)
    (k : Link E S) (m : Moment E S) : Prop where
  session_eq : k.session = s
  handshaking_eq : k.handshaking = c.handshaking
  course : Moment.Course c.runner ⟨k, k.demand, input⟩ m
  told : Moment.Told make c.runner (c.scene s) input m
  turn_eq : turn = c.turn turn.channel.backlog turn.result m.link

/-- Either no engine can be made, or there is a link by which every request is served. -/
theorem serve_cases :
    (∃ e, c.engine = none ∧ make (Session.attributes s).peer = .error e ∧
        ∀ {α : Type} (request : Link E S → Turn E S α), c.serve make s request =
          ⟨.error (.creation e), c, s, #[.create (Session.attributes s).peer], #[]⟩) ∨
      ∃ k : Link E S, k.session = s ∧ k.handshaking = c.handshaking ∧
        (∃ engine, k = ⟨engine, s, c.handshaking, #[], #[]⟩ ∨
          k = Link.configure ⟨engine, s, c.handshaking, #[.create (Session.attributes s).peer], #[]⟩) ∧
        (∀ input, Moment.Told make c.runner (c.scene s) input ⟨k, k.demand, input⟩) ∧
        ∀ {α : Type} (request : Link E S → Turn E S α), c.serve make s request = request k := by
  rcases hengine : c.engine with _ | engine
  · rcases hmade : make (Session.attributes s).peer with e | engine
    · refine .inl ⟨e, rfl, rfl, fun request => ?_⟩
      unfold serve
      rw [hengine]
      dsimp only
      rw [hmade]
    · let created : Link E S := ⟨engine, s, c.handshaking, #[.create (Session.attributes s).peer], #[]⟩
      have hcreated : ∀ input,
          Moment.Told make c.runner (c.scene s) input ⟨created, created.demand, input⟩ := by
        intro input
        refine Moment.told_start ?_ (.inr ⟨_, rfl⟩)
        show Scene.ask _ (make (Session.attributes s).peer).toOption = _
        rw [hmade]
        rfl
      have hacts := fun input => created.acts_configure c.runner created.demand input
      refine .inr ⟨created.configure, created.session_configure, (hacts []).handshaking_eq, ⟨engine, .inr rfl⟩,
        fun input => (hcreated input).course (hacts input).course, fun request => ?_⟩
      unfold serve
      rw [hengine]
      dsimp only
      rw [hmade]
  · refine .inr ⟨⟨engine, s, c.handshaking, #[], #[]⟩, rfl, rfl, ⟨engine, .inl rfl⟩, fun input => ?_,
      fun request => ?_⟩
    · refine Moment.told_start ?_ (.inl rfl)
      unfold scene
      rw [hengine]
      rfl
    · unfold serve
      rw [hengine]

variable {c make s}

omit [Engine E] [Session S] in
theorem TurnsDown.map {β : Type} {turn : Turn E S α} (h : c.TurnsDown make s turn) (f : α → β) :
    c.TurnsDown make s (turn.map f) := by
  obtain ⟨e, he⟩ := h.result_eq
  refine ⟨⟨e, ?_⟩, h.channel_eq, h.session_eq, h.calls_eq⟩
  show turn.result.map f = _
  rw [he]
  rfl

omit [Engine E] [Session S] in
theorem TurnsDown.create_of_mem {turn : Turn E S α} (h : c.TurnsDown make s turn) {call : Call}
    (hmem : call ∈ turn.calls.toList) : ∃ peer, call = .create peer := by
  rcases h.calls_eq with heq | ⟨-, peer, e, -, heq⟩
  · rw [heq] at hmem
    cases hmem
  · rw [heq] at hmem
    exact ⟨peer, List.mem_singleton.1 hmem⟩

theorem Serves.calls_eq {input : Bytes} {turn : Turn E S α} {k : Link E S} {m : Moment E S}
    (h : c.Serves make s input turn k m) : turn.calls = m.link.calls := by
  rw [h.turn_eq]
  rfl

theorem Serves.map {β : Type} {input : Bytes} {turn : Turn E S α} {k : Link E S} {m : Moment E S}
    (h : c.Serves make s input turn k m) (f : α → β) : c.Serves make s input (turn.map f) k m :=
  ⟨h.session_eq, h.handshaking_eq, h.course, h.told, congrArg (Turn.map f) h.turn_eq⟩

/-- A request is served or turned down if it takes a course whatever the link. -/
private theorem serve_serves (input : Bytes) (request : Link E S → Turn E S α)
    (leaves : Turn E S α → Moment E S → Prop)
    (hrequest : ∀ k : Link E S, ∃ m, Moment.Course c.runner ⟨k, k.demand, input⟩ m ∧
      request k = c.turn (request k).channel.backlog (request k).result m.link ∧ leaves (request k) m) :
    (c.TurnsDown make s (c.serve make s request) ∧ c.engine = none) ∨
      ∃ k m, c.Serves make s input (c.serve make s request) k m ∧ leaves (c.serve make s request) m := by
  rcases c.serve_cases make s with ⟨e, hnone, hmade, hfails⟩ | ⟨k, hsession, hhandshaking, -, htold, hserve⟩
  · rw [hfails]
    exact .inl ⟨⟨⟨_, rfl⟩, rfl, rfl, .inr ⟨hnone, _, e, hmade, rfl⟩⟩, hnone⟩
  · obtain ⟨m, hcourse, hturn, hleaves⟩ := hrequest k
    rw [hserve]
    exact .inr ⟨k, m, ⟨hsession, hhandshaking, hcourse, (htold input).course hcourse, hturn⟩, hleaves⟩

/-- The channel lets the bytes wait that are left, and no empty buffer. -/
def Holds (c : Channel E) (left : Bytes) : Prop :=
  c.backlog.map (·.bytes) = if left = [] then none else some left

theorem gather_ok {backlog backlog' : Option Backlog} {input all : Bytes}
    (h : gather backlog input = .ok (backlog', all)) : all = (backlog.map (·.bytes)).getD [] ++ input := by
  rcases backlog with _ | b
  · cases h
    rfl
  · dsimp only [gather] at h
    rcases happend : b.append input with e | b'
    · rw [happend] at h
      cases h
    · rw [happend] at h
      cases h
      exact Backlog.bytes_of_append happend

theorem retain_ok {pool : Pool} {backlog backlog' : Option Backlog} {left : Bytes}
    (h : retain pool backlog left = .ok backlog') :
    backlog'.map (·.bytes) = if left = [] then none else some left := by
  rcases retain_cases h with ⟨rfl, rfl⟩ | ⟨hne, ⟨b, -, rfl⟩ | ⟨b, -, hbytes, rfl⟩⟩
  · rfl
  · rw [if_neg hne]
    rfl
  · rw [if_neg hne, ← (Backlog.isOf_of_ofBytes? hbytes).2]
    rfl

/-- Input can be put behind what waits as long as all of it is within the limit. -/
theorem exists_gather {pool : Pool} (hp : pool.IsAmple) {backlog : Option Backlog}
    (hbacklog : ∀ b, backlog = some b → b.IsOf pool) {input : Bytes}
    (hroom : ((backlog.map (·.bytes)).getD []).length + input.length ≤ pool.limit) :
    ∃ backlog', gather backlog input = .ok (backlog', (backlog.map (·.bytes)).getD [] ++ input) ∧
      ∀ b, backlog' = some b → b.IsOf pool ∧ b.bytes = (backlog.map (·.bytes)).getD [] ++ input := by
  rcases backlog with _ | b
  · exact ⟨none, rfl, nofun⟩
  · obtain ⟨b', happend, hof, hbytes⟩ := (hbacklog b rfl).exists_append hp hroom
    refine ⟨some b', ?_, ?_⟩
    · dsimp only [gather]
      rw [happend]
      exact congrArg (fun bytes => Except.ok (some b', bytes)) hbytes
    · rintro _ ⟨⟩
      exact ⟨hof, hbytes⟩

theorem exists_retain {pool : Pool} (hp : pool.IsAmple) (left : Bytes) (hleft : left.length ≤ pool.limit)
    (backlog : Option Backlog) : ∃ backlog', retain pool backlog left = .ok backlog' := by
  unfold retain
  split
  · exact ⟨none, rfl⟩
  · rcases backlog with _ | b
    · obtain ⟨b, hb⟩ := Backlog.exists_ofBytes? hp hleft
      refine ⟨some b, ?_⟩
      dsimp only
      rw [hb]
      rfl
    · exact ⟨_, rfl⟩

theorem isOf_of_retain {pool : Pool} {left : Bytes} {backlog backlog' : Option Backlog}
    (h : retain pool backlog left = .ok backlog')
    (hbacklog : ∀ b, backlog = some b → b.IsOf pool ∧ left.length ≤ b.bytes.length) :
    ∀ b, backlog' = some b → b.IsOf pool := by
  rcases retain_cases h with ⟨-, rfl⟩ | ⟨-, ⟨b, rfl, rfl⟩ | ⟨b, -, hbytes, rfl⟩⟩
  · nofun
  · rintro _ ⟨⟩
    exact (hbacklog b rfl).1.withBytes (hbacklog b rfl).2
  · rintro _ ⟨⟩
    exact (Backlog.isOf_of_ofBytes? hbytes).1

/-- What a request to take input leaves waiting. -/
def Retains (turn : Turn E S Outcome) (left : Bytes) : Prop :=
  ((∃ o, turn.result = .ok o ∧ o ≠ .closed) → turn.channel.Holds left) ∧
    ((¬ ∃ o, turn.result = .ok o ∧ o ≠ .closed) → turn.channel.backlog = none)

omit [Engine E] [Session S] in
theorem Retains.of_stop {turn : Turn E S Outcome} {left : Bytes} (h : ∀ o, turn.result = .ok o → o = .closed)
    (hnone : turn.channel.backlog = none) : Retains turn left := by
  refine ⟨?_, fun _ => hnone⟩
  rintro ⟨o, hresult, hopen⟩
  exact absurd (h o hresult) hopen

variable (c make s) in
theorem receive_cases (input : Bytes) :
    (c.TurnsDown make s (c.receive make s input) ∧ c.engine = none) ∨
      ∃ k m, c.Serves make s (c.pending ++ input) (c.receive make s input) k m ∧
        Retains (c.receive make s input) m.input := by
  refine serve_serves (c.pending ++ input) _ (fun turn m => Retains turn m.input) fun k => ?_
  rcases hgather : gather c.backlog input with e | ⟨backlog, all⟩
  · exact ⟨_, .refl _, rfl, .of_stop nofun rfl⟩
  · obtain rfl : all = c.pending ++ input := gather_ok hgather
    obtain ⟨said, left, hcourse, hleft⟩ := k.course_read c.runner c.pool (c.pending ++ input)
    refine ⟨_, hcourse, ?_⟩
    dsimp only
    rcases hread : k.read c.pool c.runner (c.pending ++ input) with ⟨e | ⟨o, rest⟩, after⟩
    · exact ⟨rfl, .of_stop nofun rfl⟩
    · rw [hread] at hleft
      obtain rfl := hleft o rest rfl
      by_cases hclosed : o = .closed
      · subst hclosed
        exact ⟨rfl, .of_stop (fun o h => (Except.ok.inj h).symm) rfl⟩
      · rcases hretain : retain c.pool backlog rest with e | backlog'
        · cases o with
          | closed => exact absurd rfl hclosed
          | _ =>
            dsimp only
            rw [hretain]
            exact ⟨rfl, .of_stop nofun rfl⟩
        · cases o with
          | closed => exact absurd rfl hclosed
          | _ =>
            dsimp only
            rw [hretain]
            exact ⟨rfl, fun _ => retain_ok hretain, fun hstop => absurd ⟨_, rfl, hclosed⟩ hstop⟩

/-- The bytes that a request brings: new input behind what waits. -/
def brings (c : Channel E) : Request → Bytes
  | .receive input => c.pending ++ input
  | _ => []

omit [Engine E] [Session S] in
theorem goesOn_map (turn : Turn E S Outcome) :
    (turn.map Response.outcome).goesOn = true ↔ ∃ o, turn.result = .ok o ∧ o ≠ .closed := by
  unfold Turn.goesOn Turn.map
  rcases hresult : turn.result with e | o
  · exact ⟨nofun, nofun⟩
  · constructor
    · intro hgoes
      have hopen : Response.outcome o ≠ .outcome .closed := of_decide_eq_true hgoes
      exact ⟨o, rfl, fun heq => hopen (congrArg _ heq)⟩
    · rintro ⟨o', heq, hopen⟩
      cases heq
      exact decide_eq_true fun heq => hopen (Response.outcome.inj heq)

/-- What waits after a turn: what is left of the input of a read, and what waited before if there was none. -/
def Leaves (c : Channel E) (request : Request) (turn : Turn E S Response) (left : Bytes) : Prop :=
  match request with
  | .receive _ =>
    (turn.goesOn = true → turn.channel.Holds left) ∧ (turn.goesOn = false → turn.channel.backlog = none)
  | _ => turn.channel.backlog = c.backlog

variable (c make s)

/-- A request without input leaves waiting what waited before. -/
private theorem serve_leaves (f : α → Response) {request : Link E S → Turn E S α} {turn : Turn E S α}
    (hturn : turn = c.serve make s request)
    (hrequest : ∀ k : Link E S, ∃ m, Moment.Course c.runner ⟨k, k.demand, []⟩ m ∧
      request k = c.turn c.backlog (request k).result m.link) :
    (c.TurnsDown make s (turn.map f) ∧ c.engine = none) ∨
      ∃ k m, c.Serves make s [] (turn.map f) k m ∧ (turn.map f).channel.backlog = c.backlog := by
  subst hturn
  have hserve : (c.TurnsDown make s (c.serve make s request) ∧ c.engine = none) ∨
      ∃ k m, c.Serves make s [] (c.serve make s request) k m ∧
        (c.serve make s request).channel.backlog = c.backlog := by
    refine serve_serves [] request (fun turn _ => turn.channel.backlog = c.backlog) fun k => ?_
    obtain ⟨m, hcourse, hlink⟩ := hrequest k
    have hbacklog : (request k).channel.backlog = c.backlog := by
      rw [hlink]
      rfl
    exact ⟨m, hcourse, by rw [hbacklog]; exact hlink, hbacklog⟩
  rcases hserve with ⟨hdown, hnone⟩ | ⟨k, m, hserves, hleaves⟩
  · exact .inl ⟨hdown.map f, hnone⟩
  · exact .inr ⟨k, m, hserves.map f, hleaves⟩

/-- Every request is turned down, or takes a course. -/
theorem handle_cases (request : Request) :
    (c.TurnsDown make s (c.handle make s request) ∧
        (c.engine = none ∨ ∃ message, request = .send message)) ∨
      ∃ k m, c.Serves make s (c.brings request) (c.handle make s request) k m ∧
        c.Leaves request (c.handle make s request) m.input := by
  cases request with
  | prepare =>
    refine (c.serve_leaves make s _ rfl fun k => ?_).imp_left (And.imp_right .inl)
    exact ⟨_, .refl _, rfl⟩
  | start =>
    refine (c.serve_leaves make s _ rfl fun k => ?_).imp_left (And.imp_right .inl)
    obtain ⟨said, left, hcourse⟩ := k.course_start c.runner c.pool
    exact ⟨_, hcourse, rfl⟩
  | receive input =>
    rcases c.receive_cases make s input with ⟨hdown, hnone⟩ | ⟨k, m, hserves, hholds, hnone⟩
    · exact .inl ⟨hdown.map _, .inl hnone⟩
    · have hgoes := goesOn_map (c.receive make s input)
      refine .inr ⟨k, m, hserves.map _, fun h => hholds (hgoes.1 h), fun h => hnone fun hopen => ?_⟩
      exact absurd (hgoes.2 hopen) (Bool.not_eq_true _ ▸ h)
  | send message =>
    by_cases hstate : Session.state s = .secured
    · have hsend : c.send make s message = c.serve make s fun k =>
          c.turn c.backlog (k.write c.pool message).1 (k.write c.pool message).2 := if_pos hstate
      refine (c.serve_leaves make s _ hsend fun k => ?_).imp_left (And.imp_right .inl)
      obtain ⟨said, hacts⟩ := k.acts_write c.runner c.pool k.demand [] message
      exact ⟨_, hacts.course, rfl⟩
    · have hsend : c.send make s message = ⟨.error .notSecured, c, s, #[], #[]⟩ := if_neg hstate
      refine .inl ⟨?_, .inr ⟨message, rfl⟩⟩
      show c.TurnsDown make s ((c.send make s message).map Response.sent)
      rw [hsend]
      exact ⟨⟨_, rfl⟩, rfl, rfl, .inl rfl⟩

/-- Nothing is done to the engine and the session that the log does not tell. -/
theorem replay_handle (request : Request) :
    ∃ said, (c.scene s).replay make c.runner (c.handle make s request).calls.toList =
      ⟨(c.handle make s request).channel.engine, (c.handle make s request).session, said⟩ := by
  rcases c.handle_cases make s request with ⟨hdown, -⟩ | ⟨k, m, hserves, -⟩
  · rw [hdown.channel_eq, hdown.session_eq]
    rcases hdown.calls_eq with heq | ⟨hnone, peer, e, hmade, heq⟩
    · rw [heq]
      exact ⟨_, rfl⟩
    · rw [heq, hnone]
      refine ⟨none, ?_⟩
      show Scene.ask _ (make peer).toOption = _
      rw [hmade]
      rfl
  · rw [hserves.calls_eq, hserves.told.replay_eq, hserves.turn_eq]
    exact ⟨_, rfl⟩

/-- The session is secured only right after the engine has said that the handshake is completed. -/
theorem said_of_secured (request : Request) {before after : List Call}
    (h : (c.handle make s request).calls.toList = before ++ .moveTo .secured :: after) :
    ((c.scene s).replay make c.runner before).said = some .finished := by
  rcases c.handle_cases make s request with ⟨hdown, -⟩ | ⟨k, m, hserves, -⟩
  · have hmem : .moveTo .secured ∈ (c.handle make s request).calls.toList := by
      rw [h]
      exact List.mem_append_right _ (List.mem_cons_self ..)
    obtain ⟨peer, ⟨⟩⟩ := hdown.create_of_mem hmem
  · exact hserves.told.said_eq before after (hserves.calls_eq ▸ h)

end Channel

end SecureStream
