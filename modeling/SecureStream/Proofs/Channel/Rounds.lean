import SecureStream.Engine.Playback
import SecureStream.Proofs.Channel.Log
import SecureStream.Session.Journal

/-!
# Rounds

A session goes round: from connected it moves to securing, then to secured, and when it is closed back to
connected.  It never leaves this order, whatever the engine answers and whatever requests fail, and the
channel knows that a handshake goes on exactly while the session is securing (`GoesRound`).

One step keeps that (`GoesRound.step`), so a request does (`GoesRound.handle`) and a history of requests.
-/

namespace SecureStream

namespace SessionState

/-- The state that a session moves to next. -/
def next : SessionState → SessionState
  | connected => securing
  | securing => secured
  | secured => connected

/-- The next `n` states that a session moves to. -/
def round (s : SessionState) : Nat → List SessionState
  | 0 => []
  | n + 1 => s.next :: s.next.round n

/-- The round goes on behind the state that was reached last. -/
theorem round_succ (s : SessionState) (n : Nat) :
    s.round (n + 1) = s.round n ++ [((s.round n).getLast?.getD s).next] := by
  induction n generalizing s with
  | zero => rfl
  | succ n ih =>
    show s.next :: s.next.round (n + 1) = s.next :: (s.next.round n ++ [_])
    rw [ih, round, List.getLast?_cons]
    rfl

example : connected.round 5 = [securing, secured, connected, securing, secured] := rfl

end SessionState

/-- The state that a call asks the session to move to. -/
def Call.move? : Call → Option SessionState
  | .moveTo state => some state
  | _ => none

/-- A journal goes round that was in the state `start` to begin with, and the flag says whether it is
securing. -/
structure GoesRound (start : SessionState) (handshaking : Bool) (j : Journal) : Prop where
  transitions_eq : j.transitions.toList = start.round j.transitions.size
  state_eq : j.state = j.transitions.toList.getLast?.getD start
  handshaking_iff : handshaking = true ↔ j.state = .securing

namespace GoesRound

variable {start : SessionState} {handshaking : Bool} {j j' : Journal}

/-- A journal that has not moved yet. -/
theorem of_unmoved (hne : j.state ≠ .securing) (hnone : j.transitions = #[]) :
    GoesRound j.state false j := by
  refine ⟨?_, ?_, ?_⟩
  · rw [hnone]
    rfl
  · rw [hnone]
    rfl
  · exact ⟨nofun, fun h => absurd h hne⟩

theorem congr (h : GoesRound start handshaking j) (hstate : j'.state = j.state)
    (htransitions : j'.transitions = j.transitions) : GoesRound start handshaking j' := by
  refine ⟨?_, ?_, ?_⟩
  · rw [htransitions, h.transitions_eq]
  · rw [hstate, htransitions, h.state_eq]
  · rw [hstate, h.handshaking_iff]

theorem moveTo (h : GoesRound start handshaking j) {state : SessionState} (hnext : state = j.state.next)
    {handshaking' : Bool} (hflag : handshaking' = true ↔ state = .securing) :
    GoesRound start handshaking' (j.moveTo state) := by
  have hlist : (j.moveTo state).transitions.toList = j.transitions.toList ++ [state] := Array.toList_push
  refine ⟨?_, ?_, hflag⟩
  · rw [hlist, Journal.transitions_moveTo, Array.size_push, SessionState.round_succ, ← h.transitions_eq,
      ← h.state_eq, hnext]
  · rw [hlist, List.getLast?_concat]
    rfl

variable {E : Type} [Engine E] {runner : Runner} {m m' : Moment E Journal}

theorem act (h : GoesRound start m.link.handshaking m.link.session) (hact : Moment.Act runner m m') :
    GoesRound start m'.link.handshaking m'.link.session := by
  rw [hact.handshaking_eq]
  cases hact with
  | startHandshake hcall | wrap hcall | unwrap hcall =>
    cases hcall
    exact h
  | enqueue | deliver => exact h.congr rfl rfl
  | _ => exact h

theorem step (h : GoesRound start m.link.handshaking m.link.session) (hstep : Moment.Step runner m m') :
    GoesRound start m'.link.handshaking m'.link.session := by
  have hiff := h.handshaking_iff
  cases hstep with
  | act hact => exact h.act hact
  | enter hidle hstate =>
    have hsecuring : m.link.session.state ≠ .securing := fun heq => by
      rw [hidle] at hiff
      exact absurd (hiff.2 heq) Bool.false_ne_true
    refine h.moveTo ?_ ⟨fun _ => rfl, fun _ => rfl⟩
    change m.link.session.state ≠ .secured at hstate
    cases hconnected : m.link.session.state with
    | connected => rfl
    | securing => exact absurd hconnected hsecuring
    | secured => exact absurd hconnected hstate
  | secure hgoing hsaid =>
    refine h.moveTo ?_ ⟨nofun, nofun⟩
    rw [hiff.1 hgoing]
    rfl
  | leave hstate =>
    change m.link.session.state = .secured at hstate
    refine h.moveTo ?_ ?_
    · rw [hstate]
      rfl
    · show m.link.handshaking = true ↔ _
      rw [hiff, hstate]
      exact ⟨nofun, nofun⟩

theorem course (h : GoesRound start m.link.handshaking m.link.session) (hcourse : Moment.Course runner m m') :
    GoesRound start m'.link.handshaking m'.link.session := by
  induction hcourse with
  | refl => exact h
  | tail _ hstep ih => exact ih.step hstep

variable {c : Channel E} {s : Journal}

/-- Every request keeps the round, however it ends. -/
theorem handle (h : GoesRound start c.handshaking s) (make : EngineMaker E) (request : Request) :
    GoesRound start (c.handle make s request).channel.handshaking (c.handle make s request).session := by
  rcases c.handle_cases make s request with ⟨hdown, -⟩ | ⟨k, m, hserves, -⟩
  · rw [hdown.channel_eq, hdown.session_eq]
    exact h
  · rw [hserves.turn_eq]
    rw [← hserves.session_eq, ← hserves.handshaking_eq] at h
    exact h.course hserves.course

theorem handleAll (h : GoesRound start c.handshaking s) (history : List (EngineMaker E × Request)) :
    GoesRound start (c.handleAll s history).2.1.handshaking (c.handleAll s history).2.2 := by
  induction history generalizing c s with
  | nil => exact h
  | cons request history ih => exact ih (h.handle request.1 request.2)

end GoesRound

variable {E : Type} [Engine E]

/-- The states that the calls of a log ask for are those that the journal remembers. -/
theorem Scene.transitions_replay (make : EngineMaker E) (runner : Runner) (x : Scene E Journal)
    (calls : List Call) :
    (x.replay make runner calls).session.transitions.toList =
      x.session.transitions.toList ++ calls.filterMap Call.move? := by
  induction calls generalizing x with
  | nil => exact (List.append_nil _).symm
  | cons call calls ih =>
    refine (ih _).trans ?_
    cases call with
    | moveTo state =>
      have hpush : (x.session.moveTo state).transitions.toList = x.session.transitions.toList ++ [state] :=
        Array.toList_push
      show (x.session.moveTo state).transitions.toList ++ _ = _
      rw [hpush, List.append_assoc]
      rfl
    | _ => rfl

namespace Channel

theorem transitions_handle (c : Channel E) (make : EngineMaker E) (s : Journal) (request : Request) :
    (c.handle make s request).session.transitions.toList =
      s.transitions.toList ++ (c.handle make s request).calls.toList.filterMap Call.move? := by
  obtain ⟨said, hreplay⟩ := c.replay_handle make s request
  have htransitions :=
    Scene.transitions_replay make c.runner (c.scene s) (c.handle make s request).calls.toList
  rw [hreplay] at htransitions
  exact htransitions

/-- After any requests, a session that was connected or secured to begin with has gone round and is where its
last move has led it.  The channel knows when it is securing.  The next request remembers every move that it
asks for, and asks to secure the session only when its engine has just said that the handshake is
completed. -/
theorem moves_in_rounds (pool : Pool) (runner : Runner) (j : Journal) (hne : j.state ≠ .securing)
    (hnone : j.transitions = #[]) (history : List (EngineMaker E × Request)) :
    let c := ((closed pool runner).handleAll j history).2.1
    let s := ((closed pool runner).handleAll j history).2.2
    s.transitions.toList = j.state.round s.transitions.size ∧
      s.state = s.transitions.toList.getLast?.getD j.state ∧
      (c.handshaking = true ↔ s.state = .securing) ∧
      ∀ (make : EngineMaker E) (request : Request),
        let turn := c.handle make s request
        turn.session.transitions.toList = s.transitions.toList ++ turn.calls.toList.filterMap Call.move? ∧
          ∀ before after, turn.calls.toList = before ++ .moveTo .secured :: after →
            ((c.scene s).replay make c.runner before).said = some .finished := by
  intro c s
  have hbegin : GoesRound j.state (closed (E := E) pool runner).handshaking j := .of_unmoved hne hnone
  have hround : GoesRound j.state c.handshaking s := hbegin.handleAll history
  refine ⟨hround.transitions_eq, hround.state_eq, hround.handshaking_iff, fun make request => ⟨?_, ?_⟩⟩
  · exact c.transitions_handle make s request
  · intro before after hcalls
    exact c.said_of_secured make s request hcalls

/-- A script opens the channel, closes it again, and is at its end when another handshake begins. -/
theorem moves_in_rounds_script :
    let script : List ScriptStep :=
      [.wrap ⟨.ok, .input, 0, 1, [7]⟩ false, .unwrap ⟨.ok, .finished, 2, 0, []⟩,
        .unwrap ⟨.closed, .output, 1, 0, []⟩, .wrap ⟨.closed, .output, 0, 1, [9]⟩ true]
    let make : EngineMaker Playback := fun _ => .ok (.start .output script 256)
    let j := Journal.connected true .unknown
    let history := [(make, .start), (make, .receive [1, 2]), (make, .receive [3]), (make, .start)]
    let c := ((closed .usual .onTheSpot).handleAll j history).2.1
    let s := ((closed .usual .onTheSpot).handleAll j history).2.2
    j.state ≠ .securing ∧ j.transitions = #[] ∧ s.transitions.size = 4 ∧
      s.transitions.toList = j.state.round 4 ∧ c.handshaking = true ∧
      (c.handle make s (.receive [4])).session.transitions.toList =
        s.transitions.toList ++ (c.handle make s (.receive [4])).calls.toList.filterMap Call.move? := by
  intro script make j history c s
  have hne : j.state ≠ .securing := by decide
  obtain ⟨htransitions, hstate, hiff, hnext⟩ := moves_in_rounds .usual .onTheSpot j hne rfl history
  have hsize : s.transitions.size = 4 := by decide +kernel
  have hsecuring : s.state = .securing := by decide +kernel
  refine ⟨hne, rfl, hsize, ?_, hiff.2 hsecuring, (hnext make (.receive [4])).1⟩
  rw [← hsize]
  exact htransitions

end Channel

end SecureStream
