import SecureStream.Proofs.Channel.Log
import SecureStream.Proofs.Channel.Resizing

/-!
# Channels with other buffers

Two channels with different pools look the same (`Channel.view`) as long as every buffer can be had: each
request then gives the same result and leaves channels that look the same (`Channel.matches_handle`), and so
does a history (`Channel.seen_handleAll`).  The engine may be any whose calls need certain amounts of room.
-/

namespace SecureStream

variable {E S : Type}

/-- A channel without its pool and without the room to spare behind the input that waits. -/
@[ext] structure Channel.View (E : Type) where
  runner : Runner
  engine : Option E
  handshaking : Bool
  waiting : Option Bytes

def Channel.view (c : Channel E) : Channel.View E :=
  ⟨c.runner, c.engine, c.handshaking, c.backlog.map (·.bytes)⟩

/-- What can be seen of a turn without looking at buffers and at what was taken down. -/
def Turn.seen {α : Type} (turn : Turn E S α) : Except ChannelError α × Channel.View E × S :=
  (turn.result, turn.channel.view, turn.session)

/-- A buffer could not be had: it would exceed its limit, or there is no memory for it. -/
def Turn.isShort {α : Type} (turn : Turn E S α) : Bool :=
  match turn.result with
  | .error (.buffer _) => true
  | _ => false

/-- Two turns look the same, or a buffer could not be had in one of them. -/
inductive Turn.Matches {α : Type} (turn turn' : Turn E S α) : Prop where
  | short (hshort : turn.isShort)
  | short' (hshort : turn'.isShort)
  | same (hseen : turn.seen = turn'.seen)

@[simp] theorem Turn.isShort_map {α β : Type} (turn : Turn E S α) (f : α → β) :
    (turn.map f).isShort = turn.isShort := by
  obtain ⟨result, channel, session, calls, notices⟩ := turn
  cases result with
  | ok a => rfl
  | error e => cases e <;> rfl

theorem Turn.Matches.map {α β : Type} {turn turn' : Turn E S α} (h : turn.Matches turn') (f : α → β) :
    (turn.map f).Matches (turn'.map f) := by
  cases h with
  | short hshort => exact .short ((turn.isShort_map f).trans hshort)
  | short' hshort => exact .short' ((turn'.isShort_map f).trans hshort)
  | same hseen => exact .same (congrArg (fun x => (x.1.map f, x.2)) hseen)

namespace Channel

variable {c c' : Channel E} {s : S}

/-- The turn behind an attempt. -/
theorem matches_turn {α : Type} {x y : Except ChannelError α × Link E S} (hview : c.view = c'.view)
    (h : Link.Matches x y) {backlog backlog' : Option Backlog}
    (hwaiting : backlog.map (·.bytes) = backlog'.map (·.bytes)) :
    (c.turn backlog x.1 x.2).Matches (c'.turn backlog' y.1 y.2) := by
  have hrunner : c.runner = c'.runner := congrArg View.runner hview
  have hseen : ∀ {result : Except ChannelError α} {k k' : Link E S}, k.Alike k' →
      (c.turn backlog result k).seen = (c'.turn backlog' result k').seen := by
    intro result k k' halike
    unfold Turn.seen view turn
    rw [hrunner, hwaiting, halike.engine_eq, halike.session_eq, halike.handshaking_eq]
  cases h with
  | short e k y => exact .short rfl
  | short' x e k => exact .short' rfl
  | error e halike => exact .same (hseen halike)
  | ok a halike => exact .same (hseen halike)

variable [Engine E] [Session S] (make : EngineMaker E) (s : S)

theorem matches_serve {α : Type} (hview : c.view = c'.view) {request request' : Link E S → Turn E S α}
    (hrequest : ∀ k, (request k).Matches (request' k)) :
    (c.serve make s request).Matches (c'.serve make s request') := by
  have hengine : c.engine = c'.engine := congrArg View.engine hview
  have hhandshaking : c.handshaking = c'.handshaking := congrArg View.handshaking hview
  unfold serve
  rw [← hengine, ← hhandshaking]
  rcases c.engine with _ | engine
  · dsimp only
    rcases make (Session.attributes s).peer with e | engine
    · exact .same (congrArg (fun view => (Except.error (ChannelError.creation e), view, s)) hview)
    · exact hrequest _
  · exact hrequest _

variable (hmeasured : Engine.IsMeasured E)

include hmeasured

theorem matches_receive (hview : c.view = c'.view) (input : Bytes) :
    (c.receive make s input).Matches (c'.receive make s input) := by
  refine matches_serve make s hview fun k => ?_
  have hwaiting : c.backlog.map (·.bytes) = c'.backlog.map (·.bytes) := congrArg View.waiting hview
  rcases hgather : gather c.backlog input with e | ⟨b, pending⟩
  · exact .short rfl
  rcases hgather' : gather c'.backlog input with e | ⟨b', pending'⟩
  · exact .short' rfl
  obtain rfl : pending = pending' := by
    rw [gather_ok hgather, gather_ok hgather', hwaiting]
  have hread := Link.matches_read hmeasured c.pool c'.pool c.runner pending (.refl k)
  have hrunner : c.runner = c'.runner := congrArg View.runner hview
  dsimp only
  rw [← hrunner]
  generalize Link.read c.pool (E := E) (S := S) .. = x, Link.read c'.pool (E := E) (S := S) .. = y at hread ⊢
  cases hread with
  | short e k y => exact .short rfl
  | short' x e k => exact .short' rfl
  | error e halike => exact matches_turn hview (.error e halike) rfl
  | ok r halike =>
    obtain ⟨o, left⟩ := r
    cases o with
    | closed => exact matches_turn hview (.ok Outcome.closed halike) rfl
    | _ =>
      dsimp only
      rcases hretain : retain c.pool b left with e | kept
      · exact .short rfl
      rcases hretain' : retain c'.pool b' left with e | kept'
      · exact .short' rfl
      · exact matches_turn hview (.ok _ halike) ((retain_ok hretain).trans (retain_ok hretain').symm)

theorem matches_send (hview : c.view = c'.view) (message : Bytes) :
    (c.send make s message).Matches (c'.send make s message) := by
  have hwaiting : c.backlog.map (·.bytes) = c'.backlog.map (·.bytes) := congrArg View.waiting hview
  unfold send
  split
  · refine matches_serve make s hview fun k => ?_
    exact matches_turn hview (Link.matches_write hmeasured c.pool c'.pool message (.refl k)) hwaiting
  · exact .same (congrArg (fun view => (Except.error ChannelError.notSecured, view, s)) hview)

/-- Every request is served alike. -/
theorem matches_handle (hview : c.view = c'.view) (request : Request) :
    (c.handle make s request).Matches (c'.handle make s request) := by
  have hwaiting : c.backlog.map (·.bytes) = c'.backlog.map (·.bytes) := congrArg View.waiting hview
  cases request with
  | prepare =>
    refine Turn.Matches.map (matches_serve make s hview fun k => ?_) _
    exact matches_turn hview (.ok () (.refl k)) hwaiting
  | start =>
    refine Turn.Matches.map (matches_serve make s hview fun k => ?_) _
    have hrunner : c.runner = c'.runner := congrArg View.runner hview
    rw [← hrunner]
    exact matches_turn hview (Link.matches_start hmeasured c.pool c'.pool c.runner (.refl k)) hwaiting
  | receive input => exact (matches_receive make s hmeasured hview input).map _
  | send message => exact (matches_send make s hmeasured hview message).map _

/-- As long as no buffer is wanting, a history gives the same turns whatever the pools. -/
theorem seen_handleAll (hview : c.view = c'.view) (history : List (EngineMaker E × Request)) (n : Nat)
    (hroom : ∀ turn ∈ (c.handleAll s history).1.take n, ¬ turn.isShort)
    (hroom' : ∀ turn ∈ (c'.handleAll s history).1.take n, ¬ turn.isShort) :
    ((c.handleAll s history).1.take n).map Turn.seen = ((c'.handleAll s history).1.take n).map Turn.seen := by
  induction history generalizing c c' s n with
  | nil => rfl
  | cons entry history ih =>
    cases n with
    | zero => rfl
    | succ n =>
      obtain ⟨make, request⟩ := entry
      obtain ⟨hfirst, hrest⟩ := List.forall_mem_cons.1 hroom
      obtain ⟨hfirst', hrest'⟩ := List.forall_mem_cons.1 hroom'
      cases matches_handle make s hmeasured hview request with
      | short hshort => exact absurd hshort hfirst
      | short' hshort => exact absurd hshort hfirst'
      | same hseen =>
        have hchannel : (c.handle make s request).channel.view = (c'.handle make s request).channel.view :=
          congrArg (fun x => x.2.1) hseen
        have hsession : (c.handle make s request).session = (c'.handle make s request).session :=
          congrArg (fun x => x.2.2) hseen
        rw [← hsession] at hrest'
        refine congrArg₂ List.cons hseen ((ih _ hchannel n hrest hrest').trans ?_)
        rw [hsession]

end Channel

end SecureStream
