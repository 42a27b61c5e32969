import SecureStream.Endpoint
import SecureStream.Frame.Framer
import SecureStream.Frame.Report
import SecureStream.Proofs.Channel.Hindsight
import SecureStream.Proofs.Diagnostics.Reporters

/-!
# Diagnostics never interfere

Header readers, framers between two streams, channels with their sessions and pairs of ends in memory are
reporters, each with all that there is to do with it.  However much of their events a thread wants to hear, they
do the same, and what the thread hears of them is what there is to hear at its verbosity
(`diagnostics_never_interfere`).

The events of a request are handed over when it has ended.  They might as well be handed over one by one, since
a link goes on in the same way whether or not its notices so far have been passed on (`Link.Flushes`).
-/

namespace SecureStream

@[simp] theorem Header.isSome_diagnostic? (h : Header) : h.event.diagnostic?.isSome :=
  Event.isSome_diagnostic?_ofTopic ..

@[simp] theorem Notice.isSome_diagnostic? (n : Notice) : n.event.diagnostic?.isSome := by
  cases n <;> exact Event.isSome_diagnostic?_ofTopic ..

/-! ### Headers -/

namespace HeaderReader

inductive Op where
  | feed (bytes : Bytes)
  | take
  | reset

inductive Answer where
  /-- The header is complete or not, and so many bytes are left. -/
  | fed (complete : Bool) (left : Bytes)
  | taken (header : Option Header)
  | done

def reporter : Reporter HeaderReader Op Answer where
  act r
    | .feed bytes =>
      let (after, left) := r.feed bytes
      (.fed after.isComplete left, after, ((r.arrival? after).map Header.event).toList)
    | .take =>
      let (header, after) := r.take
      (.taken header, after, [])
    | .reset => (.done, .start, [])

theorem hasTopics_reporter : reporter.HasTopics := by
  intro r op e he
  cases op with
  | feed bytes =>
    obtain ⟨h, -, rfl⟩ := Option.map_eq_some_iff.1 (Option.mem_toList.1 he)
    exact h.isSome_diagnostic?
  | take => exact absurd he List.not_mem_nil
  | reset => exact absurd he List.not_mem_nil

end HeaderReader

/-! ### Frames -/

namespace Framer

/-- A framer, the stream that it reads and the stream that it writes. -/
structure Bench where
  framer : Framer
  source : Bytes
  target : Bytes

inductive Op where
  | push (bytes : Bytes)
  | next
  | nextAtEnd
  | put (frame : Frame)
  /-- All that has been written is put behind the stream that is read. -/
  | loop

inductive Answer where
  | done
  | looked (result : Except FrameError (Option Frame))
  | put (result : Except FrameError Unit)

/-- What a look gives, and what it changes. -/
def Bench.look (b : Bench) (look : Look) : Answer × Bench × List Event :=
  (.looked look.result, { b with framer := look.framer, source := look.left },
    (look.arrived.map Header.event).toList)

def reporter : Reporter Bench Op Answer where
  act b
    | .push bytes => (.done, { b with source := b.source ++ bytes }, [])
    | .next => b.look (b.framer.next b.source)
    | .nextAtEnd => b.look (b.framer.nextAtEnd b.source)
    | .put frame =>
      match b.framer.put frame b.target with
      | .ok target => (.put (.ok ()), { b with target }, [])
      | .error e => (.put (.error e), b, [])
    | .loop => (.done, { b with source := b.source ++ b.target, target := [] }, [])

theorem isSome_diagnostic?_of_mem_look {b : Bench} {look : Look} {e : Event} (h : e ∈ (b.look look).2.2) :
    e.diagnostic?.isSome := by
  obtain ⟨header, -, rfl⟩ := Option.map_eq_some_iff.1 (Option.mem_toList.1 h)
  exact header.isSome_diagnostic?

theorem hasTopics_reporter : reporter.HasTopics := by
  intro b op e he
  cases op with
  | push bytes => exact absurd he List.not_mem_nil
  | next => exact isSome_diagnostic?_of_mem_look he
  | nextAtEnd => exact isSome_diagnostic?_of_mem_look he
  | put frame =>
    unfold reporter at he
    dsimp only at he
    split at he
    · exact absurd he List.not_mem_nil
    · exact absurd he List.not_mem_nil
  | loop => exact absurd he List.not_mem_nil

end Framer

/-! ### Links -/

namespace Link

variable {E S : Type}

/-- The link once its notices have been passed on. -/
def flushed (k : Link E S) : Link E S := { k with notices := #[] }

/-- Passes the notices on to a collector. -/
def report (k : Link E S) (c : Collector) : Collector :=
  Tap.plain.offerAll c (k.notices.toList.map Notice.event)

theorem behind_flushed (k : Link E S) : k.flushed.behind k.notices = k := by simp [flushed, behind]

theorem flushed_behind (earlier : Array Notice) (k : Link E S) : (k.behind earlier).flushed = k.flushed := rfl

theorem report_behind (earlier k : Link E S) (c : Collector) :
    (k.behind earlier.notices).report c = k.report (earlier.report c) := by
  simp only [report, behind, Array.toList_append, List.map_append]
  exact Tap.offerAll_append ..

/-- It makes no difference whether the collector is told before a step or behind it: the step does the same,
and the collector has heard the same in the end. -/
structure MayFlush {α : Type} (f : Link E S → α × Link E S) : Prop where
  result_eq (k : Link E S) : (f k.flushed).1 = (f k).1
  link_eq (k : Link E S) : (f k.flushed).2.flushed = (f k).2.flushed
  report_eq (k : Link E S) (c : Collector) : (f k.flushed).2.report (k.report c) = (f k).2.report c

theorem MayFlush.of_behind {α : Type} {f : Link E S → α × Link E S}
    (h : ∀ earlier k, f (k.behind earlier) = endBehind earlier (f k)) : MayFlush f := by
  -- a link is its flushed self behind its own notices
  have hflushed (k : Link E S) : f k = endBehind k.notices (f k.flushed) := by
    rw [← h, behind_flushed]
  refine ⟨fun k => ?_, fun k => ?_, fun k c => ?_⟩
  · rw [hflushed k, endBehind]
  · rw [hflushed k, endBehind, flushed_behind]
  · rw [hflushed k, endBehind, report_behind]

variable [Engine E] [Session S]

variable (E S) in
/-- The collector may be told at any time during a request: before each turn of each loop that reports, and
before each part of a request. -/
structure Flushes : Prop where
  configure : MayFlush fun k : Link E S => ((), k.configure)
  wrapAll (purpose : Purpose) (input : Bytes) (b : Scratch) :
    MayFlush fun k : Link E S => k.wrapAll purpose input b
  runTasks (runner : Runner) : MayFlush fun k : Link E S => k.runTasks runner
  shake (pool : Pool) (runner : Runner) (total : Nat) (demand : Demand) (input : Bytes) :
    MayFlush fun k : Link E S => k.shake pool runner total demand input
  unwrapAll (pool : Pool) (input : Bytes) (b : Scratch) (delivered : Nat) :
    MayFlush fun k : Link E S => k.unwrapAll pool input b delivered
  answerClose (pool : Pool) (demand : Demand) : MayFlush fun k : Link E S => k.answerClose pool demand
  start (pool : Pool) (runner : Runner) : MayFlush fun k : Link E S => k.start pool runner
  read (pool : Pool) (runner : Runner) (input : Bytes) : MayFlush fun k : Link E S => k.read pool runner input
  write (pool : Pool) (message : Bytes) : MayFlush fun k : Link E S => k.write pool message

theorem flushes : Flushes E S where
  configure := .of_behind fun earlier k => congrArg (Prod.mk ()) (configure_behind earlier k)
  wrapAll purpose input b := .of_behind fun earlier k => wrapAll_behind earlier k purpose input b
  runTasks runner := .of_behind fun earlier k => runTasks_behind earlier k runner
  shake pool runner total demand input :=
    .of_behind fun earlier k => shake_behind earlier k pool runner total demand input
  unwrapAll pool input b delivered :=
    .of_behind fun earlier k => unwrapAll_behind earlier k pool input b delivered
  answerClose pool demand := .of_behind fun earlier k => answerClose_behind earlier k pool demand
  start pool runner := .of_behind fun earlier k => start_behind earlier k pool runner
  read pool runner input := .of_behind fun earlier k => read_behind earlier k pool runner input
  write pool message := .of_behind fun earlier k => write_behind earlier k pool message

end Link

/-! ### Channels -/

/-- The events of a turn. -/
def Turn.events {E S α : Type} (turn : Turn E S α) : List Event := turn.notices.toList.map Notice.event

theorem Turn.isSome_diagnostic?_of_mem_events {E S α : Type} {turn : Turn E S α} {e : Event}
    (h : e ∈ turn.events) : e.diagnostic?.isSome := by
  obtain ⟨n, -, rfl⟩ := List.mem_map.1 h
  exact n.isSome_diagnostic?

namespace Channel

variable (E S : Type)

inductive Op where
  /-- A request, with the factory of its time. -/
  | ask (make : EngineMaker E) (request : Request)
  /-- The session is changed from outside, for example by taking what it has queued. -/
  | change (outside : S → S)

inductive Answer where
  | served (result : Except ChannelError Response) (calls : Array Call)
  | changed

def reporter [Engine E] [Session S] : Reporter (Channel E × S) (Op E S) Answer where
  act state
    | .ask make request =>
      let turn := state.1.handle make state.2 request
      (.served turn.result turn.calls, (turn.channel, turn.session), turn.events)
    | .change outside => (.changed, (state.1, outside state.2), [])

theorem hasTopics_reporter [Engine E] [Session S] : (reporter E S).HasTopics := by
  intro state op e he
  cases op with
  | ask make request => exact Turn.isSome_diagnostic?_of_mem_events he
  | change outside => exact absurd he List.not_mem_nil

end Channel

/-! ### Two ends -/

namespace Endpoint

/-- Two ends of a connection in memory. -/
structure Pair where
  client : Endpoint
  server : Endpoint

inductive Pair.Op where
  | handshake
  | ask (isClient : Bool) (request : Request)
  /-- An end takes all that the other one has queued, cut in some way. -/
  | bring (isClient : Bool) (cut : Bytes → List Bytes)

inductive Pair.Answer where
  | met (result : Except ChannelError Unit)
  | served (results : List (Except ChannelError Response × Array Call))

namespace Pair

/-- An end serves requests. -/
def serve (p : Pair) (isClient : Bool) (requests : List Request) : Answer × Pair × List Event :=
  let (turns, after) := (if isClient then p.client else p.server).handleAll requests
  (.served (turns.map fun turn => (turn.result, turn.calls)),
    if isClient then { p with client := after } else { p with server := after }, turns.flatMap Turn.events)

/-- The other end hands over what it has queued. -/
def takeQueued (p : Pair) (isClient : Bool) : Bytes × Pair :=
  if isClient then
    let (bytes, server) := p.server.takeQueued
    (bytes, { p with server })
  else
    let (bytes, client) := p.client.takeQueued
    (bytes, { p with client })

def reporter : Reporter Pair Op Answer where
  act p
    | .handshake =>
      let meeting := Endpoint.handshake p.client p.server
      (.met meeting.result, ⟨meeting.client, meeting.server⟩, meeting.notices.toList.map Notice.event)
    | .ask isClient request => p.serve isClient [request]
    | .bring isClient cut =>
      let (bytes, p) := p.takeQueued isClient
      p.serve isClient ((cut bytes).map .receive)

theorem isSome_diagnostic?_of_mem_serve {p : Pair} {isClient : Bool} {requests : List Request} {e : Event}
    (h : e ∈ (p.serve isClient requests).2.2) : e.diagnostic?.isSome := by
  obtain ⟨turn, -, hturn⟩ := List.mem_flatMap.1 h
  exact Turn.isSome_diagnostic?_of_mem_events hturn

theorem hasTopics_reporter : reporter.HasTopics := by
  intro p op e he
  cases op with
  | handshake =>
    obtain ⟨n, -, rfl⟩ := List.mem_map.1 he
    exact n.isSome_diagnostic?
  | ask isClient request => exact isSome_diagnostic?_of_mem_serve he
  | bring isClient cut => exact isSome_diagnostic?_of_mem_serve he

end Pair

end Endpoint

/-- Diagnostics never interfere: whatever the verbosity of the thread, and whatever has been captured before, all
results and states are the same, and of the events that the highest verbosity captures those are captured, in
order, that the verbosity of the thread covers. -/
theorem diagnostics_never_interfere :
    HeaderReader.reporter.IsDiscreet ∧ Framer.reporter.IsDiscreet ∧
      (∀ (E S : Type) [Engine E] [Session S], (Channel.reporter E S).IsDiscreet ∧ Link.Flushes E S) ∧
      Endpoint.Pair.reporter.IsDiscreet :=
  ⟨HeaderReader.hasTopics_reporter.isDiscreet, Framer.hasTopics_reporter.isDiscreet,
    fun E S _ _ => ⟨(Channel.hasTopics_reporter E S).isDiscreet, Link.flushes⟩,
    Endpoint.Pair.hasTopics_reporter.isDiscreet⟩

/-- A header is fed in two parts and taken.  A thread that wants to hear of frames in every detail hears of it once,
behind what it has heard before, one that wants to hear of everything but that hears nothing, and so does one that
wants to hear nothing at all.  What is fed and taken is the same each time. -/
theorem diagnostics_never_interfere_header :
    let header : Header := ⟨5, 1, 4, 3, by decide, by decide⟩
    let ops : List HeaderReader.Op := [.feed [0, 0, 5, 1, 4, 0], .feed [0, 0, 3], .take]
    let before : Diagnostic := ⟨.engine, 1, "engine created"⟩
    let heard : Diagnostic := ⟨.codec, 3, "frame header decoded length=5 frame_type=1 flags=4 stream_id=3"⟩
    let run (levels : Levels) := HeaderReader.reporter.program.run .start ⟨⟨levels⟩, #[before]⟩ ops
    (run .silent).1.map Prod.fst = [.fed false [], .fed true [], .taken (some header)] ∧
      (∀ levels, (run levels).1 = (run .silent).1) ∧
      (run ⟨3, 0, 0, 0, 0⟩).2.kept = #[before, heard] ∧
      (run ⟨2, 3, 3, 3, 3⟩).2.kept = #[before] ∧
      (run .silent).2.kept = #[before] := by
  intro header ops before heard run
  obtain ⟨hheader, -⟩ := diagnostics_never_interfere
  have hheard : HeaderReader.reporter.program.heard .start ops = [heard] := by decide +kernel
  have hkept (levels : Levels) :
      (run levels).2.kept = #[before] ++ [heard].filter (Verbosity.covers ⟨levels⟩) := by
    rw [hheader.undisturbed.kept_eq .start ops ⟨⟨levels⟩, #[before]⟩, hheard]
  refine ⟨by rfl, fun levels => hheader.undisturbed.run_eq .start ops _ _, ?_, ?_, ?_⟩
  · rw [hkept]
    rfl
  · rw [hkept]
    rfl
  · rw [hkept]
    rfl

end SecureStream
