import SecureStream.Proofs.Channel.Outcomes
import SecureStream.Proofs.Channel.Sending
import SecureStream.Proofs.Channel.Shaking

/-!
# Answering the end

When the other side closes an open channel and the engine asks for output, the session is moved back to its
first state and the engine is asked for output until it says that there is no more.

* (a) An answer consists of attempts, each of them a wrapping that is done together with the calls that asked
  for a larger buffer for it (`Closing.Attempt`).  An attempt with output is sent in one piece, and one without
  is the last (`Closing.Sends`).
* (b) So the pieces that are sent are the outputs of the attempts (`Closing.Sends.enqueued_eq`), and nothing is
  done behind an attempt without output (`Closing.Sends.last_of_silent`).
* (c) A read of an open channel consists of calls that unwrap and hand over, up to the one with which the engine
  says that the channel is closed, and of the answer to it (`Closing.Reads`, `Channel.close_answered`).
-/

namespace SecureStream

namespace Call

/-- The engine says that the other side has closed the channel. -/
def isClosing : Call → Bool
  | unwrap _ _ (.ok r) => decide (r.verdict = .closed)
  | _ => false

theorem exists_of_isClosing {call : Call} (h : call.isClosing = true) :
    ∃ offered room r, call = .unwrap offered room (.ok r) ∧ r.verdict = .closed := by
  cases call with
  | unwrap offered room answer =>
    cases answer with
    | error => cases h
    | ok r => exact ⟨offered, room, r, rfl, of_decide_eq_true h⟩
  | _ => cases h

/-- What has been written by each wrapping that is done, together with the calls that asked for a larger buffer
for it.  Such calls have written the bytes `begun` already. -/
def pieces (begun : Bytes) : List Call → List Bytes
  | [] => []
  | call :: calls =>
    let written := begun ++ writtenBy [call]
    if call.isDone then written :: pieces [] calls else pieces written calls

variable {calls rest : List Call} {last : Call}

theorem writtenBy_cons (call : Call) (calls : List Call) :
    writtenBy (call :: calls) = writtenBy [call] ++ writtenBy calls := writtenBy_append [call] calls

theorem pieces_of_not_isDone (begun : Bytes) (h : ∀ call ∈ calls, call.isDone = false) (rest : List Call) :
    pieces begun (calls ++ rest) = pieces (begun ++ writtenBy calls) rest := by
  induction calls generalizing begun with
  | nil => rw [writtenBy, List.filterMap_nil, List.flatMap_nil, List.append_nil, List.nil_append]
  | cons call calls ih =>
    obtain ⟨hcall, hcalls⟩ := List.forall_mem_cons.1 h
    rw [List.cons_append, pieces, if_neg (Bool.eq_false_iff.1 hcall), ih _ hcalls, List.append_assoc,
      ← writtenBy_cons call calls]

/-- The first wrapping that is done gives the first piece. -/
theorem pieces_of_isDone (h : ∀ call ∈ calls, call.isDone = false) (hlast : last.isDone = true)
    (rest : List Call) : pieces [] (calls ++ last :: rest) = writtenBy (calls ++ [last]) :: pieces [] rest := by
  rw [pieces_of_not_isDone [] h, List.nil_append, pieces, hlast, if_pos rfl, writtenBy_append]

theorem pieces_ne_nil (begun : Bytes) (h : last.isDone = true) : pieces begun (calls ++ last :: rest) ≠ [] := by
  induction calls generalizing begun with
  | nil =>
    rw [List.nil_append, pieces, h]
    exact List.cons_ne_nil _ _
  | cons call calls ih =>
    rw [List.cons_append, pieces]
    split
    · exact List.cons_ne_nil _ _
    · exact ih _

theorem isClosing_of_kind {call : Call} (h : call.kind ≠ .unwrap) : call.isClosing = false := by
  cases call with
  | unwrap => exact absurd rfl h
  | _ => rfl

theorem not_isClosing_of_kinds {kinds : List CallKind} (h : ∀ call ∈ calls, call.kind ∈ kinds)
    (hkinds : .unwrap ∉ kinds) : ∀ call ∈ calls, call.isClosing = false :=
  fun call hmem => isClosing_of_kind fun heq => hkinds (heq ▸ h call hmem)

end Call

/-- The engine has nothing more to send after the end, when these calls have been made. -/
def Scene.isOver {E S : Type} [Engine E] [Session S] (make : EngineMaker E) (runner : Runner) (x : Scene E S)
    (calls : List Call) : Bool := (x.replay make runner calls).engine.any Engine.isOutputOver

namespace Closing

open Call

/-- The calls of one wrapping of nothing that is done: the last one, and in front of it those that asked for a
larger buffer. -/
structure Attempt (calls : List Call) (output : Bytes) : Prop where
  exists_last : ∃ retries last, calls = retries ++ [last] ∧ (∀ call ∈ retries, call.IsRetry .wrap) ∧
    last.isDone = true
  kinds : ∀ call ∈ calls, call.kind = .wrap
  output_eq : (∀ call ∈ calls, call.IsCounted) → output = writtenBy calls

/-- The calls by which an engine is asked for output until there is no more, and what comes of them. -/
inductive Sends (isOver : List Call → Bool) : List Call → List Call → Except ChannelError Unit → Prop where
  | finished {before : List Call} (hover : isOver before = true) : Sends isOver before [] (.ok ())
  /-- The wrapping fails before it is done. -/
  | failed {before calls : List Call} {e : ChannelError} (hopen : isOver before = false)
    (hcalls : ∀ call ∈ calls, call.kind = .wrap ∧ call.isDone = false) : Sends isOver before calls (.error e)
  /-- There is no output, and there will be none. -/
  | silent {before calls : List Call} (hopen : isOver before = false) (hcalls : Attempt calls [])
    (hover : isOver (before ++ calls) = true) : Sends isOver before calls (.ok ())
  /-- There is no output, although there should be. -/
  | stuck {before calls : List Call} (hopen : isOver before = false) (hcalls : Attempt calls [])
    (hstill : isOver (before ++ calls) = false) : Sends isOver before calls (.error (.noProgress .wrap))
  | sent {before calls rest : List Call} {piece : Bytes} {result : Except ChannelError Unit}
    (hopen : isOver before = false) (hcalls : Attempt calls piece) (hpiece : piece ≠ [])
    (hrest : Sends isOver (before ++ (calls ++ [.enqueue piece])) rest result) :
    Sends isOver before (calls ++ .enqueue piece :: rest) result

variable {isOver : List Call → Bool} {before calls first rest : List Call} {last : Call} {output : Bytes}
  {result : Except ChannelError Unit}

theorem Attempt.pieces_append (h : Attempt calls output) (hcounted : ∀ call ∈ calls, call.IsCounted)
    (rest : List Call) : pieces [] (calls ++ rest) = output :: pieces [] rest := by
  obtain ⟨retries, last, rfl, hretries, hlast⟩ := h.exists_last
  rw [h.output_eq hcounted, List.append_assoc]
  exact pieces_of_isDone (fun call hmem => (hretries call hmem).not_isDone) hlast rest

theorem Attempt.enqueued_eq (h : Attempt calls output) : calls.filterMap enqueued? = [] := by
  have hkinds : ∀ call ∈ calls, call.kind ∈ [CallKind.wrap] :=
    fun call hmem => List.mem_singleton.2 (h.kinds call hmem)
  exact filterMap_of_kinds enqueued?_of_kind hkinds (by decide)

/-- The only call of an attempt that is done is its last one. -/
theorem Attempt.split (h : Attempt calls output) (hsplit : calls = first ++ last :: rest)
    (hlast : last.isDone = true) : calls = first ++ [last] ∧ rest = [] := by
  obtain ⟨retries, final, rfl, hretries, -⟩ := h.exists_last
  rcases split_append hsplit with ⟨inner, rfl, -⟩ | ⟨inner, rfl, hinner⟩
  · have hnot := (hretries last (List.mem_append_right _ List.mem_cons_self)).not_isDone
    rw [hlast] at hnot
    cases hnot
  · obtain ⟨rfl, rfl⟩ := eq_of_split_singleton hinner
    exact ⟨hsplit, rfl⟩

theorem Sends.kinds (h : Sends isOver before calls result) :
    ∀ call ∈ calls, call.kind ∈ [CallKind.wrap, .enqueue] := by
  have hwrap {calls : List Call} (hcalls : ∀ call ∈ calls, call.kind = .wrap) :
      ∀ call ∈ calls, call.kind ∈ [CallKind.wrap, .enqueue] := fun call hmem => by
    rw [hcalls call hmem]
    decide
  induction h with
  | finished => nofun
  | failed hopen hcalls => exact hwrap fun call hmem => (hcalls call hmem).1
  | silent hopen hcalls | stuck hopen hcalls => exact hwrap hcalls.kinds
  | sent hopen hcalls hpiece hrest ih =>
    refine List.forall_mem_append.2 ⟨hwrap hcalls.kinds, List.forall_mem_cons.2 ⟨?_, ih⟩⟩
    exact List.mem_cons_of_mem _ List.mem_cons_self

theorem Sends.over_of_ok (h : Sends isOver before calls (.ok ())) : isOver (before ++ calls) = true := by
  generalize hresult : (.ok () : Except ChannelError Unit) = result at h
  induction h with
  | finished hover =>
    rw [List.append_nil]
    exact hover
  | silent hopen hcalls hover => exact hover
  | failed | stuck => cases hresult
  | sent hopen hcalls hpiece hrest ih =>
    have hover := ih hresult
    rwa [List.append_assoc, List.append_assoc] at hover

theorem Sends.of_over (h : Sends isOver before calls result) (hover : isOver before = true) :
    calls = [] ∧ result = .ok () := by
  cases h with
  | finished => exact ⟨rfl, rfl⟩
  | failed hopen | silent hopen | stuck hopen | sent hopen =>
    rw [hopen] at hover
    cases hover

/-- What is sent are the outputs of the attempts, but for an empty one. -/
theorem Sends.enqueued_eq (h : Sends isOver before calls result) (hcounted : ∀ call ∈ calls, call.IsCounted) :
    calls.filterMap enqueued? = (pieces [] calls).filter (· ≠ []) := by
  induction h with
  | finished => rfl
  | @failed before calls e hopen hcalls =>
    have hkinds : ∀ call ∈ calls, call.kind ∈ [CallKind.wrap] :=
      fun call hmem => List.mem_singleton.2 (hcalls call hmem).1
    have hpieces := pieces_of_not_isDone [] (fun call hmem => (hcalls call hmem).2) []
    rw [List.append_nil] at hpieces
    rw [filterMap_of_kinds enqueued?_of_kind hkinds (by decide), hpieces]
    rfl
  | silent hopen hcalls | stuck hopen hcalls =>
    have hpieces := hcalls.pieces_append hcounted []
    rw [List.append_nil] at hpieces
    rw [hcalls.enqueued_eq, hpieces]
    rfl
  | @sent before calls rest piece result hopen hcalls hpiece hrest ih =>
    obtain ⟨hattempt, htail⟩ := List.forall_mem_append.1 hcounted
    rw [List.filterMap_append, hcalls.enqueued_eq, hcalls.pieces_append hattempt]
    show piece :: rest.filterMap enqueued? = (piece :: pieces [] rest).filter (· ≠ [])
    rw [List.filter_cons, if_pos (decide_eq_true hpiece), ih (List.forall_mem_cons.1 htail).2]

/-- Nothing is done behind an attempt without output.  If the engine has more to send, the answer fails. -/
theorem Sends.last_of_silent (h : Sends isOver before calls result) (hcounted : ∀ call ∈ calls, call.IsCounted)
    (hsplit : calls = first ++ last :: rest) (hlast : last.isDone = true)
    (hsilent : (pieces [] (first ++ [last])).getLast? = some [])
    (hstill : isOver (before ++ (first ++ [last])) = false) : rest = [] ∧ result = .error (.noProgress .wrap) := by
  induction h generalizing first with
  | finished =>
    have hlength := congrArg List.length hsplit
    simp at hlength
  | failed hopen hcalls =>
    have hnot := (hcalls last (hsplit ▸ List.mem_append_right _ List.mem_cons_self)).2
    rw [hlast] at hnot
    cases hnot
  | silent hopen hcalls hover =>
    obtain ⟨hfirst, -⟩ := hcalls.split hsplit hlast
    rw [← hfirst, hover] at hstill
    cases hstill
  | stuck hopen hcalls => exact ⟨(hcalls.split hsplit hlast).2, rfl⟩
  | @sent before calls more piece result hopen hcalls hpiece hrest ih =>
    obtain ⟨hattempt, htail⟩ := List.forall_mem_append.1 hcounted
    rcases split_append hsplit with ⟨inner, hinner, -⟩ | ⟨inner, rfl, hinner⟩
    · -- the last call of the attempt, which has given the piece
      obtain ⟨hfirst, -⟩ := hcalls.split hinner hlast
      have hpieces := hcalls.pieces_append hattempt []
      rw [List.append_nil, hfirst] at hpieces
      rw [hpieces] at hsilent
      exact absurd (Option.some.inj hsilent) hpiece
    · rcases inner with _ | ⟨next, inner⟩
      · obtain ⟨rfl, -⟩ := List.cons.inj hinner
        cases hlast
      · obtain ⟨rfl, hmore⟩ := List.cons.inj hinner
        refine ih (List.forall_mem_cons.1 htail).2 hmore ?_ ?_
        · have hne : pieces [] (inner ++ [last]) ≠ [] := pieces_ne_nil [] hlast
          rw [List.append_assoc, hcalls.pieces_append hattempt] at hsilent
          exact (List.getLast?_cons_of_ne_nil hne).symm.trans hsilent
        · rw [← hstill]
          simp only [List.append_assoc, List.cons_append, List.nil_append]

/-- When the answer succeeds, all that has been written is sent. -/
theorem Sends.written_eq (h : Sends isOver before calls (.ok ())) (hcounted : ∀ call ∈ calls, call.IsCounted) :
    (calls.filterMap enqueued?).flatten = writtenBy calls := by
  generalize hresult : (.ok () : Except ChannelError Unit) = result at h
  induction h with
  | finished => rfl
  | silent hopen hcalls =>
    rw [hcalls.enqueued_eq, ← hcalls.output_eq hcounted]
    rfl
  | failed | stuck => cases hresult
  | @sent before calls rest piece result hopen hcalls hpiece hrest ih =>
    obtain ⟨hattempt, htail⟩ := List.forall_mem_append.1 hcounted
    rw [List.filterMap_append, hcalls.enqueued_eq, writtenBy_append, ← hcalls.output_eq hattempt]
    show piece ++ (rest.filterMap enqueued?).flatten = piece ++ writtenBy rest
    rw [ih (List.forall_mem_cons.1 htail).2 hresult]

/-- What is done about the end that an engine has announced, saying what it needs. -/
inductive Answers (isOver : List Call → Bool) (before : List Call) :
    Demand → List Call → Except ChannelError Unit → Prop where
  /-- No answer is asked for. -/
  | quiet {demand : Demand} (hdemand : demand ≠ .output) : Answers isOver before demand [] (.ok ())
  | sent {calls : List Call} {result : Except ChannelError Unit}
    (hsends : Sends isOver (before ++ [.moveTo .connected]) calls result) :
    Answers isOver before .output (.moveTo .connected :: calls) result

/-- The kinds of calls that are made before an end is announced. -/
def firstKinds : List CallKind := .unwrap :: .deliver :: Channel.prepareKinds

/-- The calls of a read of an open channel.  The engine says with none of them that the channel is closed, or it says
so with one, and what is done about that comes last. -/
inductive Reads (isOver : List Call → Bool) (before : List Call) : List Call → Except ChannelError Outcome → Prop where
  | unclosed {calls : List Call} {result : Except ChannelError Outcome}
    (hcalls : ∀ call ∈ calls, call.isClosing = false) : Reads isOver before calls result
  | closed {first rest : List Call} {offered : Bytes} {room : Nat} {r : Reply} {answer : Except ChannelError Unit}
    {result : Except ChannelError Outcome} (hkinds : ∀ call ∈ first, call.kind ∈ firstKinds)
    (hopen : ∀ call ∈ first, call.isClosing = false) (hclosed : r.verdict = .closed)
    (hrest : Answers isOver (before ++ (first ++ [.unwrap offered room (.ok r)])) r.demand rest answer)
    (hresult : result = answer.map fun _ => .closed) :
    Reads isOver before (first ++ .unwrap offered room (.ok r) :: rest) result

variable {opening : List Call} {demand : Demand} {outcome : Except ChannelError Outcome}

theorem Answers.kinds (h : Answers isOver before demand calls result) :
    ∀ call ∈ calls, call.kind ∈ [CallKind.moveTo .connected, .wrap, .enqueue] := by
  cases h with
  | quiet => nofun
  | sent hsends =>
    refine List.forall_mem_cons.2 ⟨List.mem_cons_self, fun call hmem => ?_⟩
    exact List.mem_cons_of_mem _ (hsends.kinds call hmem)

/-- Other calls may stand in front. -/
theorem Reads.prepend (hkinds : ∀ call ∈ opening, call.kind ∈ firstKinds)
    (hopen : ∀ call ∈ opening, call.isClosing = false) (h : Reads isOver (before ++ opening) calls outcome) :
    Reads isOver before (opening ++ calls) outcome := by
  cases h with
  | unclosed hcalls => exact .unclosed (List.forall_mem_append.2 ⟨hopen, hcalls⟩)
  | closed hfirst hnone hclosed hrest hresult =>
    rw [← List.append_assoc]
    refine .closed (List.forall_mem_append.2 ⟨hkinds, hfirst⟩) (List.forall_mem_append.2 ⟨hopen, hnone⟩) hclosed
      ?_ hresult
    rwa [List.append_assoc, ← List.append_assoc before]

/-- What is left of the input is nothing to it. -/
theorem Reads.withResult {read : Except ChannelError (Outcome × Bytes)}
    (h : Reads isOver before calls (read.map Prod.fst)) (herror : ∀ e, read = .error e → outcome = .error e)
    (hclosed : ∀ left, read = .ok (.closed, left) → outcome = .ok .closed) : Reads isOver before calls outcome := by
  generalize hread : read.map Prod.fst = told at h
  cases h with
  | unclosed hcalls => exact .unclosed hcalls
  | @closed first rest offered room r answer told hkinds hopen hverdict hrest hresult =>
    refine .closed hkinds hopen hverdict hrest ?_
    rw [hresult] at hread
    rcases read with e | ⟨o, left⟩
    · cases answer with
      | error e' =>
        cases hread
        exact herror e rfl
      | ok => cases hread
    · cases answer with
      | error => cases hread
      | ok =>
        cases hread
        exact hclosed left rfl

/-- There is one call at most with which the engine says that the channel is closed. -/
theorem Reads.split {first rest : List Call} {offered : Bytes} {room : Nat} {r : Reply}
    (h : Reads isOver before (first ++ .unwrap offered room (.ok r) :: rest) outcome) (hclosed : r.verdict = .closed) :
    ∃ answer, (∀ call ∈ first, call.kind ∈ firstKinds) ∧
      Answers isOver (before ++ (first ++ [.unwrap offered room (.ok r)])) r.demand rest answer ∧
      outcome = answer.map fun _ => .closed := by
  have hcloses : (Call.unwrap offered room (.ok r)).isClosing = true := decide_eq_true hclosed
  generalize hsplit : first ++ .unwrap offered room (.ok r) :: rest = calls at h
  cases h with
  | unclosed hcalls =>
    have hnot := hcalls _ (hsplit ▸ List.mem_append_right _ List.mem_cons_self)
    rw [hcloses] at hnot
    cases hnot
  | closed hkinds hopen _ hrest hresult =>
    rcases split_append hsplit.symm with ⟨inner, rfl, -⟩ | ⟨inner, rfl, htail⟩
    · have hnot := hopen _ (List.mem_append_right _ List.mem_cons_self)
      rw [hcloses] at hnot
      cases hnot
    · rcases inner with _ | ⟨call, inner⟩
      · obtain ⟨hcall, rfl⟩ := List.cons.inj htail
        cases hcall
        rw [List.append_nil]
        exact ⟨_, hkinds, hrest, hresult⟩
      -- the answer unwraps nothing
      · obtain ⟨-, rfl⟩ := List.cons.inj htail
        have hnot := not_isClosing_of_kinds hrest.kinds (by decide) _
          (List.mem_append_right _ List.mem_cons_self)
        rw [hcloses] at hnot
        cases hnot

end Closing

namespace Link

open Closing Moment

variable {E S : Type} [Engine E] [Session S] {k k' : Link E S} {calls other : List Call}

omit [Engine E] in
theorem Made.eq_of (h : Made calls k k') (h' : Made other k k') : calls = other :=
  List.append_cancel_left (h.calls_eq.symm.trans h'.calls_eq)

/-- Wrapping nothing into a new buffer: an attempt, or calls none of which is done. -/
theorem attempt_wrapNew (pool : Pool) (k : Link E S) (capacity : Nat) :
    (∃ calls e, Made calls k (k.wrapNew pool .close capacity []).2 ∧
        (k.wrapNew pool .close capacity []).1 = .error e ∧
        ∀ call ∈ calls, call.kind = .wrap ∧ call.isDone = false) ∨
      ∃ calls output demand, Made calls k (k.wrapNew pool .close capacity []).2 ∧
        (k.wrapNew pool .close capacity []).1 = .ok (output, demand) ∧ Attempt calls output := by
  rw [wrapNew_eq_bytes]
  rcases hnew : Scratch.ofCapacity? capacity pool with e | b
  · exact .inl ⟨[], _, .refl k, rfl, nofun⟩
  · obtain ⟨calls, hwraps⟩ := k.wraps_wrapAll .close [] b
    have hkinds : ∀ call ∈ calls, call.kind = .wrap := fun call hmem => List.mem_singleton.1 (hwraps.kinds call hmem)
    obtain ⟨retries, room, answer, hmade, hretries, hlast⟩ := made_wrapAll_nil .close (by decide) k [] b rfl
    have hcalls : calls = retries ++ [.wrap [] room answer] := hwraps.made.eq_of hmade
    dsimp only
    rcases hwrap : k.wrapAll .close [] b with ⟨e | ⟨filled, demand⟩, after⟩
    · rw [hwrap] at hwraps hlast
      refine .inl ⟨calls, e, hwraps.made, rfl, fun call hmem => ⟨hkinds call hmem, ?_⟩⟩
      rcases hlast with ⟨r, b', -, -, ⟨⟩, -⟩ | ⟨-, hundone⟩
      rw [hcalls] at hmem
      rcases List.mem_append.1 hmem with hretry | hlast
      · exact (hretries call hretry).not_isDone
      · rw [List.mem_singleton.1 hlast]
        exact hundone
    · rw [hwrap] at hwraps hlast
      refine .inr ⟨calls, filled.bytes, demand, hwraps.made, rfl, ?_, hkinds, fun hcounted => ?_⟩
      · rcases hlast with ⟨r, b', rfl, hverdict, -⟩ | ⟨⟨e, ⟨⟩⟩, -⟩
        exact ⟨retries, _, hcalls, hretries, decide_eq_true hverdict⟩
      · rw [hwraps.bytes_eq filled demand rfl hcounted, Scratch.bytes_of_ofCapacity? hnew, List.nil_append]

variable {make : EngineMaker E} {runner : Runner} {x : Scene E S} {said : Demand} {input left : Bytes}

/-- What the engine of a link says is what its log tells. -/
theorem isOver_of_told (htold : Told make runner x input ⟨k, said, left⟩) :
    x.isOver make runner k.calls.toList = Engine.isOutputOver k.engine := by
  rw [Scene.isOver, htold.replay_eq]
  rfl

/-- An attempt that succeeds, and what is known behind it. -/
private theorem attempt_of_wrapNew {pool : Pool} {k after : Link E S} {output : Bytes} {demand : Demand}
    (htold : Told make runner x input ⟨k, said, left⟩)
    (hwrap : k.wrapNew pool .close (pool.cap (Engine.largestRecord k.engine)) [] = (.ok (output, demand), after)) :
    ∃ calls, Made calls k after ∧ Attempt calls output ∧ Told make runner x input ⟨after, demand, left⟩ := by
  obtain ⟨said', hacts, hsaid⟩ :=
    k.acts_wrapNew runner pool said left .close (pool.cap (Engine.largestRecord k.engine)) []
  rw [hwrap] at hacts hsaid
  obtain rfl := hsaid output demand rfl
  rcases k.attempt_wrapNew pool (pool.cap (Engine.largestRecord k.engine)) with
    ⟨calls, e, -, hresult, -⟩ | ⟨calls, output', demand', hmade, hresult, hattempt⟩
  · rw [hwrap] at hresult
    cases hresult
  · rw [hwrap] at hmade hresult
    obtain ⟨rfl, -⟩ := Prod.mk.inj (Except.ok.inj hresult)
    exact ⟨calls, hmade, hattempt, htold.course hacts.course⟩

theorem sends_sendClosing (pool : Pool) (k : Link E S) (count : Nat) (said : Demand)
    (htold : Told make runner x input ⟨k, said, left⟩) :
    ∃ calls, Made calls k (k.sendClosing pool count).2 ∧
      Sends (x.isOver make runner) k.calls.toList calls ((k.sendClosing pool count).1.map fun _ => ()) := by
  have hbefore := isOver_of_told htold
  fun_induction sendClosing pool k count generalizing said with
  | case1 k count hover => exact ⟨[], .refl k, .finished (hbefore.trans hover)⟩
  | case2 k count hopen e after hwrap =>
    rw [Bool.not_eq_true] at hopen
    rcases k.attempt_wrapNew pool (pool.cap (Engine.largestRecord k.engine)) with
      ⟨calls, e', hmade, -, hcalls⟩ | ⟨calls, output, demand, -, hresult, -⟩
    · rw [hwrap] at hmade
      exact ⟨calls, hmade, .failed (hbefore.trans hopen) hcalls⟩
    · rw [hwrap] at hresult
      cases hresult
  | case3 k count hopen output demand after hwrap hempty hover =>
    rw [Bool.not_eq_true] at hopen
    obtain ⟨calls, hmade, hattempt, hafter⟩ := attempt_of_wrapNew htold hwrap
    have hbehind := isOver_of_told hafter
    rw [List.isEmpty_iff.1 hempty] at hattempt
    rw [hmade.calls_eq, hover] at hbehind
    exact ⟨calls, hmade, .silent (hbefore.trans hopen) hattempt hbehind⟩
  | case4 k count hopen output demand after hwrap hempty hstill =>
    rw [Bool.not_eq_true] at hopen hstill
    obtain ⟨calls, hmade, hattempt, hafter⟩ := attempt_of_wrapNew htold hwrap
    have hbehind := isOver_of_told hafter
    rw [List.isEmpty_iff.1 hempty] at hattempt
    rw [hmade.calls_eq, hstill] at hbehind
    exact ⟨calls, hmade, .stuck (hbefore.trans hopen) hattempt hbehind⟩
  | case5 k count hopen output demand after hwrap hempty ih =>
    rw [Bool.not_eq_true] at hopen
    obtain ⟨calls, hmade, hattempt, hafter⟩ := attempt_of_wrapNew htold hwrap
    have hsent := hafter.course (Act.enqueue _ output).acts.course
    have hlast : Made [.enqueue output] after (after.enqueue output) := made_of_push rfl rfl
    have hfirst := hmade.trans hlast
    obtain ⟨rest, hmade', hsends⟩ := ih demand hsent (isOver_of_told hsent)
    rw [hfirst.calls_eq] at hsends
    have hpiece : output ≠ [] := fun h => hempty (List.isEmpty_iff.2 h)
    refine ⟨calls ++ .enqueue output :: rest, ?_, .sent (hbefore.trans hopen) hattempt hpiece hsends⟩
    have hall := hfirst.trans hmade'
    rwa [List.append_assoc] at hall

theorem answers_answerClose (pool : Pool) (k : Link E S) (demand said : Demand) (hstate : k.state = .secured)
    (htold : Told make runner x input ⟨k, said, left⟩) :
    ∃ calls, Made calls k (k.answerClose pool demand).2 ∧
      Answers (x.isOver make runner) k.calls.toList demand calls (k.answerClose pool demand).1 := by
  unfold answerClose
  dsimp only
  split
  · next hdemand =>
    subst hdemand
    have hleave : Course runner ⟨k, said, left⟩ ⟨(k.note (.closeReceived .output)).moveTo .connected, said, left⟩ :=
      (Act.note _ _).acts.course.trans (Step.leave hstate).course
    have hmove : Made [.moveTo .connected] k ((k.note (.closeReceived .output)).moveTo .connected) :=
      (made_of_push rfl rfl : Made _ (k.note (.closeReceived .output)) _).of_note
    obtain ⟨calls, hmade, hsends⟩ := sends_sendClosing pool _ 0 said (htold.course hleave)
    rw [hmove.calls_eq] at hsends
    rcases hsent : ((k.note (.closeReceived .output)).moveTo .connected).sendClosing pool 0 with ⟨e | count, after⟩
    · rw [hsent] at hmade hsends
      exact ⟨_, hmove.trans hmade, .sent hsends⟩
    · rw [hsent] at hmade hsends
      have hnoted := (hmove.trans hmade).trans (made_note after (.closeQueued count))
      rw [List.append_nil] at hnoted
      exact ⟨_, hnoted, .sent hsends⟩
  · next hdemand => exact ⟨[], made_note .., .quiet hdemand⟩

/-! ### Reads -/

/-- The link has become another by reading records. -/
def ReadsRecords (isOver : List Call → Bool) (k k' : Link E S) (result : Except ChannelError (Outcome × Bytes)) :
    Prop :=
  ∃ calls, Made calls k k' ∧ Reads isOver k.calls.toList calls (result.map Prod.fst)

section

variable {isOver : List Call → Bool} {after : Link E S} {result : Except ChannelError (Outcome × Bytes)}

omit [Engine E] in
theorem ReadsRecords.of_unclosed (hmade : Made calls k k') (hcalls : ∀ call ∈ calls, call.isClosing = false) :
    ReadsRecords isOver k k' result := ⟨calls, hmade, .unclosed hcalls⟩

omit [Engine E] in
theorem ReadsRecords.prepend (hmade : Made calls k after) (hkinds : ∀ call ∈ calls, call.kind ∈ firstKinds)
    (hcalls : ∀ call ∈ calls, call.isClosing = false) (h : ReadsRecords isOver after k' result) :
    ReadsRecords isOver k k' result := by
  obtain ⟨rest, hrest, hreads⟩ := h
  rw [hmade.calls_eq] at hreads
  exact ⟨calls ++ rest, hmade.trans hrest, hreads.prepend hkinds hcalls⟩

end

end Link

namespace Link

open Closing Moment

variable {E : Type} [Engine E] {make : EngineMaker E} {runner : Runner} {x : Scene E Journal} {said : Demand}
  {all : Bytes}

theorem readsRecords_unwrapAll (pool : Pool) (k : Link E Journal) (input : Bytes) (b : Scratch) (n : Nat)
    (said : Demand) (hstate : k.session.state = .secured) (htold : Told make runner x all ⟨k, said, input⟩) :
    ReadsRecords (x.isOver make runner) k (k.unwrapAll pool input b n).2 (k.unwrapAll pool input b n).1 := by
  -- the engine is called without the session
  have hsame {k after : Link E Journal} {input : Bytes} {room : Nat} {answer : Except EngineError Reply}
      (hunwrap : k.unwrap input room = (answer, after)) : after.session = k.session := by
    cases hunwrap
    rfl
  have hopen {input : Bytes} {room : Nat} {r : Reply} (hverdict : r.verdict ≠ .closed) :
      ∀ call ∈ [Call.unwrap input room (.ok r)], call.isClosing = false :=
    List.forall_mem_singleton.2 (decide_eq_false hverdict)
  have hkinds {input : Bytes} {room : Nat} {answer : Except EngineError Reply} :
      ∀ call ∈ [Call.unwrap input room answer], call.kind ∈ firstKinds :=
    List.forall_mem_singleton.2 List.mem_cons_self
  have hhanded {message : Bytes} :
      ∀ call ∈ if message = [] then [] else [Call.deliver message], call.isClosing = false :=
    Call.not_isClosing_of_kinds kind_of_handed (by decide)
  fun_induction unwrapAll pool k input b n generalizing said with
  | case1 k input b n e after hunwrap =>
    exact .of_unclosed (made_unwrap hunwrap) (List.forall_mem_singleton.2 rfl)
  | case2 k input b n r after hunwrap filled hverdict hstuck =>
    exact .of_unclosed (made_unwrap hunwrap) (hopen (by rw [hverdict]; decide))
  | case3 k input b n r after hunwrap rest filled hverdict hprogress served hrest =>
    have hmade := (made_unwrap hunwrap).trans (after.made_handOver r.consumed filled)
    exact .of_unclosed hmade (List.forall_mem_append.2 ⟨hopen (by rw [hverdict]; decide), hhanded⟩)
  | case4 k input b n r after hunwrap rest filled hverdict hprogress served hrest ih =>
    have hmade := (made_unwrap hunwrap).trans (after.made_handOver r.consumed filled)
    have hserved : served.session.state = .secured := by rw [after.state_handOver, hsame hunwrap, hstate]
    have hafter := (htold.course (k.acts_of_unwrap_ok runner said hunwrap).course).course
      (after.acts_handOver runner r.demand rest r.consumed filled).course
    refine .prepend hmade (List.forall_mem_append.2 ⟨hkinds, fun call hmem => ?_⟩)
      (List.forall_mem_append.2 ⟨hopen (by rw [hverdict]; decide), hhanded⟩) (ih r.demand hserved hafter)
    rw [List.mem_singleton.1 (kind_of_handed call hmem)]
    decide
  | case5 k input b n r after hunwrap rest hverdict =>
    have hmade := (made_unwrap hunwrap).trans (made_note after (.recordRetained rest.length))
    exact .of_unclosed hmade (hopen (by rw [hverdict]; decide))
  | case6 k input b n r after hunwrap filled hverdict e hgrow =>
    exact .of_unclosed (made_unwrap hunwrap) (hopen (by rw [hverdict]; decide))
  | case7 k input b n r after hunwrap rest filled hverdict grown hgrow ih =>
    have hafter := htold.course (k.acts_of_unwrap_ok runner said hunwrap).course
    have hsecured : after.session.state = .secured := by rw [hsame hunwrap, hstate]
    exact .prepend (made_unwrap hunwrap) hkinds (hopen (by rw [hverdict]; decide)) (ih r.demand hsecured hafter)
  | case8 k input b n r after hunwrap hverdict hsecured e last hanswer
  | case9 k input b n r after hunwrap rest hverdict hsecured last hanswer =>
    have hafter := htold.course (k.acts_of_unwrap_ok runner said hunwrap).course
    obtain ⟨calls, hmade, hanswers⟩ := answers_answerClose pool after r.demand r.demand hsecured hafter
    have hfirst := made_unwrap hunwrap
    rw [hanswer] at hmade hanswers
    rw [hfirst.calls_eq] at hanswers
    have hreads : Reads (x.isOver make runner) k.calls.toList ([] ++ .unwrap input b.room (.ok r) :: calls) _ :=
      .closed (List.forall_mem_nil _) (List.forall_mem_nil _) hverdict hanswers rfl
    exact ⟨_, hfirst.trans hmade, hreads⟩
  | case10 k input b n r after hunwrap hverdict hnot =>
    have hsecured : after.session.state = .secured := by rw [hsame hunwrap, hstate]
    exact absurd hsecured hnot

theorem readsRecords_unwrapRecords (pool : Pool) (k : Link E Journal) (input : Bytes)
    (hstate : k.session.state = .secured) (htold : Told make runner x all ⟨k, said, input⟩) :
    ReadsRecords (x.isOver make runner) k (k.unwrapRecords pool input).2 (k.unwrapRecords pool input).1 := by
  unfold unwrapRecords
  split
  · exact .of_unclosed (.refl k) nofun
  · split
    · exact .of_unclosed (.refl k) nofun
    · exact readsRecords_unwrapAll pool k input _ 0 said hstate htold

end Link

namespace Channel

open Closing

variable {E : Type} [Engine E] (c : Channel E) (make : EngineMaker E) (s : Journal) (input : Bytes)

/-- The calls of a read of an open channel. -/
theorem closing_receive (hstate : s.state = .secured) :
    Reads ((c.scene s).isOver make c.runner) [] (c.receive make s input).calls.toList
      (c.receive make s input).result := by
  obtain ⟨request, hreceive, hrequest⟩ := c.receive_reads make s input
  rw [hreceive]
  rcases c.serve_told make s with ⟨e, hfails⟩ | ⟨k, ⟨made, hmade, hmakes⟩, -, htold, hserve⟩
  · rw [hfails]
    exact .unclosed (List.forall_mem_singleton.2 rfl)
  · have hopen := Call.not_isClosing_of_kinds hmakes (by decide)
    have hcalls : k.calls.toList = made := hmade.calls_eq
    rw [hserve]
    rcases hrequest k with ⟨e, hturn⟩ | ⟨pending, backlog, result, hturn, rfl, herror, hclosed, -⟩
    · rw [hturn]
      exact .unclosed (hcalls ▸ hopen)
    · have hsecured : k.session.state = .secured := by
        rw [hmade.session_eq, Call.onAll_of_kinds s hmakes (by decide), hstate]
      have hread : k.read c.pool c.runner (c.pending ++ input) = k.unwrapRecords c.pool (c.pending ++ input) :=
        if_pos hsecured
      obtain ⟨calls, hrecords, hreads⟩ :=
        k.readsRecords_unwrapRecords c.pool (c.pending ++ input) hsecured (htold (c.pending ++ input))
      rw [← hread] at hrecords hreads
      rw [hcalls] at hreads
      have hall : (k.read c.pool c.runner (c.pending ++ input)).2.calls.toList = made ++ calls := by
        rw [hrecords.calls_eq, hcalls]
      rw [hturn]
      show Reads _ [] (k.read c.pool c.runner (c.pending ++ input)).2.calls.toList result
      rw [hall]
      refine .prepend (fun call hmem => ?_) hopen (hreads.withResult herror hclosed)
      exact List.mem_cons_of_mem _ (List.mem_cons_of_mem _ (hmakes call hmem))

/-- The engine has said, with the last of some calls of a turn, that the channel is closed, and what it needs.  The
calls behind them answer this. -/
structure AnswersClose (turn : Turn E Journal Outcome) (said : List Call) (demand : Demand) (after : List Call) :
    Prop where
  answers : ∃ answer, Answers ((c.scene s).isOver make c.runner) said demand after answer ∧
    turn.result = answer.map fun _ => .closed
  result_cases : turn.result = .ok .closed ∨ ∃ e, turn.result = .error e
  backlog_eq : turn.channel.backlog = none
  kinds : ∀ call ∈ said, call.kind ∈ firstKinds
  /-- Nothing is sent unless the engine asks for output. -/
  of_quiet : demand ≠ .output → turn.result = .ok .closed ∧ after = [] ∧ turn.session.queued = s.queued ∧
    turn.session.transitions = s.transitions
  /-- If it does, the session is moved on first, whatever comes of the answer. -/
  of_output : demand = .output → ∃ calls, after = .moveTo .connected :: calls ∧
    (∀ call ∈ calls, call.kind ∈ [CallKind.wrap, .enqueue]) ∧ turn.session.state = .connected ∧
    turn.session.transitions.toList = s.transitions.toList ++ [.connected] ∧
    turn.session.queued.toList = s.queued.toList ++ calls.filterMap Call.enqueued?
  /-- An answer that succeeds leaves the engine with nothing more to send. -/
  over_of_closed : demand = .output → turn.result = .ok .closed →
    turn.channel.engine.any Engine.isOutputOver = true
  of_over : demand = .output → (c.scene s).isOver make c.runner said = true →
    turn.result = .ok .closed ∧ after = [.moveTo .connected]
  /-- Each piece is what one wrapping has written, and only a wrapping that has written nothing gives no piece. -/
  enqueued_eq : after.filterMap Call.enqueued? = (Call.pieces [] after).filter (· ≠ [])
  written_eq : turn.result = .ok .closed → (after.filterMap Call.enqueued?).flatten = Call.writtenBy after
  /-- A wrapping that writes nothing when the engine has more to send is the last call, and makes the read fail. -/
  noProgress : ∀ first last rest, after = first ++ last :: rest → last.isDone = true →
    (Call.pieces [] (first ++ [last])).getLast? = some [] →
    (c.scene s).isOver make c.runner (said ++ (first ++ [last])) = false →
    rest = [] ∧ turn.result = .error (.noProgress .wrap)

/-- Whatever the engine says with the end, it is answered. -/
def AnswersEveryClose (turn : Turn E Journal Outcome) : Prop :=
  ∀ first offered room r after, turn.calls.toList = first ++ .unwrap offered room (.ok r) :: after →
    r.verdict = .closed → c.AnswersClose make s turn (first ++ [.unwrap offered room (.ok r)]) r.demand after

variable {c make s input} {said after : List Call} {demand : Demand} {answer : Except ChannelError Unit}

/-- A read that has called its engine lets no input wait when it fails, or finds the channel closed. -/
private theorem backlog_of_stop {call : Call} (hmem : call ∈ (c.receive make s input).calls.toList)
    (hkind : call.kind ≠ .create) (hstop : ∀ o, (c.receive make s input).result = .ok o → o = .closed) :
    (c.receive make s input).channel.backlog = none := by
  rcases c.receive_cases make s input with ⟨hdown, -⟩ | ⟨k, m, -, -, hnone⟩
  · obtain ⟨peer, rfl⟩ := hdown.create_of_mem hmem
    exact absurd rfl hkind
  · refine hnone ?_
    rintro ⟨o, hresult, hopen⟩
    exact hopen (hstop o hresult)

/-- Before the end is announced nothing is sent, and the session is not moved. -/
private theorem session_behind (hcalls : (c.receive make s input).calls.toList = said ++ after)
    (hkinds : ∀ call ∈ said, call.kind ∈ firstKinds) :
    (c.receive make s input).session = Call.onAll (Call.onAll s said) after ∧
      (c.receive make s input).session.queued.toList = s.queued.toList ++ after.filterMap Call.enqueued? ∧
      (c.receive make s input).session.transitions.toList =
        s.transitions.toList ++ after.filterMap Call.move? := by
  have hsession : (c.receive make s input).session = Call.onAll s (said ++ after) :=
    hcalls ▸ c.session_handle make s (.receive input)
  have htransitions : (c.receive make s input).session.transitions.toList =
      s.transitions.toList ++ (c.receive make s input).calls.toList.filterMap Call.move? :=
    c.transitions_handle make s (.receive input)
  refine ⟨?_, ?_, ?_⟩
  · rw [hsession, Call.onAll_append]
  · rw [hsession, Call.queued_onAll, List.filterMap_append,
      Call.filterMap_of_kinds Call.enqueued?_of_kind hkinds (by decide), List.nil_append]
  · rw [htransitions, hcalls, List.filterMap_append,
      Call.unmoved_of_kinds hkinds (by simp [firstKinds, prepareKinds]), List.nil_append]

private theorem answersClose_of_quiet (hcalls : (c.receive make s input).calls.toList = said ++ [])
    (hkinds : ∀ call ∈ said, call.kind ∈ firstKinds) (hdemand : demand ≠ .output)
    (hresult : (c.receive make s input).result = .ok .closed)
    (hbacklog : (c.receive make s input).channel.backlog = none) :
    c.AnswersClose make s (c.receive make s input) said demand [] := by
  obtain ⟨-, hqueued, hmoved⟩ := session_behind hcalls hkinds
  refine
    { answers := ⟨_, .quiet hdemand, hresult⟩
      result_cases := .inl hresult
      backlog_eq := hbacklog
      kinds := hkinds
      of_quiet := fun _ => ⟨hresult, rfl, Array.toList_inj.1 ?_, Array.toList_inj.1 ?_⟩
      of_output := fun h => absurd h hdemand
      over_of_closed := fun h => absurd h hdemand
      of_over := fun h => absurd h hdemand
      enqueued_eq := rfl
      written_eq := fun _ => rfl
      noProgress := fun first last rest hsplit => absurd hsplit.symm (by simp) }
  · exact hqueued.trans (List.append_nil _)
  · exact hmoved.trans (List.append_nil _)

private theorem answersClose_of_sends {calls : List Call}
    (hcalls : (c.receive make s input).calls.toList = said ++ .moveTo .connected :: calls)
    (hkinds : ∀ call ∈ said, call.kind ∈ firstKinds)
    (hsends : Sends ((c.scene s).isOver make c.runner) (said ++ [.moveTo .connected]) calls answer)
    (hresult : (c.receive make s input).result = answer.map fun _ => .closed)
    (hbacklog : (c.receive make s input).channel.backlog = none)
    (hcounted : ∀ call ∈ (c.receive make s input).calls.toList, call.IsCounted) :
    c.AnswersClose make s (c.receive make s input) said .output (.moveTo .connected :: calls) := by
  obtain ⟨hsession, hqueued, hmoved⟩ := session_behind hcalls hkinds
  have hbehind : ∀ call ∈ calls, call.IsCounted := fun call hmem =>
    hcounted call (hcalls ▸ List.mem_append_right _ (List.mem_cons_of_mem _ hmem))
  have hstays : calls.filterMap Call.move? = [] := Call.unmoved_of_kinds hsends.kinds (by simp)
  have hokay (h : (c.receive make s input).result = .ok .closed) : answer = .ok () := by
    rw [hresult] at h
    cases answer with
    | error => cases h
    | ok => rfl
  refine
    { answers := ⟨_, .sent hsends, hresult⟩
      result_cases := ?_
      backlog_eq := hbacklog
      kinds := hkinds
      of_quiet := fun h => absurd rfl h
      of_output := fun _ => ⟨calls, rfl, hsends.kinds, ?_, ?_, hqueued⟩
      over_of_closed := fun _ hclosed => ?_
      of_over := fun _ hover => ?_
      enqueued_eq := hsends.enqueued_eq hbehind
      written_eq := fun hclosed => ?_
      noProgress := fun first last rest hsplit hlast hsilent hstill => ?_ }
  · cases answer with
    | error e => exact .inr ⟨e, hresult⟩
    | ok => exact .inl hresult
  · rw [hsession]
    exact Call.state_of_unmoved hstays
  · rw [hmoved]
    show _ ++ SessionState.connected :: calls.filterMap Call.move? = _
    rw [hstays]
  · obtain rfl := hokay hclosed
    have hover := hsends.over_of_ok
    obtain ⟨last, hreplay⟩ := c.replay_handle make s (.receive input)
    change (c.scene s).replay make c.runner (c.receive make s input).calls.toList = _ at hreplay
    rw [List.append_assoc, Scene.isOver] at hover
    rw [hcalls] at hreplay
    exact (congrArg (fun y : Scene E Journal => y.engine.any Engine.isOutputOver) hreplay).symm.trans hover
  · -- a move does nothing to the engine
    have hsame : (c.scene s).isOver make c.runner (said ++ [.moveTo .connected]) = true := by
      rw [Scene.isOver, Scene.replay_append]
      exact hover
    obtain ⟨rfl, rfl⟩ := hsends.of_over hsame
    exact ⟨hresult, rfl⟩
  · obtain rfl := hokay hclosed
    exact hsends.written_eq hbehind
  · rcases first with _ | ⟨move, first⟩
    · obtain ⟨rfl, -⟩ := List.cons.inj hsplit
      cases hlast
    · obtain ⟨rfl, htail⟩ := List.cons.inj hsplit
      rw [List.cons_append, ← List.singleton_append, ← List.append_assoc] at hstill
      obtain ⟨hrest, rfl⟩ := hsends.last_of_silent hbehind htail hlast hsilent hstill
      exact ⟨hrest, hresult⟩

theorem answersEveryClose_receive (hstate : s.state = .secured)
    (hcounted : ∀ call ∈ (c.receive make s input).calls.toList, call.IsCounted) :
    c.AnswersEveryClose make s (c.receive make s input) := by
  intro first offered room r after hcalls hclosed
  have hreads := c.closing_receive make s input hstate
  rw [hcalls] at hreads
  obtain ⟨answer, hkinds, hanswers, hresult⟩ := hreads.split hclosed
  have hall : (c.receive make s input).calls.toList = first ++ [.unwrap offered room (.ok r)] ++ after := by
    rw [hcalls, List.append_assoc]
    rfl
  have hsaid : ∀ call ∈ first ++ [.unwrap offered room (.ok r)], call.kind ∈ firstKinds :=
    List.forall_mem_append.2 ⟨hkinds, List.forall_mem_singleton.2 List.mem_cons_self⟩
  have hmem : .unwrap offered room (.ok r) ∈ (c.receive make s input).calls.toList :=
    hcalls ▸ List.mem_append_right _ List.mem_cons_self
  have hbacklog : (c.receive make s input).channel.backlog = none := by
    refine backlog_of_stop hmem nofun fun o hok => ?_
    rw [hresult] at hok
    cases answer with
    | error => cases hok
    | ok =>
      cases hok
      rfl
  generalize r.demand = demand at hanswers
  cases hanswers with
  | quiet hdemand => exact answersClose_of_quiet hall hsaid hdemand hresult hbacklog
  | sent hsends => exact answersClose_of_sends hall hsaid hsends hresult hbacklog hcounted

/-- Whatever its engine answers, a read of an open channel with which the engine says that the channel is closed
answers this, if the replies to wrapping count what they write.  Those of a script do if its steps do. -/
theorem close_answered (s : Journal) (input : Bytes) (hstate : s.state = .secured) :
    (∀ {E : Type} [Engine E] (c : Channel E) (make : EngineMaker E),
        (∀ call ∈ (c.receive make s input).calls.toList, call.IsCounted) →
        c.AnswersEveryClose make s (c.receive make s input)) ∧
      ∀ (c : Channel Playback) (make : EngineMaker Playback),
        (∀ p, c.engine = some p → p.IsCounted) → (∀ peer p, make peer = .ok p → p.IsCounted) →
        c.AnswersEveryClose make s (c.receive make s input) := by
  refine ⟨fun c make hcounted => answersEveryClose_receive hstate hcounted, fun c make hengine hmake => ?_⟩
  have hcounted := Playback.keeps_counted.calls_receive Playback.vouches_counted (s := s) hengine hmake input
  exact answersEveryClose_receive hstate hcounted

/-- A message, the end, and an answer of two pieces, for the first of which the buffer has to grow. -/
theorem close_answered_in_two :
    let script : List ScriptStep :=
      [.unwrap ⟨.ok, .none, 1, 1, [5]⟩, .unwrap ⟨.closed, .output, 1, 0, []⟩,
        .wrap ⟨.overflow, .none, 0, 2, [7, 7]⟩ false, .wrap ⟨.closed, .none, 0, 1, [8]⟩ false,
        .wrap ⟨.closed, .none, 0, 1, [9]⟩ true]
    let make : EngineMaker Playback := fun _ => .ok (.start .none script 256)
    let s := Journal.secured true .unknown
    let turn := (closed (Pool.ofSizing Sizing.usual) .onTheSpot).receive make s [1, 2]
    s.state = .secured ∧ (∀ peer p, make peer = .ok p → p.IsCounted) ∧ turn.result = .ok .closed ∧
      turn.session.queued = #[[7, 7, 8], [9]] ∧ turn.session.transitions.toList = [.connected] ∧
      turn.channel.engine.any Engine.isOutputOver = true ∧ turn.channel.backlog = none := by
  intro script make s turn
  have hcounted : ∀ peer p, make peer = .ok p → p.IsCounted := by
    rintro peer p ⟨⟩ reply isLast hmem
    simp only [Playback.start, script, List.mem_cons, ScriptStep.wrap.injEq, reduceCtorEq, List.not_mem_nil, or_false,
      false_or] at hmem
    rcases hmem with ⟨rfl, -⟩ | ⟨rfl, -⟩ | ⟨rfl, -⟩ <;> rfl
  have hresult : turn.result = .ok .closed := Turn.result_of_toOption (by decide +kernel)
  have hqueued : turn.session.queued = #[[7, 7, 8], [9]] := by decide +kernel
  have hcloses : turn.calls.toList.any Call.isClosing = true := by decide +kernel
  obtain ⟨call, hmem, hcall⟩ := List.any_eq_true.1 hcloses
  obtain ⟨offered, room, r, rfl, hclosed⟩ := Call.exists_of_isClosing hcall
  obtain ⟨first, after, hcalls⟩ := List.append_of_mem hmem
  have hanswers := (close_answered s [1, 2] rfl).2 (closed (Pool.ofSizing Sizing.usual) .onTheSpot) make
    (fun _ h => by cases h) hcounted first offered room r after hcalls hclosed
  have hdemand : r.demand = .output := by
    refine Decidable.byContradiction fun hquiet => ?_
    have hnone := (hanswers.of_quiet hquiet).2.2.1
    rw [hqueued] at hnone
    cases hnone
  obtain ⟨calls, -, -, -, htransitions, -⟩ := hanswers.of_output hdemand
  exact ⟨rfl, hcounted, hresult, hqueued, htransitions, hanswers.over_of_closed hdemand hresult, hanswers.backlog_eq⟩

end Channel

end SecureStream
