import SecureStream.Proofs.Channel.Log

/-!
# Intake

What a channel lets wait is what its engine has not used up, for whatever engine: no byte is lost, none comes
twice, and none comes out of order.  An engine says how many bytes it has used, and may say anything; only
what it was offered counts.

An `Intake` follows the bytes that the reads bring.  A read that fails or finds the channel closed begins
another one.  `Channel.Keeps` relates it to what waits; every request keeps that (`Channel.Keeps.handle`).
-/

namespace SecureStream

/-- What reads have brought since the last one that failed or found the channel closed. -/
structure Intake where
  /-- The input of these reads. -/
  stream : Bytes
  /-- How many bytes of it have been used up. -/
  consumed : Nat
  deriving DecidableEq, Repr

namespace Intake

variable {E S : Type}

/-- Nothing has been brought. -/
def fresh : Intake := ⟨[], 0⟩

/-- What has been brought after one more turn. -/
def after (i : Intake) (request : Request) (turn : Turn E S Response) : Intake :=
  match request with
  | .receive input =>
    if turn.goesOn then ⟨i.stream ++ input, i.consumed + Call.usedBy turn.calls.toList⟩ else fresh
  | _ => { i with consumed := i.consumed + Call.usedBy turn.calls.toList }

/-- What has been brought after turns. -/
def afterAll (i : Intake) (turns : List (Request × Turn E S Response)) : Intake :=
  turns.foldl (fun i turn => i.after turn.1 turn.2) i

/-- More input stands behind what has not been used up. -/
theorem drop_append {i : Intake} (h : i.consumed ≤ i.stream.length) (input : Bytes) (n : Nat) :
    (i.stream.drop i.consumed ++ input).drop n = (i.stream ++ input).drop (i.consumed + n) := by
  rw [← List.drop_append_of_le_length h, List.drop_drop]

end Intake

namespace Channel

variable {E S : Type}

theorem length_pending (c : Channel E) : c.pendingLength = c.pending.length := by
  unfold pendingLength pending
  cases c.backlog <;> rfl

namespace Holds

variable {c : Channel E} {left : Bytes} (h : c.Holds left)

include h

theorem pending_eq : c.pending = left := by
  unfold pending
  rw [h]
  by_cases hempty : left = []
  · rw [if_pos hempty, hempty]
    rfl
  · rw [if_neg hempty]
    rfl

theorem hasPending_iff : c.hasPending = true ↔ 0 < c.pendingLength := by
  have hsome : c.hasPending = (c.backlog.map (·.bytes)).isSome := Option.isSome_map.symm
  rw [hsome, h, length_pending, h.pending_eq, List.length_pos_iff]
  by_cases hempty : left = []
  · simp [hempty]
  · simp [hempty]

end Holds

/-- What waits is what has been brought and not been used up. -/
structure Keeps (c : Channel E) (i : Intake) : Prop where
  holds : c.Holds (i.stream.drop i.consumed)
  consumed_le : i.consumed ≤ i.stream.length
  backlog_of_new : c.engine = none → c.backlog = none

theorem keeps_closed (pool : Pool) (runner : Runner) : (closed (E := E) pool runner).Keeps .fresh :=
  ⟨rfl, Nat.le_refl _, fun _ => rfl⟩

namespace Keeps

variable [Engine E] [Session S] {c : Channel E} {i : Intake}

omit [Engine E] in
/-- Nothing waits, and nothing has been brought. -/
theorem of_none (hnone : c.backlog = none) : c.Keeps .fresh := by
  refine ⟨?_, Nat.le_refl _, fun _ => hnone⟩
  unfold Holds
  rw [hnone]
  rfl

/-- What a request brings is what is left of the stream, and the input of a read behind it. -/
theorem offered_eq (h : c.Keeps i) (make : EngineMaker E) (s : S) (input : Bytes)
    {before after : List Call} {offered : Bytes} {room : Nat} {answer : Except EngineError Reply}
    (hcalls : (c.handle make s (.receive input)).calls.toList =
      before ++ .unwrap offered room answer :: after) :
    offered = (i.stream ++ input).drop (i.consumed + Call.usedBy before) := by
  rcases c.handle_cases make s (.receive input) with ⟨hdown, -⟩ | ⟨k, m, hserves, -⟩
  · have hmem : .unwrap offered room answer ∈ (c.handle make s (.receive input)).calls.toList := by
      rw [hcalls]
      exact List.mem_append_right _ (List.mem_cons_self ..)
    obtain ⟨peer, ⟨⟩⟩ := hdown.create_of_mem hmem
  · have hoffered := hserves.told.offered_eq before offered room answer after (hserves.calls_eq ▸ hcalls)
    rw [hoffered, ← Intake.drop_append h.consumed_le, ← h.holds.pending_eq]
    rfl

/-- A request that brings no input leaves what waits as it is. -/
theorem backlog_eq (make : EngineMaker E) (s : S) {request : Request}
    (hother : ∀ input, request ≠ .receive input) :
    (c.handle make s request).channel.backlog = c.backlog ∧
      Call.usedBy (c.handle make s request).calls.toList = 0 := by
  rcases c.handle_cases make s request with ⟨hdown, -⟩ | ⟨k, m, hserves, hleaves⟩
  · rw [hdown.channel_eq]
    refine ⟨rfl, ?_⟩
    rcases hdown.calls_eq with heq | ⟨-, peer, e, -, heq⟩ <;> (rw [heq]; rfl)
  · rw [hserves.calls_eq]
    have hused := hserves.told.usedBy_le
    cases request with
    | receive input => exact absurd rfl (hother input)
    | _ => exact ⟨hleaves, Nat.le_zero.1 hused⟩

/-- A read that fails, or finds the channel closed, lets nothing wait. -/
theorem backlog_of_stop (h : c.Keeps i) (make : EngineMaker E) (s : S) (input : Bytes)
    (hstop : (c.handle make s (.receive input)).goesOn = false) :
    (c.handle make s (.receive input)).channel.backlog = none := by
  rcases c.handle_cases make s (.receive input) with ⟨hdown, hnew⟩ | ⟨k, m, hserves, hleaves⟩
  · rw [hdown.channel_eq]
    rcases hnew with hnone | ⟨message, ⟨⟩⟩
    exact h.backlog_of_new hnone
  · exact hleaves.2 hstop

/-- A read that goes on lets wait what is left of the stream and of its input. -/
theorem of_goesOn (h : c.Keeps i) (make : EngineMaker E) (s : S) (input : Bytes)
    (hgoes : (c.handle make s (.receive input)).goesOn = true) :
    (c.handle make s (.receive input)).channel.Keeps
      ⟨i.stream ++ input, i.consumed + Call.usedBy (c.handle make s (.receive input)).calls.toList⟩ := by
  rcases c.handle_cases make s (.receive input) with ⟨hdown, -⟩ | ⟨k, m, hserves, hleaves⟩
  · obtain ⟨e, hfails⟩ := hdown.result_eq
    unfold Turn.goesOn at hgoes
    rw [hfails] at hgoes
    cases hgoes
  · have hle := h.consumed_le
    have hpending : c.pending = i.stream.drop i.consumed := h.holds.pending_eq
    have hused : Call.usedBy m.link.calls.toList ≤ (c.pending ++ input).length := hserves.told.usedBy_le
    have hleft : m.input = (c.pending ++ input).drop (Call.usedBy m.link.calls.toList) :=
      hserves.told.input_eq
    have hholds := hleaves.1 hgoes
    rw [hleft, hpending, Intake.drop_append hle, ← hserves.calls_eq] at hholds
    refine ⟨hholds, ?_, ?_⟩
    · rw [hpending, List.length_append, List.length_drop] at hused
      rw [hserves.calls_eq]
      show i.consumed + _ ≤ (i.stream ++ input).length
      rw [List.length_append]
      omega
    · rw [hserves.turn_eq]
      exact nofun

/-- Every request keeps that, however it ends. -/
theorem handle (h : c.Keeps i) (make : EngineMaker E) (s : S) (request : Request) :
    (c.handle make s request).channel.Keeps (i.after request (c.handle make s request)) := by
  by_cases hreceive : ∃ input, request = .receive input
  · obtain ⟨input, rfl⟩ := hreceive
    unfold Intake.after
    dsimp only
    split
    · next hgoes => exact h.of_goesOn make s input hgoes
    · next hstop => exact .of_none (h.backlog_of_stop make s input (Bool.not_eq_true _ ▸ hstop))
  · have hother : ∀ input, request ≠ .receive input := fun input heq => hreceive ⟨input, heq⟩
    obtain ⟨hbacklog, hused⟩ := backlog_eq (c := c) make s hother
    have hafter : i.after request (c.handle make s request) = i := by
      cases request with
      | receive input => exact absurd rfl (hother input)
      | _ =>
        unfold Intake.after
        dsimp only
        rw [hused]
        rfl
    rw [hafter]
    refine ⟨?_, h.consumed_le, ?_⟩
    · unfold Holds
      rw [hbacklog]
      exact h.holds
    · rw [hbacklog]
      rcases c.handle_cases make s request with ⟨hdown, -⟩ | ⟨k, m, hserves, -⟩
      · rw [hdown.channel_eq]
        exact h.backlog_of_new
      · rw [hserves.turn_eq]
        exact nofun

theorem handleAll (h : c.Keeps i) (s : S) (history : List (EngineMaker E × Request)) :
    (c.handleAll s history).2.1.Keeps
      (i.afterAll ((history.map Prod.snd).zip (c.handleAll s history).1)) := by
  induction history generalizing c s i with
  | nil => exact h
  | cons request history ih => exact ih (h.handle request.1 s request.2) _

end Keeps

/-- After any requests, what waits is what the reads have brought without what the engine has used up of it.
Of the next request, a read offers its engine what is left at every call, and lets wait what is left then,
unless it fails or finds the channel closed; and no other request touches what waits. -/
theorem input_waits [Engine E] [Session S] (pool : Pool) (runner : Runner) (s₀ : S)
    (history : List (EngineMaker E × Request)) :
    let turns := ((closed pool runner).handleAll s₀ history).1
    let c := ((closed pool runner).handleAll s₀ history).2.1
    let s := ((closed pool runner).handleAll s₀ history).2.2
    let i := Intake.fresh.afterAll ((history.map Prod.snd).zip turns)
    c.pending = i.stream.drop i.consumed ∧ i.consumed ≤ i.stream.length ∧
      c.pendingLength = c.pending.length ∧ (c.hasPending = true ↔ 0 < c.pendingLength) ∧
      ∀ (make : EngineMaker E) (request : Request),
        let turn := c.handle make s request
        match request with
        | .receive input =>
          (∀ before offered room answer after,
              turn.calls.toList = before ++ .unwrap offered room answer :: after →
                offered = (i.stream ++ input).drop (i.consumed + Call.usedBy before)) ∧
            (turn.goesOn = true →
              turn.channel.pending =
                (i.stream ++ input).drop (i.consumed + Call.usedBy turn.calls.toList)) ∧
            (turn.goesOn = false → turn.channel.backlog = none)
        | _ => turn.channel.backlog = c.backlog := by
  intro turns c s i
  have hkeeps : c.Keeps i := (keeps_closed pool runner).handleAll s₀ history
  refine ⟨hkeeps.holds.pending_eq, hkeeps.consumed_le, c.length_pending, hkeeps.holds.hasPending_iff, ?_⟩
  intro make request turn
  cases request with
  | receive input =>
    refine ⟨?_, ?_, ?_⟩
    · intro before offered room answer after hcalls
      exact hkeeps.offered_eq make s input hcalls
    · intro hgoes
      exact (hkeeps.of_goesOn make s input hgoes).holds.pending_eq
    · intro hstop
      exact hkeeps.backlog_of_stop make s input hstop
  | _ => exact (Keeps.backlog_eq make s (by exact nofun)).1

end Channel

end SecureStream
