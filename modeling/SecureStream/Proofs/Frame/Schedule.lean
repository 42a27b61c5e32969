import Mathlib.Algebra.GroupWithZero.Nat
import SecureStream.Proofs.Frame.Items

/-!
# Framers under any schedule

A `Desk` is a framer with the stream that it reads and the stream that it writes.  Three things happen
there, in any order and as often as one likes: bytes arrive, the framer takes a look, and a frame is
written.

Everything that has been found is the beginning of what `Frame.grammar` finds in all bytes that have arrived
(`found_prefix_parse`).  The invariant is `Desk.Follows`: the bytes that have arrived are those of the
findings, then those that the framer has taken of the current frame, then those that are still in the
stream.
-/

namespace SecureStream.Framer

inductive Action where
  | push (bytes : Bytes)
  | look
  | put (frame : Frame)

def Action.isPut : Action → Bool
  | .put _ => true
  | _ => false

/-- A framer at work. -/
structure Desk where
  framer : Framer
  /-- All bytes that have arrived. -/
  pushed : Bytes
  /-- Those of them that are still in the stream. -/
  stream : Bytes
  /-- The stream that the framer writes. -/
  written : Bytes
  /-- What the framer has found, oldest first. -/
  found : List Finding

namespace Desk

def start (limit : Nat) : Desk := ⟨ofLimit limit, [], [], [], []⟩

def act (d : Desk) : Action → Desk
  | .push bytes => { d with pushed := d.pushed ++ bytes, stream := d.stream ++ bytes }
  | .look =>
    let look := d.framer.next d.stream
    { d with framer := look.framer, stream := look.left, found := d.found ++ look.findings }
  | .put frame =>
    match d.framer.put frame d.written with
    | .ok written => { d with written }
    | .error _ => d

def actAll (d : Desk) (actions : List Action) : Desk := actions.foldl act d

/-- The number of bytes that the framer has consumed: those of its findings, and those it has of the current
frame. -/
def consumed (d : Desk) : Nat := (d.found.map Finding.span).sum + d.framer.taken

/-- The bytes that have arrived are those of the findings, those taken of the current frame, and the
stream. -/
structure Follows (d : Desk) (limit : Nat) (done w : Bytes) : Prop where
  limit_eq : d.framer.limit = min limit longestPayload
  pushed_eq : d.pushed = done ++ w ++ d.stream
  spells : (Frame.grammar limit).Spells done d.found
  length_done : done.length = (d.found.map Finding.span).sum
  hasRead : d.framer.HasRead w

theorem follows_start (limit : Nat) : (start limit).Follows limit [] [] :=
  ⟨rfl, rfl, Grammar.spells_nil rfl, rfl, hasRead_ofLimit limit⟩

/-- What one look does to the invariant, and what it says about the stream when it finds nothing. -/
theorem Follows.look {d : Desk} {limit : Nat} {done w : Bytes} (h : d.Follows limit done w) :
    (∃ done' w', (d.act .look).Follows limit done' w') ∧
      ((d.framer.next d.stream).findings = [] → (Frame.grammar limit).first? (w ++ d.stream) = none) := by
  obtain ⟨hlimit, hnext⟩ := h.hasRead.next d.stream
  rw [h.limit_eq, Frame.grammar_min] at hnext
  have hsame := hlimit.trans h.limit_eq
  rcases hnext with ⟨hnone, hfirst, w', hw', hjoined⟩ | ⟨item, hfound, hfresh, hfirst⟩
  · refine ⟨⟨done, w', hsame, ?_, ?_, ?_, hw'⟩, fun _ => hfirst⟩
    · show d.pushed = done ++ w' ++ (d.framer.next d.stream).left
      rw [List.append_assoc, ← hjoined, ← List.append_assoc]
      exact h.pushed_eq
    · simpa [act, hnone] using h.spells
    · simpa [act, hnone] using h.length_done
  · obtain ⟨front, -, hwhole, hfront⟩ := (Frame.grammar limit).first?_eq_some hfirst
    refine ⟨⟨done ++ front, [], hsame, ?_, ?_, ?_, hfresh⟩, fun hnone => by rw [hfound] at hnone; cases hnone⟩
    · show d.pushed = done ++ front ++ [] ++ (d.framer.next d.stream).left
      rw [List.append_nil, List.append_assoc, ← hwhole, ← List.append_assoc]
      exact h.pushed_eq
    · show (Frame.grammar limit).Spells (done ++ front) (d.found ++ (d.framer.next d.stream).findings)
      have hitem : (Frame.grammar limit).Spells (front ++ []) [item] :=
        Grammar.spells_cons (hfront []) (Grammar.spells_nil rfl)
      rw [List.append_nil] at hitem
      rw [hfound]
      exact h.spells.append hitem
    · have hspan := Frame.length_of_first? hfirst
      rw [hwhole] at hspan
      simp only [List.length_append] at hspan ⊢
      simp only [act, hfound, List.map_append, List.sum_append, List.map_singleton, List.sum_singleton,
        h.length_done]
      omega

theorem Follows.act {d : Desk} {limit : Nat} {done w : Bytes} (h : d.Follows limit done w) (action : Action) :
    ∃ done' w', (d.act action).Follows limit done' w' := by
  cases action with
  | push bytes =>
    refine ⟨done, w, h.limit_eq, ?_, h.spells, h.length_done, h.hasRead⟩
    show d.pushed ++ bytes = done ++ w ++ (d.stream ++ bytes)
    rw [h.pushed_eq, List.append_assoc]
  | look => exact h.look.1
  | put frame =>
    refine ⟨done, w, ?_⟩
    unfold Desk.act
    dsimp only
    split
    · exact ⟨h.limit_eq, h.pushed_eq, h.spells, h.length_done, h.hasRead⟩
    · exact h

theorem Follows.actAll {d : Desk} {limit : Nat} {done w : Bytes} (h : d.Follows limit done w)
    (actions : List Action) : ∃ done' w', (d.actAll actions).Follows limit done' w' := by
  induction actions generalizing d done w with
  | nil => exact ⟨done, w, h⟩
  | cons action actions ih =>
    obtain ⟨done', w', h'⟩ := h.act action
    exact ih h'

/-- Two desks at which the same bytes have arrived and the same has been found, whatever has been written. -/
def ReadsAs (d e : Desk) : Prop :=
  d.framer = e.framer ∧ d.pushed = e.pushed ∧ d.stream = e.stream ∧ d.found = e.found

theorem readsAs_act {d e : Desk} (h : d.ReadsAs e) (action : Action) :
    (d.act action).ReadsAs (e.act action) := by
  obtain ⟨hframer, hpushed, hstream, hfound⟩ := h
  cases action with
  | push bytes => exact ⟨hframer, by simp only [act, hpushed], by simp only [act, hstream], hfound⟩
  | look => simp only [ReadsAs, act, hframer, hpushed, hstream, hfound, and_self]
  | put frame =>
    unfold act
    dsimp only
    split <;> split <;> exact ⟨hframer, hpushed, hstream, hfound⟩

theorem readsAs_put (d : Desk) (frame : Frame) : (d.act (.put frame)).ReadsAs d := by
  unfold act
  dsimp only
  split <;> exact ⟨rfl, rfl, rfl, rfl⟩

theorem readsAs_filter {d e : Desk} (h : d.ReadsAs e) (actions : List Action) :
    (d.actAll actions).ReadsAs (e.actAll (actions.filter (!·.isPut))) := by
  induction actions generalizing d e with
  | nil => exact h
  | cons action actions ih =>
    cases action with
    | push bytes => exact ih (readsAs_act h _)
    | look => exact ih (readsAs_act h _)
    | put frame =>
      obtain ⟨h1, h2, h3, h4⟩ := h
      obtain ⟨g1, g2, g3, g4⟩ := readsAs_put d frame
      exact ih ⟨g1.trans h1, g2.trans h2, g3.trans h3, g4.trans h4⟩

end Desk

/-- Under any schedule the findings are the beginning of what the whole stream says, and a look finds
nothing only when they are all of it.  What is left of the stream are the bytes behind those of the findings
and the header bytes taken of the current frame.  Writing frames in between changes nothing of this. -/
theorem found_prefix_parse (limit : Nat) (actions : List Action) :
    let desk := (Desk.start limit).actAll actions
    let whole := ((Frame.grammar limit).parse desk.pushed).1
    desk.found <+: whole ∧
      ((desk.framer.next desk.stream).result = .ok none → desk.found = whole) ∧
      desk.consumed ≤ desk.pushed.length ∧ desk.stream = desk.pushed.drop desk.consumed ∧
      desk.framer.taken ≤ Header.size ∧
      desk.ReadsAs ((Desk.start limit).actAll (actions.filter (!·.isPut))) := by
  intro desk whole
  obtain ⟨done, w, h⟩ : ∃ done w, desk.Follows limit done w := (Desk.follows_start limit).actAll actions
  have hwhole : whole = desk.found ++ ((Frame.grammar limit).parse (w ++ desk.stream)).1 := by
    show ((Frame.grammar limit).parse desk.pushed).1 = _
    rw [h.pushed_eq, List.append_assoc, h.spells.parse_append]
  have hconsumed : desk.consumed = (done ++ w).length := by
    rw [Desk.consumed, List.length_append, h.length_done, h.hasRead.taken_eq]
  refine ⟨⟨_, hwhole.symm⟩, ?_, ?_, ?_, ?_, Desk.readsAs_filter ⟨rfl, rfl, rfl, rfl⟩ actions⟩
  · intro hnone
    have hfirst := h.look.2 (by rw [Look.findings, hnone])
    rw [hwhole, Grammar.parse_of_none hfirst, List.append_nil]
  · have hlength := congrArg List.length h.pushed_eq
    rw [List.length_append, ← hconsumed] at hlength
    omega
  · rw [hconsumed, h.pushed_eq, List.drop_left]
  · rw [h.hasRead.taken_eq]
    exact h.hasRead.length_le

end SecureStream.Framer
