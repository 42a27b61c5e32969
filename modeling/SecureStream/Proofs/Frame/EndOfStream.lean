import Mathlib.Algebra.GroupWithZero.Nat
import SecureStream.Proofs.Frame.RoundTrip
import SecureStream.Proofs.Frame.Schedule

/-!
# The end of a stream

At any time the stream may turn out to have ended, and a framer that is asked then finds what it finds
otherwise, except that nothing may be left of a frame (`nextAtEnd`).  A `Visit` of a desk is an action there,
or such a look at the end of the stream.  Since that look changes the framer and the stream as any other look
does (`Desk.visit_eq`), the invariant `Desk.Follows` holds after all visits.

* An end is clean exactly when the bytes that have arrived are whole frames and refused headers, and a framer
  that finds it too early goes on when more bytes arrive (`judges_end`).
* What a framer keeps is bounded: at most a part of a header, or a header and less than its payload
  (`keeps_less_than_limit`).
-/

namespace SecureStream

/-! ### Frames and their wires -/

namespace Header

theorem toBytes_inj {h h' : Header} (hbytes : h.toBytes = h'.toBytes) : h = h' := by
  have hread := h.read?_toBytes_append []
  rw [hbytes, h'.read?_toBytes_append []] at hread
  cases hread
  rfl

end Header

namespace Frame

variable {limit : Nat} {f : Frame} {wire : Bytes}

/-- A frame is read from its wire, whatever follows, also when the reserved bit is set there. -/
theorem read?_of_clearReserved (h : clearReserved wire = f.toBytes) (more : Bytes) :
    Header.read? (wire ++ more) = some (f.header, f.payload ++ more) := by
  have hsize : Header.size ≤ wire.length := by
    have hlength := congrArg List.length h
    rw [clearReserved, List.length_modify, length_toBytes] at hlength
    omega
  cases hread : Header.read? wire with
  | none =>
    have := Header.read?_eq_none_iff.1 hread
    omega
  | some found =>
    obtain ⟨header, payload⟩ := found
    obtain ⟨front, hsplit, hcleared⟩ := Header.toBytes_of_read? hread
    obtain ⟨front', -, hsplit', hmore⟩ := Header.read?_eq_some hread
    rw [hsplit, hcleared payload, toBytes] at h
    obtain ⟨hheader, rfl⟩ := List.append_inj h (header.length_toBytes.trans f.header.length_toBytes.symm)
    rw [hsplit', List.append_assoc, hmore, Header.toBytes_inj hheader]

/-- The wires of frames within the limit, one after the other, spell these frames. -/
theorem spells_wires {frames : List Frame} {wires : List Bytes}
    (hlimit : ∀ f ∈ frames, f.header.length ≤ limit)
    (hwires : wires.map clearReserved = frames.map toBytes) :
    (grammar limit).Spells wires.flatten (frames.map .ok) := by
  induction frames generalizing wires with
  | nil =>
    rw [List.map_nil, List.map_eq_nil_iff] at hwires
    subst hwires
    exact Grammar.spells_nil rfl
  | cons f frames ih =>
    obtain ⟨wire, wires, rfl, hwire, hrest⟩ := List.map_eq_cons_iff.1 hwires
    obtain ⟨hle, hall⟩ := List.forall_mem_cons.1 hlimit
    have hfirst := first?_frame f (read?_of_clearReserved hwire wires.flatten) (Nat.not_lt.2 hle)
    exact Grammar.spells_cons hfirst (ih hall hrest)

end Frame

namespace Framer

variable {f : Framer} {w stream : Bytes}

/-! ### One look -/

theorem HasRead.isInsideFrame_iff (h : f.HasRead w) : f.isInsideFrame ↔ w ≠ [] := by
  constructor
  · rintro hinside rfl
    rw [h.isInsideFrame_eq] at hinside
    cases hinside
  · intro hne
    cases hinside : f.isInsideFrame with
    | true => rfl
    | false => exact absurd (h.eq_nil hinside) hne

theorem HasRead.not_isComplete (h : f.HasRead w) : f.reader.isComplete = false := by
  unfold HasRead at h
  split at h
  · have hshort := Header.read?_eq_none_iff.2 h.2
    rw [HeaderReader.isComplete, h.1.header?_eq, hshort]
    rfl
  · rw [h.1]
    rfl

theorem HasRead.isIdle_of_pending (h : f.HasRead w) (hpending : f.pending.isSome) : f.reader.isIdle := by
  obtain ⟨header, hheader⟩ := Option.isSome_iff_exists.1 hpending
  rw [HasRead, hheader] at h
  rw [h.1]
  rfl

theorem HasRead.pending_le (h : f.HasRead w) {header : Header} (hpending : f.pending = some header) :
    header.length ≤ f.limit := by
  rw [HasRead, hpending] at h
  exact h.2.2

/-- A look asks for the payload of a header, or refuses a header, or the header is still not complete. -/
theorem next_cases (f : Framer) (stream : Bytes) :
    (∃ (g : Framer) (header : Header) (arrived : Option Header) (rest : Bytes),
      f.next stream = g.lookPayload header arrived rest) ∨
    (∃ length, (f.next stream).result = .error (.overLimit length f.limit)) ∨
    (f.pending = none ∧ (f.reader.feed stream).1.header? = none ∧ (f.next stream).result = .ok none ∧
      (f.next stream).left = (f.reader.feed stream).2) := by
  cases hpending : f.pending with
  | some header =>
    exact .inl ⟨f, header, none, stream, by simp only [next, hpending]⟩
  | none =>
    cases hheader : (f.reader.feed stream).1.header? with
    | none =>
      exact .inr (.inr ⟨rfl, rfl, by simp only [next, hpending, HeaderReader.take, hheader, and_self]⟩)
    | some header =>
      by_cases hlimit : f.limit < header.length
      · refine .inr (.inl ⟨header.length, ?_⟩)
        simp only [next, hpending, HeaderReader.take, hheader, if_pos hlimit]
      · refine .inl ⟨{ f with reader := .start }, header, f.reader.arrival? (f.reader.feed stream).1,
          (f.reader.feed stream).2, ?_⟩
        simp only [next, hpending, HeaderReader.take, hheader, if_neg hlimit]

private theorem lookPayload_cases (f : Framer) (header : Header) (arrived : Option Header) (stream : Bytes) :
    (∃ frame, (f.lookPayload header arrived stream).result = .ok (some frame)) ∨
      (f.lookPayload header arrived stream = ⟨.ok none, { f with pending := some header }, stream, arrived⟩ ∧
        stream.length < header.length) := by
  unfold lookPayload
  split
  · exact .inl ⟨_, rfl⟩
  · next hsplit => exact .inr ⟨rfl, Bytes.splitExact?_eq_none_iff.1 hsplit⟩

theorem next_ne_truncated (f : Framer) (stream : Bytes) : (f.next stream).result ≠ .error .truncated := by
  intro htruncated
  rcases f.next_cases stream with ⟨g, header, arrived, rest, hnext⟩ | ⟨length, hrefused⟩ | ⟨-, -, hnone, -⟩
  · rw [hnext] at htruncated
    rcases g.lookPayload_cases header arrived rest with ⟨frame, hframe⟩ | ⟨hlook, -⟩
    · rw [hframe] at htruncated
      cases htruncated
    · rw [hlook] at htruncated
      cases htruncated
  · rw [hrefused] at htruncated
    cases htruncated
  · rw [hnone] at htruncated
    cases htruncated

/-- A framer that finds nothing has used the stream up, or it waits for a payload that is longer than what is
there. -/
theorem HasRead.waits (h : f.HasRead w) (hnone : (f.next stream).result = .ok none) :
    (f.next stream).left = [] ∨
      ∃ header, (f.next stream).framer.pending = some header ∧
        (f.next stream).left.length < header.length := by
  rcases f.next_cases stream with ⟨g, header, arrived, rest, hnext⟩ | ⟨length, hrefused⟩ |
      ⟨hpending, hheader, -, hleft⟩
  · rw [hnext] at hnone ⊢
    rcases g.lookPayload_cases header arrived rest with ⟨frame, hframe⟩ | ⟨hlook, hshort⟩
    · rw [hframe] at hnone
      cases hnone
    · rw [hlook]
      exact .inr ⟨header, rfl, hshort⟩
  · rw [hrefused] at hnone
    cases hnone
  · -- a header that is not complete leaves nothing behind it
    rw [HasRead, hpending] at h
    obtain ⟨hfed, hrest⟩ := h.1.feed stream
    rw [hfed.header?_eq, Option.map_eq_none_iff, Header.read?_eq_none_iff, List.length_append,
      List.length_take] at hheader
    rw [hleft, hrest]
    exact .inl (List.drop_of_length_le (by omega))

/-! ### A look at the end -/

theorem nextAtEnd_of_ne (h : (f.next stream).result ≠ .ok none) : f.nextAtEnd stream = f.next stream := by
  unfold nextAtEnd
  dsimp only
  split
  · next hnone => exact absurd hnone h
  · rfl

/-- The end of a stream changes nothing but the result of a look that finds nothing. -/
theorem nextAtEnd_eq (f : Framer) (stream : Bytes) :
    f.nextAtEnd stream = { f.next stream with result := (f.nextAtEnd stream).result } := by
  unfold nextAtEnd
  dsimp only
  split
  · split <;> rfl
  · rfl

theorem nextAtEnd_of_none (h : (f.next stream).result = .ok none) :
    (f.nextAtEnd stream).result = if (f.next stream).framer.isInsideFrame || !(f.next stream).left.isEmpty
      then .error .truncated else .ok none := by
  simp only [nextAtEnd, h]
  split
  · rfl
  · exact h

/-- A stream that ends must end behind a whole frame or a refused header. -/
theorem HasRead.result_nextAtEnd (h : f.HasRead w) (hnone : (f.next stream).result = .ok none) :
    (f.nextAtEnd stream).result = if w ++ stream = [] then .ok none else .error .truncated := by
  obtain ⟨-, ⟨-, -, w', hw', hjoined⟩ | ⟨item, hfound, -⟩⟩ := h.next stream
  · rw [nextAtEnd_of_none hnone, hjoined]
    by_cases hempty : w' ++ (f.next stream).left = []
    · obtain ⟨rfl, hleft⟩ := List.append_eq_nil_iff.1 hempty
      rw [if_pos hempty, hw'.isInsideFrame_eq, hleft]
      rfl
    · rw [if_neg hempty]
      refine if_pos ?_
      rw [Bool.or_eq_true, hw'.isInsideFrame_iff, Bool.not_eq_true', List.isEmpty_eq_false_iff]
      rw [List.append_eq_nil_iff] at hempty
      exact not_and_or.1 hempty
  · rw [Look.findings, hnone] at hfound
    cases hfound

/-- What a look has found, apart from a stream that ends too early. -/
def Look.settled (look : Look) : List Finding :=
  match look.result with
  | .error .truncated => []
  | _ => look.findings

theorem settled_nextAtEnd (f : Framer) (stream : Bytes) :
    (f.nextAtEnd stream).settled = (f.next stream).findings := by
  by_cases hnone : (f.next stream).result = .ok none
  · have hfound : (f.next stream).findings = [] := by rw [Look.findings, hnone]
    have hend := nextAtEnd_of_none hnone
    split at hend <;> rw [hfound, Look.settled, Look.findings, hend]
  · rw [nextAtEnd_of_ne hnone, Look.settled]
    split
    · next htruncated => exact absurd htruncated (f.next_ne_truncated stream)
    · rfl

/-! ### Taking frames until the stream ends -/

theorem nextAtEnd_of_some {frame : Frame} (h : (f.nextAtEnd stream).result = .ok (some frame)) :
    f.nextAtEnd stream = f.next stream := by
  refine nextAtEnd_of_ne fun hnone => ?_
  rw [nextAtEnd_of_none hnone] at h
  split at h <;> cases h

private theorem length_nextAtEnd_lt {frame : Frame} (h : (f.nextAtEnd stream).result = .ok (some frame)) :
    (f.nextAtEnd stream).left.length + (f.nextAtEnd stream).framer.inHand < stream.length + f.inHand := by
  have hnext := nextAtEnd_of_some h
  rw [hnext] at h ⊢
  exact length_next_lt h

/-- Takes frames from the front of a stream that has ended, until there is none. -/
def drainAtEnd (f : Framer) (stream : Bytes) : List Look :=
  match _ : (f.nextAtEnd stream).result with
  | .ok (some _) => f.nextAtEnd stream :: (f.nextAtEnd stream).framer.drainAtEnd (f.nextAtEnd stream).left
  | _ => [f.nextAtEnd stream]
termination_by stream.length + f.inHand
decreasing_by exact length_nextAtEnd_lt ‹_›

/-- A stream that begins with a frame spells frames exactly when what follows it does. -/
private theorem spells_frames_iff {g : Grammar Finding} {bytes rest : Bytes} {frame : Frame}
    (hfirst : g.first? bytes = some (.ok frame, rest)) :
    (∃ frames : List Frame, g.Spells bytes (frames.map .ok)) ↔
      ∃ frames : List Frame, g.Spells rest (frames.map .ok) := by
  unfold Grammar.Spells
  rw [Grammar.parse_of_some hfirst]
  constructor
  · rintro ⟨frames, hparse⟩
    obtain ⟨hitems, hleft⟩ := Prod.mk.inj hparse
    obtain ⟨first, frames, rfl, -, hrest⟩ := List.map_eq_cons_iff.1 hitems.symm
    exact ⟨frames, Prod.ext hrest.symm hleft⟩
  · rintro ⟨frames, hparse⟩
    exact ⟨frame :: frames, by rw [hparse]; rfl⟩

/-- Taking frames until the stream ends is clean exactly when the stream spells frames. -/
theorem HasRead.drainAtEnd (h : f.HasRead w) (stream : Bytes) :
    ∃ last, (f.drainAtEnd stream).getLast? = some last ∧
      (last.result = .ok none ↔
        ∃ frames : List Frame, (Frame.grammar f.limit).Spells (w ++ stream) (frames.map .ok)) := by
  fun_induction Framer.drainAtEnd f stream generalizing w with
  | case1 f stream frame hframe ih =>
    have hnext := nextAtEnd_of_some hframe
    rw [hnext] at hframe ih ⊢
    obtain ⟨hlimit, ⟨hnone, -⟩ | ⟨item, hfound, hfresh, hfirst⟩⟩ := h.next stream
    · rw [Look.findings, hframe] at hnone
      cases hnone
    · rw [Look.findings, hframe] at hfound
      cases hfound
      obtain ⟨last, hlast, hclean⟩ := ih hfresh
      rw [hlimit, List.nil_append] at hclean
      refine ⟨last, ?_, hclean.trans (spells_frames_iff hfirst).symm⟩
      rw [List.getLast?_cons, hlast]
      rfl
  | case2 f stream hother =>
    refine ⟨f.nextAtEnd stream, rfl, ?_⟩
    obtain ⟨-, ⟨hfound, hfirst, -⟩ | ⟨item, hfound, -, hfirst⟩⟩ := h.next stream
    · -- there is no further item, so the stream spells frames only if nothing is left
      rw [h.result_nextAtEnd (Look.result_of_findings hfound)]
      constructor
      · intro hclean
        split at hclean
        · next hempty =>
          refine ⟨[], ?_⟩
          rw [hempty] at hfirst ⊢
          exact Grammar.spells_nil hfirst
        · cases hclean
      · rintro ⟨frames, hspells⟩
        rw [Grammar.Spells, Grammar.parse_of_none hfirst] at hspells
        exact if_pos (Prod.mk.inj hspells).2
    · -- the item is a refused header
      cases item with
      | ok frame =>
        have hframe := Look.result_of_frame hfound
        rw [nextAtEnd_of_ne (by rw [hframe]; exact fun h => by cases h)] at hother
        exact absurd hframe (hother frame)
      | error e =>
        have herror := Look.result_of_error hfound
        rw [nextAtEnd_of_ne (by rw [herror]; exact fun h => by cases h), herror]
        refine iff_of_false (fun h => by cases h) ?_
        rintro ⟨frames, hspells⟩
        rw [Grammar.Spells, Grammar.parse_of_some hfirst] at hspells
        obtain ⟨_, _, _, hfirst, -⟩ := List.map_eq_cons_iff.1 (Prod.mk.inj hspells).1.symm
        cases hfirst

/-! ### Desks -/

/-- What happens at a desk when the stream may also turn out to have ended. -/
inductive Visit where
  | act (action : Action)
  | lookAtEnd

/-- What a visit comes down to: a look at the end is a look. -/
def Visit.action : Visit → Action
  | .act action => action
  | .lookAtEnd => .look

/-- The bytes that arrive with a visit. -/
def Visit.arriving : Visit → Bytes
  | .act (.push bytes) => bytes
  | _ => []

namespace Desk

def visit (d : Desk) : Visit → Desk
  | .act action => d.act action
  | .lookAtEnd =>
    let look := d.framer.nextAtEnd d.stream
    { d with framer := look.framer, stream := look.left, found := d.found ++ look.settled }

def visitAll (d : Desk) (visits : List Visit) : Desk := visits.foldl visit d

theorem visit_eq (d : Desk) (visit : Visit) : d.visit visit = d.act visit.action := by
  cases visit with
  | act action => rfl
  | lookAtEnd =>
    show ({ d with framer := _, stream := _, found := _ } : Desk) = _
    rw [settled_nextAtEnd, nextAtEnd_eq]
    rfl

theorem visitAll_eq (d : Desk) (visits : List Visit) :
    d.visitAll visits = d.actAll (visits.map Visit.action) := by
  induction visits generalizing d with
  | nil => rfl
  | cons visit visits ih =>
    show (d.visit visit).visitAll visits = (d.act visit.action).actAll (visits.map Visit.action)
    rw [visit_eq, ih]

theorem pushed_visit (d : Desk) (visit : Visit) : (d.visit visit).pushed = d.pushed ++ visit.arriving := by
  match visit with
  | .act (.push bytes) => rfl
  | .act .look | .lookAtEnd => exact (List.append_nil _).symm
  | .act (.put frame) =>
    refine Eq.trans ?_ (List.append_nil _).symm
    show (d.act (.put frame)).pushed = d.pushed
    exact (readsAs_put d frame).2.1

theorem pushed_visitAll (d : Desk) (visits : List Visit) :
    (d.visitAll visits).pushed = d.pushed ++ visits.flatMap Visit.arriving := by
  induction visits generalizing d with
  | nil => exact (List.append_nil _).symm
  | cons visit visits ih =>
    show ((d.visit visit).visitAll visits).pushed = _
    rw [ih, pushed_visit, List.flatMap_cons, List.append_assoc]

theorem found_visit (d : Desk) (visit : Visit) : d.found <+: (d.visit visit).found := by
  rw [visit_eq]
  cases visit.action with
  | push bytes => exact List.prefix_rfl
  | look => exact List.prefix_append _ _
  | put frame => exact (readsAs_put d frame).2.2.2 ▸ List.prefix_rfl

theorem found_visitAll (d : Desk) (visits : List Visit) : d.found <+: (d.visitAll visits).found := by
  induction visits generalizing d with
  | nil => exact List.prefix_rfl
  | cons visit visits ih => exact (d.found_visit visit).trans (ih (d.visit visit))

variable {d : Desk} {limit : Nat} {done w : Bytes}

theorem Follows.visitAll (h : d.Follows limit done w) (visits : List Visit) :
    ∃ done' w', (d.visitAll visits).Follows limit done' w' := by
  rw [visitAll_eq]
  exact h.actAll _

/-- What the stream says behind the bytes of the findings. -/
theorem Follows.parse_pushed (h : d.Follows limit done w) :
    (Frame.grammar limit).parse d.pushed =
      (d.found ++ ((Frame.grammar limit).parse (w ++ d.stream)).1,
        ((Frame.grammar limit).parse (w ++ d.stream)).2) := by
  rw [h.pushed_eq, List.append_assoc, h.spells.parse_append]

theorem Follows.first?_of_none (h : d.Follows limit done w)
    (hnone : (d.framer.next d.stream).result = .ok none) :
    (Frame.grammar limit).first? (w ++ d.stream) = none :=
  h.look.2 (by rw [Look.findings, hnone])

/-- The next item at a desk is found once its bytes have arrived, whatever else is done there in between. -/
theorem Follows.found_later (h : d.Follows limit done w) (later : List Visit) {item : Finding} {rest : Bytes}
    (hitem : (Frame.grammar limit).first? (w ++ d.stream ++ later.flatMap Visit.arriving) =
      some (item, rest)) :
    d.found ++ [item] <+: ((d.visitAll later).act .look).found := by
  obtain ⟨done', w', h'⟩ := h.visitAll later
  have hwhole : ((Frame.grammar limit).parse (d.visitAll later).pushed).1 =
      d.found ++ item :: ((Frame.grammar limit).parse rest).1 := by
    rw [pushed_visitAll, h.pushed_eq, List.append_assoc, List.append_assoc, h.spells.parse_append,
      ← List.append_assoc w, Grammar.parse_of_some hitem]
  have hitems : d.found ++ [item] <+: ((Frame.grammar limit).parse (d.visitAll later).pushed).1 := by
    rw [hwhole]
    exact ⟨_, List.append_assoc _ _ _⟩
  obtain ⟨-, ⟨hnone, -⟩ | ⟨next, hnext, -⟩⟩ := h'.hasRead.next (d.visitAll later).stream
  · -- nothing is left to be found
    rw [h'.parse_pushed, Grammar.parse_of_none (h'.look.2 hnone)] at hitems
    show _ <+: (d.visitAll later).found ++ ((d.visitAll later).framer.next (d.visitAll later).stream).findings
    rw [hnone]
    exact hitems
  · -- both lists are beginnings of what the stream says, and one more has been found
    obtain ⟨_, _, h''⟩ := h'.act .look
    have hfound : ((d.visitAll later).act .look).found <+:
        ((Frame.grammar limit).parse ((d.visitAll later).act .look).pushed).1 := by
      rw [h''.parse_pushed]
      exact List.prefix_append _ _
    refine List.prefix_of_prefix_length_le hitems hfound ?_
    have hgrown := (d.found_visitAll later).length_le
    show _ ≤ ((d.visitAll later).found ++
      ((d.visitAll later).framer.next (d.visitAll later).stream).findings).length
    rw [hnext, List.length_append, List.length_append, List.length_singleton, List.length_singleton]
    omega

end Desk

/-- A look at the end of a stream, at any time, changes the framer and the stream as any other look does, and
finds the same frame or refused header.  Where there is none, the end is clean if the bytes that have arrived
are whole frames and refused headers.  Otherwise the next frame is cut, and it is found once the missing bytes
have arrived.  So taking frames until the stream ends is clean exactly when the stream consists of the wires
of frames within the limit. -/
theorem judges_end (limit : Nat) (visits : List Visit) :
    let d := (Desk.start limit).visitAll visits
    let look := d.framer.next d.stream
    let last := d.framer.nextAtEnd d.stream
    let cut := ((Frame.grammar limit).parse d.pushed).2
    (last.framer = look.framer ∧ last.left = look.left ∧ last.arrived = look.arrived) ∧
      (look.result ≠ .ok none → last.result = look.result) ∧
      (look.result = .ok none → last.result = if cut = [] then .ok none else .error .truncated) ∧
      (last.result = .error .truncated →
        ∀ (later : List Visit) (item : Finding) (rest : Bytes),
          (Frame.grammar limit).first? (cut ++ later.flatMap Visit.arriving) = some (item, rest) →
          d.found ++ [item] <+: (((d.visit .lookAtEnd).visitAll later).act .look).found) ∧
      ((∀ item ∈ d.found, ∃ f, item = .ok f) ∧
          (d.framer.drainAtEnd d.stream).getLast?.map Look.result = some (.ok none) ↔
        ∃ (frames : List Frame) (wires : List Bytes), (∀ f ∈ frames, f.header.length ≤ limit) ∧
          wires.map Frame.clearReserved = frames.map Frame.toBytes ∧ d.pushed = wires.flatten) := by
  intro d look last cut
  obtain ⟨done, w, h⟩ : ∃ done w, d.Follows limit done w := (Desk.follows_start limit).visitAll visits
  have hlast : last = { look with result := last.result } := nextAtEnd_eq d.framer d.stream
  have hcut : look.result = .ok none → cut = w ++ d.stream := by
    intro hnone
    show ((Frame.grammar limit).parse d.pushed).2 = _
    rw [h.parse_pushed, Grammar.parse_of_none (h.first?_of_none hnone)]
  refine ⟨by rw [hlast]; exact ⟨rfl, rfl, rfl⟩, fun hne => congrArg Look.result (nextAtEnd_of_ne hne),
    ?_, ?_, ?_⟩
  · intro hnone
    rw [hcut hnone]
    exact h.hasRead.result_nextAtEnd hnone
  · intro htruncated later item rest hitem
    have hnone : look.result = .ok none := by
      by_cases hne : look.result = .ok none
      · exact hne
      · rw [show last = look from nextAtEnd_of_ne hne] at htruncated
        exact absurd htruncated (d.framer.next_ne_truncated d.stream)
    rw [hcut hnone] at hitem
    exact h.found_later (.lookAtEnd :: later) hitem
  · obtain ⟨final, hfinal, hclean⟩ := h.hasRead.drainAtEnd d.stream
    rw [h.limit_eq, Frame.grammar_min] at hclean
    rw [hfinal, Option.map_some, Option.some_inj, hclean]
    constructor
    · rintro ⟨hfound, frames, hspells⟩
      obtain ⟨before, hbefore⟩ : ∃ before : List Frame, d.found = before.map .ok := by
        rcases Finding.frames_or_error d.found with hframes | ⟨before, e, rest, herror⟩
        · exact hframes
        · obtain ⟨f, hf⟩ := hfound (.error e) (herror ▸ List.mem_append_right _ List.mem_cons_self)
          cases hf
      have hall : (Frame.grammar limit).Spells d.pushed ((before ++ frames).map .ok) := by
        rw [h.pushed_eq, List.append_assoc, List.map_append, ← hbefore]
        exact h.spells.append hspells
      obtain ⟨hlimit, wires, hwires, hcleared⟩ := Frame.exists_wires hall
      exact ⟨_, wires, hlimit, hcleared, hwires.symm⟩
    · rintro ⟨frames, wires, hlimit, hcleared, hwires⟩
      have hspells := Frame.spells_wires hlimit hcleared
      rw [← hwires, Grammar.Spells, h.parse_pushed] at hspells
      obtain ⟨hitems, hleft⟩ := Prod.mk.inj hspells
      obtain ⟨before, after, -, hbefore, hafter⟩ := List.map_eq_append_iff.1 hitems.symm
      refine ⟨fun item hitem => ?_, after, Prod.ext hafter.symm hleft⟩
      rw [← hbefore] at hitem
      obtain ⟨f, -, rfl⟩ := List.mem_map.1 hitem
      exact ⟨f, rfl⟩

/-- A frame that is cut three times, the last time in its payload.  It is complete with its last byte. -/
theorem judges_end_cut_frame :
    let frame : Frame := ⟨⟨2, 7, 1, 5, by decide, by decide⟩, [10, 20], rfl⟩
    let visits : List Visit := [.act (.push [0, 0, 2, 7]), .lookAtEnd, .act (.push [1, 128, 0, 0, 5, 10])]
    let later : List Visit := [.act (.push []), .act (.push [20])]
    let cut := (Desk.start 4).visitAll visits
    let whole := (Desk.start 4).visitAll (visits ++ later)
    (cut.framer.nextAtEnd cut.stream).result = .error .truncated ∧
      [.ok frame] <+: (((cut.visit .lookAtEnd).visitAll later).act .look).found ∧
      (whole.framer.drainAtEnd whole.stream).getLast?.map Look.result = some (.ok none) := by
  intro frame visits later cut whole
  have htruncated : (cut.framer.nextAtEnd cut.stream).result = .error .truncated := rfl
  obtain ⟨-, -, -, hlater, -⟩ := judges_end 4 visits
  obtain ⟨-, -, -, -, hclean⟩ := judges_end 4 (visits ++ later)
  have hcut : ((Frame.grammar 4).parse cut.pushed).2 = [0, 0, 2, 7, 1, 128, 0, 0, 5, 10] :=
    congrArg Prod.snd (Grammar.parse_of_none rfl)
  refine ⟨htruncated, hlater htruncated later (.ok frame) [] (by rw [hcut]; rfl), (hclean.2 ?_).2⟩
  exact ⟨[frame], [[0, 0, 2, 7, 1, 128, 0, 0, 5, 10, 20]], by decide, by decide, rfl⟩

/-- What a framer keeps is bounded at any time.  It never has a part of a header beside a header that waits
for its payload, nor a whole header that has not been looked at, and the header that waits is within the
limit.  It is inside a frame exactly when it has consumed more bytes than those of its findings.  When a look
finds nothing, the stream is used up, or it holds less than the payload of the header that waits. -/
theorem keeps_less_than_limit (limit : Nat) (visits : List Visit) :
    let d := (Desk.start limit).visitAll visits
    let done := d.pushed.take (d.found.map Finding.span).sum
    let after := d.visit (.act .look)
    d.framer.limit = min limit longestPayload ∧
      (d.framer.pending.isSome → d.framer.reader.isIdle) ∧
      (∀ header, d.framer.pending = some header → header.length ≤ d.framer.limit) ∧
      d.framer.reader.isComplete = false ∧
      (Frame.grammar limit).Spells done d.found ∧ d.stream <:+ d.pushed ∧
      (d.framer.isInsideFrame ↔ done.length < d.pushed.length - d.stream.length) ∧
      ((d.framer.next d.stream).result = .ok none →
        (after.stream = [] ∨
          ∃ header, after.framer.pending = some header ∧ after.stream.length < header.length) ∧
        (after.stream = [] ∨ after.stream.length < d.framer.limit)) := by
  intro d done after
  obtain ⟨bytes, w, h⟩ : ∃ bytes w, d.Follows limit bytes w := (Desk.follows_start limit).visitAll visits
  obtain ⟨_, w', h'⟩ : ∃ bytes w, after.Follows limit bytes w := h.act .look
  have hdone : done = bytes := by
    show d.pushed.take _ = bytes
    rw [← h.length_done, h.pushed_eq, List.append_assoc, List.take_left]
  have hconsumed : d.pushed.length - d.stream.length = bytes.length + w.length := by
    rw [h.pushed_eq, List.length_append, List.length_append, Nat.add_sub_cancel]
  refine ⟨h.limit_eq, h.hasRead.isIdle_of_pending, fun header => h.hasRead.pending_le,
    h.hasRead.not_isComplete, hdone ▸ h.spells, ⟨bytes ++ w, h.pushed_eq.symm⟩, ?_, ?_⟩
  · rw [h.hasRead.isInsideFrame_iff, hdone, hconsumed, ← List.length_pos_iff]
    omega
  · intro hnone
    have hwaits : after.stream = [] ∨ ∃ header, after.framer.pending = some header ∧
        after.stream.length < header.length := h.hasRead.waits hnone
    refine ⟨hwaits, hwaits.imp_right ?_⟩
    rintro ⟨header, hpending, hshort⟩
    have hle := h'.hasRead.pending_le hpending
    rw [h'.limit_eq, ← h.limit_eq] at hle
    omega

/-- A framer that has taken a header of two bytes and holds one of them. -/
theorem keeps_less_than_limit_waiting :
    let d := (Desk.start 4).visitAll [.act (.push [0, 0, 2, 7, 1, 0, 0, 0, 5, 10]), .act .look]
    (d.framer.next d.stream).result = .ok none ∧ d.framer.pending.isSome ∧ d.framer.reader.isIdle ∧
      ((d.visit (.act .look)).stream = [] ∨ (d.visit (.act .look)).stream.length < d.framer.limit) := by
  intro d
  have hnone : (d.framer.next d.stream).result = .ok none := rfl
  obtain ⟨-, hidle, -, -, -, -, -, hkept⟩ :=
    keeps_less_than_limit 4 [.act (.push [0, 0, 2, 7, 1, 0, 0, 0, 5, 10]), .act .look]
  exact ⟨hnone, rfl, hidle rfl, (hkept hnone).2⟩

end Framer

end SecureStream
