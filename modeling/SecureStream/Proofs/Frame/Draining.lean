import SecureStream.Proofs.Frame.Items

/-!
# Frames that are written and read back

Frames within the limit can be written one after the other (`Framer.foldlM_put`), and the stream spells just
these frames (`Frame.spells_frames`).  A framer that takes all frames from the stream after each piece finds
them in order, however the stream is cut, and ends between two frames (`Framer.drainAll_frames`).
-/

namespace SecureStream

/-! ### Writing -/

theorem Header.read?_toBytes_append (h : Header) (more : Bytes) :
    read? (h.toBytes ++ more) = some (h, more) := by
  have hlength : Bytes.ofBigEndian (Bytes.bigEndian 3 h.length) = h.length :=
    Bytes.ofBigEndian_bigEndian (Nat.lt_of_le_of_lt h.length_le (by decide))
  have hstream : Bytes.ofBigEndian (Bytes.bigEndian 4 h.streamId) = h.streamId :=
    Bytes.ofBigEndian_bigEndian (Nat.lt_trans h.streamId_lt (by decide))
  have hfields : ofFields (Bytes.ofBigEndian (Bytes.bigEndian 3 h.length)) h.kind h.flags
      (Bytes.ofBigEndian (Bytes.bigEndian 4 h.streamId)) = h := by
    unfold ofFields ofLength
    obtain ⟨length, kind, flags, streamId, hle, hlt⟩ := h
    simp only [Header.mk.injEq, true_and]
    constructor
    · rw [hlength]
      exact Nat.mod_eq_of_lt (Nat.lt_succ_of_le hle)
    · rw [hstream]
      exact Nat.mod_eq_of_lt hlt
  simp only [Bytes.bigEndian] at hfields
  simp only [toBytes, Bytes.bigEndian, List.cons_append, List.nil_append, read?, ← ofFields_eq_ofParts, hfields]

namespace Frame

variable {limit : Nat} {frames : List Frame}

theorem spells_frames (h : ∀ f ∈ frames, f.header.length ≤ limit) :
    (grammar limit).Spells (frames.flatMap toBytes) (frames.map .ok) := by
  induction frames with
  | nil => exact Grammar.spells_nil rfl
  | cons f frames ih =>
    have hlimit : ¬ limit < f.header.length := Nat.not_lt.2 (h f (List.mem_cons_self ..))
    refine Grammar.spells_cons ?_ (ih fun g hg => h g (List.mem_cons_of_mem _ hg))
    show first? limit (f.toBytes ++ frames.flatMap toBytes) = some (.ok f, frames.flatMap toBytes)
    refine first?_frame f ?_ hlimit
    rw [toBytes, List.append_assoc, Header.read?_toBytes_append]

end Frame

namespace Framer

variable {limit : Nat} {frames : List Frame}

theorem foldlM_put (h : ∀ f ∈ frames, f.header.length ≤ limit) (stream : Bytes) :
    frames.foldlM (fun stream f => (ofLimit limit).put f stream) stream =
      .ok (stream ++ frames.flatMap Frame.toBytes) := by
  induction frames generalizing stream with
  | nil => exact congrArg Except.ok (List.append_nil _).symm
  | cons f frames ih =>
    have hlimit : ¬ (ofLimit limit).limit < f.header.length := by
      have hle := h f (List.mem_cons_self ..)
      have hlongest := f.header.length_le
      show ¬ min limit longestPayload < _
      omega
    have hput : (ofLimit limit).put f stream = .ok (stream ++ f.toBytes) := if_neg hlimit
    rw [List.foldlM_cons, hput, List.flatMap_cons, ← List.append_assoc]
    exact ih (fun g hg => h g (List.mem_cons_of_mem _ hg)) _

/-! ### Reading -/

variable {f : Framer} {w stream left : Bytes}

theorem drain_of_none (h : (f.next stream).result = .ok none) : f.drain stream = [f.next stream] := by
  rw [drain]
  split
  · next hsome =>
    rw [h] at hsome
    cases hsome
  · rfl

theorem drain_of_some {frame : Frame} (h : (f.next stream).result = .ok (some frame)) :
    f.drain stream = f.next stream :: (f.next stream).framer.drain (f.next stream).left := by
  rw [drain]
  split
  · rfl
  · next hnone => exact absurd h (hnone frame)

theorem Look.result_of_findings {look : Look} (h : look.findings = []) : look.result = .ok none := by
  unfold findings at h
  split at h
  · next hresult => exact hresult
  · cases h
  · cases h

theorem Look.result_of_frame {look : Look} {frame : Frame} (h : look.findings = [.ok frame]) :
    look.result = .ok (some frame) := by
  unfold findings at h
  split at h
  · cases h
  · next hresult =>
    cases h
    exact hresult
  · cases h

/-- Looking until there is no frame finds all frames of a stream without errors.  The framer then has what
is left. -/
theorem HasRead.drain (h : f.HasRead w)
    (hparse : (Frame.grammar f.limit).parse (w ++ stream) = (frames.map .ok, left)) :
    (f.drain stream).flatMap Look.findings = frames.map .ok ∧
      ∃ last, (f.drain stream).getLast? = some last ∧ last.framer.limit = f.limit ∧
        ∃ w', last.framer.HasRead w' ∧ w' ++ last.left = left := by
  -- on the frames that are still to come: the next look finds the first of them, or nothing when there is
  -- none
  induction frames generalizing f w stream with
  | nil =>
    obtain ⟨hlimit, ⟨hnone, hfirst, w', hw', hjoined⟩ | ⟨item, -, -, hfirst⟩⟩ := h.next stream
    · rw [Grammar.parse_of_none hfirst] at hparse
      obtain ⟨-, rfl⟩ := Prod.mk.inj hparse
      rw [drain_of_none (Look.result_of_findings hnone)]
      refine ⟨?_, f.next stream, rfl, hlimit, w', hw', hjoined.symm⟩
      rw [List.flatMap_cons, hnone]
      rfl
    · rw [Grammar.parse_of_some hfirst] at hparse
      cases (Prod.mk.inj hparse).1
  | cons frame frames ih =>
    obtain ⟨hlimit, ⟨-, hfirst, -⟩ | ⟨item, hfound, hfresh, hfirst⟩⟩ := h.next stream
    · rw [Grammar.parse_of_none hfirst] at hparse
      cases (Prod.mk.inj hparse).1
    · rw [Grammar.parse_of_some hfirst] at hparse
      obtain ⟨hitems, hleft⟩ := Prod.mk.inj hparse
      obtain ⟨rfl, hrest⟩ := List.cons.inj hitems
      rw [← hlimit] at hrest hleft
      have hnext : (Frame.grammar (f.next stream).framer.limit).parse ([] ++ (f.next stream).left) =
          (frames.map .ok, left) := Prod.ext hrest hleft
      obtain ⟨hall, last, hlast, hsame, hread⟩ := ih hfresh hnext
      rw [drain_of_some (Look.result_of_frame hfound)]
      refine ⟨?_, last, ?_, hsame.trans hlimit, hread⟩
      · rw [List.flatMap_cons, hall, hfound]
        rfl
      · rw [List.getLast?_cons, hlast]
        rfl

theorem drainAll_cons {piece : Bytes} {pieces : List Bytes} {last : Look}
    (hlast : (f.drain (stream ++ piece)).getLast? = some last) :
    f.drainAll stream (piece :: pieces) =
      (f.drain (stream ++ piece) ++ (last.framer.drainAll last.left pieces).1,
        (last.framer.drainAll last.left pieces).2) := by
  rw [drainAll]
  dsimp only
  rw [hlast]
  rfl

theorem HasRead.drainAll (h : f.HasRead w) (hnone : (Frame.grammar f.limit).first? (w ++ stream) = none)
    {pieces : List Bytes}
    (hparse : (Frame.grammar f.limit).parse (w ++ stream ++ pieces.flatten) = (frames.map .ok, left)) :
    (f.drainAll stream pieces).1.flatMap Look.findings = frames.map .ok ∧
      ∃ w', (f.drainAll stream pieces).2.1.HasRead w' ∧ w' ++ (f.drainAll stream pieces).2.2 = left := by
  induction pieces generalizing f w stream frames with
  | nil =>
    rw [List.flatten_nil, List.append_nil, Grammar.parse_of_none hnone] at hparse
    obtain ⟨hframes, rfl⟩ := Prod.mk.inj hparse
    exact ⟨hframes, w, h, rfl⟩
  | cons piece pieces ih =>
    have hend := (Frame.grammar f.limit).first?_left (w ++ (stream ++ piece))
    rw [List.flatten_cons, ← List.append_assoc, Grammar.parse_append, List.append_assoc w] at hparse
    rcases hpiece : (Frame.grammar f.limit).parse (w ++ (stream ++ piece)) with ⟨items, kept⟩
    rw [hpiece] at hparse hend
    obtain ⟨hframes, hleft⟩ := Prod.mk.inj hparse
    -- the frames that are complete with this piece, and those that later pieces complete
    obtain ⟨first, rest, rfl, rfl, hrest⟩ := List.map_eq_append_iff.1 hframes.symm
    obtain ⟨hfound, last, hlast, hlimit, w', hw', rfl⟩ := h.drain hpiece
    rw [← hlimit] at hend hrest hleft
    obtain ⟨hall, hread⟩ := ih hw' hend (Prod.ext hrest.symm hleft)
    rw [drainAll_cons hlast]
    refine ⟨?_, hread⟩
    rw [List.flatMap_append, hfound, hall, List.map_append]

theorem HasRead.isInsideFrame_eq (h : f.HasRead []) : f.isInsideFrame = false := by
  unfold HasRead at h
  unfold isInsideFrame
  cases hpending : f.pending with
  | none =>
    rw [hpending] at h
    rw [h.1.isIdle_iff.2 rfl]
    rfl
  | some header =>
    rw [hpending] at h
    cases h.2.1

/-- Frames that were written are read back, in order, from any pieces of the stream. -/
theorem drainAll_frames (h : ∀ f ∈ frames, f.header.length ≤ limit) {pieces : List Bytes}
    (hpieces : pieces.flatten = frames.flatMap Frame.toBytes) :
    ((ofLimit limit).drainAll [] pieces).1.flatMap Look.findings = frames.map .ok ∧
      ((ofLimit limit).drainAll [] pieces).2.1.isInsideFrame = false ∧
        ((ofLimit limit).drainAll [] pieces).2.2 = [] := by
  have hspells : (Frame.grammar (min limit longestPayload)).parse ([] ++ [] ++ pieces.flatten) =
    (frames.map .ok, []) := by
    rw [Frame.grammar_min, hpieces]
    exact Frame.spells_frames h
  obtain ⟨hfound, w', hw', hleft⟩ := (hasRead_ofLimit limit).drainAll rfl hspells
  obtain ⟨rfl, hempty⟩ := List.append_eq_nil_iff.1 hleft
  exact ⟨hfound, hw'.isInsideFrame_eq, hempty⟩

end Framer

end SecureStream
