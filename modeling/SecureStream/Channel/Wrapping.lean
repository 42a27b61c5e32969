import SecureStream.Buffer.Scratch
import SecureStream.Channel.Link

/-!
# Wrapping

All of an input is wrapped into one buffer, in as many calls of the engine as it takes. The buffer grows whenever the
engine finds no room. An engine that is closed ends the wrapping of a handshake or of an alert; application data it
must not refuse.

* `Link.work_wrapNew_le`: wrapping never raises the work of the engine.
* `Link.wrapNew_nil`: wrapping nothing lowers the work, or gives no output and asks for no more wrapping.
-/

namespace SecureStream.Link

variable {E S : Type} [Engine E]

/-- Wraps the input into a buffer that may hold output already. -/
def wrapAll (purpose : Purpose) (k : Link E S) (input : Bytes) (b : Scratch) :
    Except ChannelError (Scratch × Demand) × Link E S :=
  match k.wrap input b.room with
  | (.error e, k) => (.error (.engine .wrap e), k)
  | (.ok r, k) =>
    let filled := b.store r.output r.produced
    match r.verdict with
    | .overflow =>
      match _ : filled.grow with
      | .error e => (.error (.buffer e), k)
      | .ok grown =>
        (k.note (.bufferGrown grown.capacity purpose)).wrapAll purpose (input.drop r.consumed) grown
    | .ok =>
      if _ : (input.drop r.consumed).isEmpty then (.ok (filled, r.demand), k)
      else if _ : r.consumed = 0 then (.error (.noProgress .wrap), k)
      else k.wrapAll purpose (input.drop r.consumed) filled
    | .closed => if purpose = .application then (.error (.writeRejected .closed), k) else (.ok (filled, r.demand), k)
    | .underflow =>
      (.error (if purpose = .application then .writeRejected .underflow else .unexpected .wrap .underflow), k)
-- a call either asks for a larger buffer or uses up input
termination_by (b.limit - b.capacity) + input.length
decreasing_by
  · have hgrown := Scratch.limit_sub_lt_of_grow ‹_›
    simp only [filled, Scratch.limit_store, Scratch.capacity_store] at hgrown
    simp only [List.length_drop]
    omega
  · have hrest : 0 < (input.drop r.consumed).length := List.length_pos_iff.mpr (by simp_all)
    simp only [List.length_drop] at hrest
    simp only [Scratch.limit_store, Scratch.capacity_store, List.length_drop]
    omega

/-- Wraps the input into a new buffer, which is frozen in the end, and gives the output and what the handshake needs
next. -/
def wrapNew (pool : Pool) (purpose : Purpose) (capacity : Nat) (k : Link E S) (input : Bytes) :
    Except ChannelError (Bytes × Demand) × Link E S :=
  match Scratch.ofCapacity? capacity pool with
  | .error e => (.error (.buffer e), k)
  | .ok b =>
    match k.wrapAll purpose input b with
    | (.error e, k) => (.error e, k)
    | (.ok (b, demand), k) => (.ok (b.freeze, demand), k)

/-- Of a buffer that is frozen only its bytes matter. -/
theorem wrapNew_eq_bytes (pool : Pool) (purpose : Purpose) (capacity : Nat) (k : Link E S) (input : Bytes) :
    k.wrapNew pool purpose capacity input =
      match Scratch.ofCapacity? capacity pool with
      | .error e => (.error (.buffer e), k)
      | .ok b =>
        match k.wrapAll purpose input b with
        | (.error e, k) => (.error e, k)
        | (.ok (b, demand), k) => (.ok (b.bytes, demand), k) := by
  unfold wrapNew
  simp only [Scratch.freeze_eq]

theorem work_wrapAll_le (purpose : Purpose) (k : Link E S) (input : Bytes) (b : Scratch) :
    (k.wrapAll purpose input b).2.work ≤ k.work := by
  fun_induction wrapAll purpose k input b with
  | case3 _ _ _ _ _ h _ _ _ _ ih =>
    rw [work_note] at ih
    exact Nat.le_trans ih (work_le_of_wrap h)
  | case6 _ _ _ _ _ h _ _ _ _ ih => exact Nat.le_trans ih (work_le_of_wrap h)
  | _ => exact work_le_of_wrap ‹_›

private theorem wrapAll_of_done {k k₁ k' : Link E S} {b b' : Scratch} {r : Reply} {demand : Demand}
    (hwrap : k.wrap [] b.room = (.ok r, k₁)) (hverdict : r.verdict = .ok ∨ r.verdict = .closed)
    (h : ((.ok (b.store r.output r.produced, r.demand), k₁) : Except ChannelError (Scratch × Demand) × Link E S) =
      (.ok (b', demand), k')) :
    k'.work < k.work ∨ (b'.bytes = b.bytes ∧ demand ≠ .output ∧ (demand = .task → k'.demand = .task)) := by
  cases h
  exact (wrap_nil hwrap).imp_right fun ⟨hproduced, hdemand⟩ => ⟨by rw [hproduced]; simp, hdemand hverdict⟩

theorem wrapAll_nil {purpose : Purpose} {k k' : Link E S} {b b' : Scratch} {demand : Demand}
    (h : k.wrapAll purpose [] b = (.ok (b', demand), k')) :
    k'.work < k.work ∨ (b'.bytes = b.bytes ∧ demand ≠ .output ∧ (demand = .task → k'.demand = .task)) := by
  generalize hinput : ([] : Bytes) = input at h
  fun_induction wrapAll purpose k input b with
  | case3 k _ b r k₁ hwrap filled _ grown hgrow ih =>
    subst hinput
    have hle := work_wrapAll_le purpose (k₁.note (.bufferGrown grown.capacity purpose)) ([].drop r.consumed) grown
    rw [h, work_note] at hle
    rcases wrap_nil hwrap with hlt | ⟨hproduced, -⟩
    · exact .inl (Nat.lt_of_le_of_lt hle hlt)
    -- no output so far, and growing keeps what the buffer holds
    · have hle₁ := work_le_of_wrap hwrap
      rcases ih (by simp) h with hlt | ⟨hbytes, hrest⟩
      · exact .inl (Nat.lt_of_lt_of_le hlt hle₁)
      · refine .inr ⟨?_, hrest⟩
        have hsame : grown.bytes = filled.bytes := by rw [Scratch.bytes, (Scratch.eq_of_grow hgrow).1]; rfl
        rw [hbytes, hsame]
        simp [filled, hproduced]
  | case4 k _ b r k₁ hwrap _ hverdict =>
    subst hinput
    exact wrapAll_of_done hwrap (.inl hverdict) h
  | case6 _ input _ _ _ _ _ _ hrest => exact absurd (by simp [← hinput]) hrest
  | case8 k _ b r k₁ hwrap _ hverdict =>
    subst hinput
    exact wrapAll_of_done hwrap (.inr hverdict) h
  | _ => cases h

theorem work_wrapNew_le (pool : Pool) (purpose : Purpose) (capacity : Nat) (k : Link E S) (input : Bytes) :
    (k.wrapNew pool purpose capacity input).2.work ≤ k.work := by
  unfold wrapNew
  split
  · exact Nat.le_refl _
  · next b _ =>
    have hle := k.work_wrapAll_le purpose input b
    split <;> (next h => rwa [h] at hle)

theorem wrapNew_nil {pool : Pool} {purpose : Purpose} {capacity : Nat} {k k' : Link E S} {output : Bytes}
    {demand : Demand} (h : k.wrapNew pool purpose capacity [] = (.ok (output, demand), k')) :
    k'.work < k.work ∨ (output = [] ∧ demand ≠ .output ∧ (demand = .task → k'.demand = .task)) := by
  rw [wrapNew_eq_bytes] at h
  split at h
  · cases h
  · next b hb =>
    split at h
    · cases h
    · next hall =>
      cases h
      rw [← Scratch.bytes_of_ofCapacity? hb]
      exact wrapAll_nil hall

end SecureStream.Link
