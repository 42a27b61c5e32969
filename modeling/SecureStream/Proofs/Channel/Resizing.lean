import SecureStream.Proofs.Channel.Likeness

/-!
# Links with other buffers

Whatever the sizes of its buffers, a link whose engine needs certain amounts of room (`Engine.IsMeasured`) comes
to the same result and leaves the same engine and the same session, as long as it can have the buffers at all.
There is one such fact for every function on links that makes a buffer: two links that are alike, with any two
pools, match (`Link.Matches`).

* The loops that ask again with a larger buffer follow `Link.Retries.meet` (`Link.matches_wrapAll`,
  `Link.matches_unwrapStep`, `Link.matches_unwrapAll`).
* The loop over the demands of a handshake makes a new buffer in each turn (`Link.matches_shake`).
* So all that a request does matches (`Link.matches_start`, `Link.matches_read`, `Link.matches_write`).
-/

namespace SecureStream.Link

variable {E S : Type} [Engine E] {k k' : Link E S} {b b' : Scratch} {input : Bytes}

/-! ### Wrapping -/

/-- The bytes that were wrapped, without the buffer that holds them. -/
def unboxed (x : Except ChannelError (Scratch × Demand) × Link E S) :
    Except ChannelError (Bytes × Demand) × Link E S :=
  (x.1.map fun r => (r.1.bytes, r.2), x.2)

theorem wrapNew_eq (pool : Pool) (purpose : Purpose) (capacity : Nat) (k : Link E S) (input : Bytes) :
    k.wrapNew pool purpose capacity input =
      match Scratch.ofCapacity? capacity pool with
      | .error e => (.error (.buffer e), k)
      | .ok b => unboxed (k.wrapAll purpose input b) := by
  rw [wrapNew_eq_bytes]
  rcases Scratch.ofCapacity? capacity pool with e | b
  · rfl
  · dsimp only
    rcases k.wrapAll purpose input b with ⟨_ | _, _⟩ <;> rfl

theorem retries_wrapAll (purpose : Purpose) (input : Bytes) :
    Retries (S := S) (fun e : E => Engine.wrap e input) fun k b => unboxed (k.wrapAll purpose input b) where
  work_le e room := Engine.work_wrap_le e input room
  again k b demand e hask := by
    obtain ⟨after, hwrap, hafter⟩ := exists_wrap hask
    have hover : k.wrapAll purpose input b = _ := wrapAll_of_overflow hwrap
    rcases hgrow : b.grow with cause | grown
    · rw [hgrow] at hover
      exact .inl ⟨cause, after, rfl, congrArg unboxed hover⟩
    · rw [hgrow] at hover
      exact .inr ⟨grown, _, rfl, (Alike.of_note after _).trans hafter, congrArg unboxed hover⟩

variable (hmeasured : Engine.IsMeasured E)

include hmeasured

theorem matches_wrapAll (purpose : Purpose) (input : Bytes) (halike : k.Alike k') (hbytes : b.bytes = b'.bytes) :
    Matches (unboxed (k.wrapAll purpose input b)) (unboxed (k'.wrapAll purpose input b')) := by
  generalize hlength : input.length = length
  induction length using Nat.strongRecOn generalizing k k' b b' input with
  | ind length ih =>
    have hretries := retries_wrapAll (E := E) (S := S) purpose input
    refine hretries.meet hretries (hmeasured.wrap · input) halike hbytes ?_
    intro k₁ k₂ b₁ b₂ answer e hlike _ hask hask' hanswer
    obtain ⟨after, hwrap, hafter⟩ := exists_wrap hask
    obtain ⟨after', hwrap', hafter'⟩ := exists_wrap hask'
    have hnext : after.Alike after' := hafter.trans ((hlike.withEngine e).trans hafter'.symm)
    rw [wrapAll_eq, wrapAll_eq, hwrap, hwrap']
    rcases answer with cause | r
    · exact .error _ hnext
    obtain ⟨hverdict, hstored⟩ := hanswer r rfl
    dsimp only
    cases hr : r.verdict with
    | overflow => exact absurd hr hverdict
    | ok =>
      dsimp only
      by_cases hdone : (input.drop r.consumed).isEmpty = true
      · rw [if_pos hdone, if_pos hdone]
        exact .of_eq (congrArg (fun bytes => Except.ok (bytes, r.demand)) hstored) hnext
      rw [if_neg hdone, if_neg hdone]
      by_cases hstuck : r.consumed = 0
      · rw [if_pos hstuck, if_pos hstuck]
        exact .error _ hnext
      · rw [if_neg hstuck, if_neg hstuck]
        refine ih _ ?_ _ hnext hstored rfl
        have hne : input.drop r.consumed ≠ [] := mt List.isEmpty_iff.2 hdone
        have := List.length_pos_iff.2 hne
        rw [List.length_drop] at this ⊢
        omega
    | closed =>
      dsimp only
      by_cases happlication : purpose = .application
      · rw [if_pos happlication, if_pos happlication]
        exact .error _ hnext
      · rw [if_neg happlication, if_neg happlication]
        exact .of_eq (congrArg (fun bytes => Except.ok (bytes, r.demand)) hstored) hnext
    | underflow => exact .error _ hnext

variable (pool pool' : Pool)

theorem matches_wrapNew (purpose : Purpose) (capacity capacity' : Nat) (input : Bytes) (halike : k.Alike k') :
    Matches (k.wrapNew pool purpose capacity input) (k'.wrapNew pool' purpose capacity' input) := by
  rw [wrapNew_eq, wrapNew_eq]
  rcases hfirst : Scratch.ofCapacity? capacity pool with e | b
  · exact .short e k _
  rcases hsecond : Scratch.ofCapacity? capacity' pool' with e | b'
  · exact .short' _ e k'
  · refine matches_wrapAll hmeasured purpose input halike ?_
    rw [Scratch.bytes_of_ofCapacity? hfirst, Scratch.bytes_of_ofCapacity? hsecond]

section Session

variable [Session S]

theorem matches_fetchOutput (halike : k.Alike k') : Matches (k.fetchOutput pool) (k'.fetchOutput pool') := by
  have hnew := matches_wrapNew hmeasured pool pool' .handshake (pool.cap (Engine.largestRecord k.engine))
    (pool'.cap (Engine.largestRecord k'.engine)) [] halike
  unfold fetchOutput
  generalize k.wrapNew .. = x, k'.wrapNew .. = y at hnew ⊢
  cases hnew with
  | short e after y => exact .short e after _
  | short' x e after => exact .short' _ e after
  | error e hafter => exact .error e hafter
  | ok r hafter =>
    refine .ok r.2 ?_
    split
    · exact hafter
    · exact hafter.enqueue r.1

/-- The answer to an alert is sent piece by piece. -/
theorem matches_sendClosing (halike : k.Alike k') (count : Nat) :
    Matches (k.sendClosing pool count) (k'.sendClosing pool' count) := by
  generalize hwork : k.work = work
  induction work using Nat.strongRecOn generalizing k k' count with
  | ind work ih =>
    have hnew := matches_wrapNew hmeasured pool pool' .close (pool.cap (Engine.largestRecord k.engine))
      (pool'.cap (Engine.largestRecord k'.engine)) [] halike
    rw [sendClosing_eq, sendClosing_eq, ← halike.engine_eq]
    rw [← halike.engine_eq] at hnew
    by_cases hover : Engine.isOutputOver k.engine = true
    · rw [if_pos hover, if_pos hover]
      exact .ok count halike
    rw [if_neg hover, if_neg hover]
    generalize hx : k.wrapNew .. = x, k'.wrapNew .. = y at hnew ⊢
    cases hnew with
    | short e after y => exact .short e after _
    | short' x e after => exact .short' _ e after
    | error e hafter => exact .error e hafter
    | @ok r after after' hafter =>
      obtain ⟨output, demand⟩ := r
      dsimp only
      rw [← hafter.engine_eq]
      by_cases hempty : output.isEmpty = true
      · rw [if_pos hempty, if_pos hempty]
        split
        · exact .ok count hafter
        · exact .error _ hafter
      · rw [if_neg hempty, if_neg hempty]
        -- an engine that sends something has done some of its work
        have hless : after.work < k.work := by
          rcases wrapNew_nil hx with hlt | ⟨rfl, -⟩
          · exact hlt
          · exact absurd rfl hempty
        exact ih _ (hwork ▸ hless) (hafter.enqueue output) (count + 1) rfl

theorem matches_answerClose (halike : k.Alike k') (demand : Demand) :
    Matches (k.answerClose pool demand) (k'.answerClose pool' demand) := by
  have hnoted := halike.note (.closeReceived demand) (.closeReceived demand)
  unfold answerClose
  dsimp only
  split
  · have hsent := matches_sendClosing hmeasured pool pool' (hnoted.moveTo .connected) 0
    generalize sendClosing pool (E := E) (S := S) .. = x, sendClosing pool' (E := E) (S := S) .. = y at hsent ⊢
    cases hsent with
    | short e after y => exact .short e after _
    | short' x e after => exact .short' _ e after
    | error e hafter => exact .error e hafter
    | ok count hafter => exact .ok () (hafter.note _ _)
  · exact .ok () hnoted

/-! ### Handshakes -/

omit [Session S] hmeasured in
theorem alike_drainTasks (runner : Runner) (halike : k.Alike k') (count : Nat) :
    (k.drainTasks runner count).1 = (k'.drainTasks runner count).1 ∧
      (k.drainTasks runner count).2.Alike (k'.drainTasks runner count).2 := by
  fun_induction drainTasks runner k count generalizing k' with
  | case1 k count htask =>
    rw [drainTasks_eq, ← halike.engine_eq, htask]
    exact ⟨rfl, halike.engine_eq, halike.session_eq, halike.handshaking_eq⟩
  | case2 k count engine htask ih =>
    rw [drainTasks_eq (k := k'), ← halike.engine_eq, htask]
    exact ih ⟨rfl, halike.session_eq, halike.handshaking_eq⟩

omit [Session S] hmeasured in
theorem matches_runTasks (runner : Runner) (halike : k.Alike k') :
    Matches (k.runTasks runner) (k'.runTasks runner) := by
  obtain ⟨hcount, hafter⟩ := alike_drainTasks runner halike 0
  unfold runTasks
  dsimp only
  rw [← hcount, ← hafter.demand_eq]
  split
  · exact .error _ hafter
  · exact .ok _ (hafter.note _ _)

omit [Session S] hmeasured in
theorem retries_unwrapStep (input : Bytes) :
    Retries (S := S) (fun e : E => Engine.unwrap e input) fun k b => k.unwrapStep input b where
  work_le e room := Engine.work_unwrap_le e input room
  again k b demand e hask := by
    obtain ⟨after, hunwrap, hafter⟩ := exists_unwrap hask
    rw [unwrapStep_eq, hunwrap]
    dsimp only [Reply.overflow]
    rw [Scratch.store_nil]
    rcases hgrow : b.grow with cause | grown
    · exact .inl ⟨cause, after, rfl, rfl⟩
    · exact .inr ⟨grown, after, rfl, hafter, rfl⟩

omit [Session S] in
theorem matches_unwrapStep (input : Bytes) (halike : k.Alike k') (hbytes : b.bytes = b'.bytes) :
    Matches (k.unwrapStep input b) (k'.unwrapStep input b') := by
  have hretries := retries_unwrapStep (E := E) (S := S) input
  refine hretries.meet hretries (hmeasured.unwrap · input) halike hbytes ?_
  intro k₁ k₂ b₁ b₂ answer e hlike _ hask hask' hanswer
  obtain ⟨after, hunwrap, hafter⟩ := exists_unwrap hask
  obtain ⟨after', hunwrap', hafter'⟩ := exists_unwrap hask'
  have hnext : after.Alike after' := hafter.trans ((hlike.withEngine e).trans hafter'.symm)
  rw [unwrapStep_eq, unwrapStep_eq, hunwrap, hunwrap']
  rcases answer with cause | r
  · exact .error _ hnext
  obtain ⟨hverdict, -⟩ := hanswer r rfl
  dsimp only
  cases hr : r.verdict with
  | overflow => exact absurd hr hverdict
  | ok =>
    dsimp only
    split
    · exact .error _ hnext
    · exact .ok _ hnext
  | underflow => exact .ok _ hnext
  | closed => exact .error _ hnext

omit [Session S] in
theorem matches_bringInput (input : Bytes) (halike : k.Alike k') :
    Matches (k.bringInput pool input) (k'.bringInput pool' input) := by
  unfold bringInput
  rcases hfirst : Scratch.ofCapacity? (pool.cap pool.handshakeRoom) pool with e | b
  · exact .short e k _
  rcases hsecond : Scratch.ofCapacity? (pool'.cap pool'.handshakeRoom) pool' with e | b'
  · exact .short' _ e k'
  · refine matches_unwrapStep hmeasured input halike ?_
    rw [Scratch.bytes_of_ofCapacity? hfirst, Scratch.bytes_of_ofCapacity? hsecond]

/-- The loops over the demands of a handshake take the same turns. -/
theorem matches_shake (runner : Runner) (total : Nat) (k : Link E S) (demand : Demand) (input : Bytes) :
    ∀ k' : Link E S, k.Alike k' →
      Matches (k.shake pool runner total demand input) (k'.shake pool' runner total demand input) := by
  fun_induction shake pool runner total k demand input with
  | case1 k input =>
    intro k' halike
    have hmoved := (halike.note (.handshakeStep .finished (total - input.length))
      (.handshakeStep .finished (total - input.length))).moveTo .secured
    rw [shake_finished]
    exact .ok (true, input) ⟨hmoved.engine_eq, hmoved.session_eq, rfl⟩
  | case2 k input e after noted hturn =>
    intro k' halike
    have hmatches := matches_runTasks runner (halike.noted (.handshakeStep .task (total - input.length)))
    rw [hturn] at hmatches
    rw [shake_task]
    generalize runTasks (E := E) .. = y at hmatches ⊢
    cases hmatches with
    | short e after y => exact .short e after _
    | short' x e after => exact .short' _ e after
    | error e hafter => exact .error e hafter
  | case3 k input next after noted hturn ih =>
    intro k' halike
    have hmatches := matches_runTasks runner (halike.noted (.handshakeStep .task (total - input.length)))
    rw [hturn] at hmatches
    rw [shake_task]
    generalize runTasks (E := E) .. = y at hmatches ⊢
    cases hmatches with
    | short' x e after => exact .short' _ e after
    | ok next hafter => exact ih _ hafter
  | case4 k input e after noted hturn =>
    intro k' halike
    have hmatches := matches_fetchOutput hmeasured pool pool'
      (halike.noted (.handshakeStep .output (total - input.length)))
    rw [hturn] at hmatches
    rw [shake_output]
    generalize fetchOutput (E := E) (S := S) .. = y at hmatches ⊢
    cases hmatches with
    | short e after y => exact .short e after _
    | short' x e after => exact .short' _ e after
    | error e hafter => exact .error e hafter
  | case5 k input next after noted hturn ih =>
    intro k' halike
    have hmatches := matches_fetchOutput hmeasured pool pool'
      (halike.noted (.handshakeStep .output (total - input.length)))
    rw [hturn] at hmatches
    rw [shake_output]
    generalize fetchOutput (E := E) (S := S) .. = y at hmatches ⊢
    cases hmatches with
    | short' x e after => exact .short' _ e after
    | ok next hafter => exact ih _ hafter
  | case6 k input e after noted hturn | case9 k input e after noted hturn =>
    intro k' halike
    have hmatches : Matches (noted.bringInput pool input) _ :=
      matches_bringInput hmeasured pool pool' input (halike.noted _)
    rw [hturn] at hmatches
    rw [shake_input (k := k') (by simp)]
    generalize bringInput pool' (E := E) .. = y at hmatches ⊢
    cases hmatches with
    | short e after y => exact .short e after _
    | short' x e after => exact .short' _ e after
    | error e hafter => exact .error e hafter
  | case7 k input left after noted hturn | case10 k input left after noted hturn =>
    intro k' halike
    have hmatches : Matches (noted.bringInput pool input) _ :=
      matches_bringInput hmeasured pool pool' input (halike.noted _)
    rw [hturn] at hmatches
    rw [shake_input (k := k') (by simp)]
    generalize bringInput pool' (E := E) .. = y at hmatches ⊢
    cases hmatches with
    | short' x e after => exact .short' _ e after
    | ok r hafter => exact .ok (false, left) hafter
  | case8 k input next left after noted hturn ih | case11 k input next left after noted hturn ih =>
    intro k' halike
    have hmatches : Matches (noted.bringInput pool input) _ :=
      matches_bringInput hmeasured pool pool' input (halike.noted _)
    rw [hturn] at hmatches
    rw [shake_input (k := k') (by simp)]
    generalize bringInput pool' (E := E) .. = y at hmatches ⊢
    cases hmatches with
    | short' x e after => exact .short' _ e after
    | ok r hafter => exact ih _ hafter

/-! ### Records -/

omit [Engine E] hmeasured in
theorem alike_handOver (consumed : Nat) (halike : k.Alike k') (hbytes : b.bytes = b'.bytes) :
    (k.handOver consumed b).Alike (k'.handOver consumed b') := by
  unfold handOver
  by_cases hempty : b.bytes = []
  · rw [if_pos (Scratch.isEmpty_iff.2 hempty), if_pos (Scratch.isEmpty_iff.2 (hbytes ▸ hempty))]
    exact halike
  · rw [if_neg (mt Scratch.isEmpty_iff.1 hempty), if_neg (mt Scratch.isEmpty_iff.1 (hbytes ▸ hempty)), ← hbytes]
    exact (halike.deliver b.bytes).note _ _

omit hmeasured in
theorem retries_unwrapAll (input : Bytes) (n : Nat) :
    Retries (S := S) (fun e : E => Engine.unwrap e input) fun k b => k.unwrapAll pool input b n where
  work_le e room := Engine.work_unwrap_le e input room
  again k b demand e hask := by
    obtain ⟨after, hunwrap, hafter⟩ := exists_unwrap hask
    rw [unwrapAll_eq, hunwrap]
    dsimp only [Reply.overflow]
    rw [Scratch.store_nil]
    rcases hgrow : b.grow with cause | grown
    · exact .inl ⟨cause, after, rfl, rfl⟩
    · exact .inr ⟨grown, after, rfl, hafter, rfl⟩

/-- The loops over the records of an input hand over the same messages. -/
theorem matches_unwrapAll (input : Bytes) (n : Nat) (halike : k.Alike k') (hbytes : b.bytes = b'.bytes) :
    Matches (k.unwrapAll pool input b n) (k'.unwrapAll pool' input b' n) := by
  generalize hmeasure : k.work + input.length = measure
  induction measure using Nat.strongRecOn generalizing k k' b b' input n with
  | ind measure ih =>
    have hretries := retries_unwrapAll (E := E) (S := S) pool input n
    have hretries' := retries_unwrapAll (E := E) (S := S) pool' input n
    refine hretries.meet hretries' (hmeasured.unwrap · input) halike hbytes ?_
    intro k₁ k₂ b₁ b₂ answer e hlike hwork hask hask' hanswer
    obtain ⟨after, hunwrap, hafter⟩ := exists_unwrap hask
    obtain ⟨after', hunwrap', hafter'⟩ := exists_unwrap hask'
    have hnext : after.Alike after' := hafter.trans ((hlike.withEngine e).trans hafter'.symm)
    rw [unwrapAll_eq, unwrapAll_eq, hunwrap, hunwrap']
    rcases answer with cause | r
    · exact .error _ hnext
    obtain ⟨hverdict, hstored⟩ := hanswer r rfl
    have hsize := congrArg List.length hstored
    rw [Scratch.length_bytes, Scratch.length_bytes] at hsize
    dsimp only
    cases hr : r.verdict with
    | overflow => exact absurd hr hverdict
    | ok =>
      dsimp only
      have hserved := alike_handOver r.consumed hnext hstored
      have hempty : (b₁.store r.output r.produced).isEmpty = (b₂.store r.output r.produced).isEmpty := by
        rw [Bool.eq_iff_iff, Scratch.isEmpty_iff, Scratch.isEmpty_iff, hstored]
      rw [← hempty, ← hsize]
      split
      · exact .error _ hnext
      · split
        · exact .ok _ hserved
        · refine ih _ ?_ _ _ hserved rfl rfl
          have hprogress := unwrap_ok hunwrap hr
          have hle := work_le_of_unwrap hunwrap
          rw [work_handOver, List.length_drop]
          omega
    | underflow => exact .ok _ (hnext.note _ _)
    | closed =>
      dsimp only
      rw [← hnext.state_eq]
      split
      · have hanswered := matches_answerClose hmeasured pool pool' hnext r.demand
        generalize answerClose pool (E := E) (S := S) .. = x, answerClose pool' (E := E) (S := S) .. = y at hanswered ⊢
        cases hanswered with
        | short e after y => exact .short e after _
        | short' x e after => exact .short' _ e after
        | error e hafter => exact .error e hafter
        | ok _ hafter => exact .ok _ hafter
      · exact .error _ hnext

theorem matches_unwrapRecords (input : Bytes) (halike : k.Alike k') :
    Matches (k.unwrapRecords pool input) (k'.unwrapRecords pool' input) := by
  unfold unwrapRecords
  split
  · exact .ok _ halike
  rcases hfirst : Scratch.ofCapacity? (pool.plaintextRoom input.length) pool with e | b
  · exact .short e k _
  rcases hsecond : Scratch.ofCapacity? (pool'.plaintextRoom input.length) pool' with e | b'
  · exact .short' _ e k'
  · refine matches_unwrapAll hmeasured pool pool' input 0 halike ?_
    rw [Scratch.bytes_of_ofCapacity? hfirst, Scratch.bytes_of_ofCapacity? hsecond]

/-! ### Requests -/

theorem matches_start (runner : Runner) (halike : k.Alike k') :
    Matches (k.start pool runner) (k'.start pool' runner) := by
  unfold start
  rw [← halike.state_eq]
  split
  · exact .ok _ halike
  have hstart : k.startHandshake.1 = k'.startHandshake.1 ∧ k.startHandshake.2.Alike k'.startHandshake.2 := by
    unfold startHandshake
    rw [← halike.engine_eq]
    exact ⟨rfl, rfl, halike.session_eq, halike.handshaking_eq⟩
  rcases hfirst : k.startHandshake with ⟨result, after⟩
  rcases hsecond : k'.startHandshake with ⟨result', after'⟩
  rw [hfirst, hsecond] at hstart
  obtain ⟨rfl, hafter⟩ := hstart
  rcases result with e | _
  · exact .error _ hafter
  have hentered := hafter.enterHandshake
  have hshook := matches_shake hmeasured pool pool' runner 0 after.enterHandshake
    after.enterHandshake.demand [] _ hentered
  dsimp only
  rw [← hentered.demand_eq]
  generalize shake pool (E := E) (S := S) .. = x, shake pool' (E := E) (S := S) .. = y at hshook ⊢
  cases hshook with
  | short e after y => exact .short e after _
  | short' x e after => exact .short' _ e after
  | error e hafter => exact .error e hafter
  | ok r hafter =>
    rcases r with ⟨_ | _, left⟩
    · exact .ok _ hafter
    · exact .ok _ hafter

theorem matches_read (runner : Runner) (input : Bytes) (halike : k.Alike k') :
    Matches (k.read pool runner input) (k'.read pool' runner input) := by
  unfold read
  rw [← halike.state_eq]
  split
  · exact matches_unwrapRecords hmeasured pool pool' input halike
  have hentered := halike.enterHandshake
  have hshook := matches_shake hmeasured pool pool' runner input.length k.enterHandshake
    k.enterHandshake.demand input _ hentered
  unfold readSecuring
  dsimp only
  rw [← hentered.demand_eq]
  generalize shake pool (E := E) (S := S) .. = x, shake pool' (E := E) (S := S) .. = y at hshook ⊢
  cases hshook with
  | short e after y => exact .short e after _
  | short' x e after => exact .short' _ e after
  | error e hafter => exact .error e hafter
  | ok r hafter =>
    rcases r with ⟨_ | _, left⟩
    · exact .ok _ hafter
    · have hrecords := matches_unwrapRecords hmeasured pool pool' left hafter
      dsimp only
      generalize unwrapRecords pool (E := E) (S := S) .. = x, unwrapRecords pool' (E := E) (S := S) .. = y at hrecords ⊢
      cases hrecords with
      | short e after y => exact .short e after _
      | short' x e after => exact .short' _ e after
      | error e hafter => exact .error e hafter
      | ok r hafter =>
        rcases r with ⟨_ | _ | _ | _ | _, left⟩ <;> exact .ok _ hafter

theorem matches_write (message : Bytes) (halike : k.Alike k') :
    Matches (k.write pool message) (k'.write pool' message) := by
  have hnew := matches_wrapNew hmeasured pool pool' .application (pool.ciphertextRoom message.length)
    (pool'.ciphertextRoom message.length) message halike
  unfold write
  generalize wrapNew pool (E := E) (S := S) .. = x, wrapNew pool' (E := E) (S := S) .. = y at hnew ⊢
  cases hnew with
  | short e after y => exact .short e after _
  | short' x e after => exact .short' _ e after
  | error e hafter => exact .error e hafter
  | ok r hafter => exact .ok _ ((hafter.note _ _).enqueue r.1)

end Session

end SecureStream.Link
