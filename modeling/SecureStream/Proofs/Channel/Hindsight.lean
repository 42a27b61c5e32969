import SecureStream.Proofs.Channel.Loops

/-!
# Notices are never read

A link takes down notices, and nothing that is done through it looks at them: behind any earlier notices
(`Link.behind`) every function on links gives the same result, does the same to engine and session, and takes
down the same notices once more.  There is one such equation for every function; those of the requests are
`Link.configure_behind`, `Link.start_behind`, `Link.read_behind` and `Link.write_behind`.
-/

namespace SecureStream.Link

variable {E S : Type}

/-- A link through which something else was reported first. -/
def behind (earlier : Array Notice) (k : Link E S) : Link E S := { k with notices := earlier ++ k.notices }

/-- The end of an attempt behind earlier notices. -/
def endBehind {α : Type} (earlier : Array Notice) (x : α × Link E S) : α × Link E S := (x.1, x.2.behind earlier)

variable (earlier : Array Notice) (k : Link E S)

@[simp] theorem engine_behind : (k.behind earlier).engine = k.engine := rfl

@[simp] theorem handshaking_behind : (k.behind earlier).handshaking = k.handshaking := rfl

@[simp] theorem note_behind (notice : Notice) : (k.behind earlier).note notice = (k.note notice).behind earlier := by
  simp [note, behind]

theorem act_behind (engine : E) (call : Call) :
    { k.behind earlier with engine }.log call = ({ k with engine }.log call).behind earlier := rfl

/-! ### Engines -/

section Engine

variable [Engine E] (pool : Pool) (runner : Runner)

@[simp] theorem demand_behind : (k.behind earlier).demand = k.demand := rfl

theorem wrap_behind (input : Bytes) (room : Nat) :
    (k.behind earlier).wrap input room = endBehind earlier (k.wrap input room) := rfl

theorem unwrap_behind (input : Bytes) (room : Nat) :
    (k.behind earlier).unwrap input room = endBehind earlier (k.unwrap input room) := rfl

theorem startHandshake_behind :
    (k.behind earlier).startHandshake = endBehind earlier k.startHandshake := rfl

theorem wrapAll_behind (purpose : Purpose) (input : Bytes) (b : Scratch) :
    (k.behind earlier).wrapAll purpose input b = endBehind earlier (k.wrapAll purpose input b) := by
  -- two kinds of turns go on, with a larger buffer or behind what was used; all others are the last
  fun_induction wrapAll purpose k input b with
  | case3 k input b r after hwrap filled hverdict grown hgrow ih =>
    rw [wrapAll_eq, wrap_behind, hwrap]
    simp only [endBehind, hverdict, filled, hgrow, note_behind]
    exact ih
  | case6 k input b r after hwrap filled hverdict hmore hused ih =>
    rw [wrapAll_eq, wrap_behind, hwrap]
    simp only [endBehind, hverdict, if_neg hmore, if_neg hused]
    exact ih
  | _ =>
    rw [wrapAll_eq, wrap_behind]
    simp_all +zetaDelta [endBehind]

theorem wrapNew_behind (purpose : Purpose) (capacity : Nat) (input : Bytes) :
    (k.behind earlier).wrapNew pool purpose capacity input =
      endBehind earlier (k.wrapNew pool purpose capacity input) := by
  unfold wrapNew
  split
  · rfl
  · next b _ =>
    rw [wrapAll_behind]
    rcases k.wrapAll purpose input b with ⟨_ | _, _⟩ <;> rfl

theorem drainTasks_behind (count : Nat) :
    (k.behind earlier).drainTasks runner count = endBehind earlier (k.drainTasks runner count) := by
  fun_induction drainTasks runner k count with
  | case1 k count htask =>
    rw [drainTasks_eq, engine_behind, htask]
    rfl
  | case2 k count engine htask ih =>
    rw [drainTasks_eq, engine_behind, htask]
    exact ih

theorem runTasks_behind : (k.behind earlier).runTasks runner = endBehind earlier (k.runTasks runner) := by
  unfold runTasks
  rw [drainTasks_behind]
  dsimp only [endBehind]
  rw [demand_behind, note_behind]
  split <;> rfl

theorem unwrapStep_behind (input : Bytes) (b : Scratch) :
    (k.behind earlier).unwrapStep input b = endBehind earlier (k.unwrapStep input b) := by
  fun_induction unwrapStep k input b with
  | case6 k input b r after hunwrap left filled hverdict grown hgrow ih =>
    rw [unwrapStep_eq, unwrap_behind, hunwrap]
    simp only [endBehind, hverdict, filled, hgrow]
    exact ih
  | _ =>
    rw [unwrapStep_eq, unwrap_behind]
    simp_all +zetaDelta [endBehind]

theorem bringInput_behind (input : Bytes) :
    (k.behind earlier).bringInput pool input = endBehind earlier (k.bringInput pool input) := by
  unfold bringInput
  split
  · rfl
  · exact unwrapStep_behind ..

/-! ### Sessions -/

variable [Session S]

omit [Engine E] in
@[simp] theorem state_behind : (k.behind earlier).state = k.state := rfl

omit [Engine E] in
@[simp] theorem moveTo_behind (state : SessionState) :
    (k.behind earlier).moveTo state = (k.moveTo state).behind earlier := rfl

theorem fetchOutput_behind : (k.behind earlier).fetchOutput pool = endBehind earlier (k.fetchOutput pool) := by
  unfold fetchOutput
  rw [wrapNew_behind, engine_behind]
  rcases k.wrapNew pool .handshake _ [] with ⟨_ | ⟨output, _⟩, after⟩
  · rfl
  · dsimp only [endBehind]
    split <;> rfl

theorem shake_behind (total : Nat) (demand : Demand) (input : Bytes) :
    (k.behind earlier).shake pool runner total demand input =
      endBehind earlier (k.shake pool runner total demand input) := by
  fun_induction shake pool runner total k demand input with
  | case1 k input =>
    rw [shake_finished, note_behind]
    exact congrArg (Prod.mk _) (note_behind earlier { moveTo _ .secured with handshaking := false } _)
  | case2 k input e after noted hturn =>
    rw [shake_task, note_behind, runTasks_behind, hturn]
    rfl
  | case3 k input next after noted hturn ih =>
    rw [shake_task, note_behind, runTasks_behind, hturn]
    exact ih
  | case4 k input e after noted hturn =>
    rw [shake_output, note_behind, fetchOutput_behind, hturn]
    rfl
  | case5 k input next after noted hturn ih =>
    rw [shake_output, note_behind, fetchOutput_behind, hturn]
    exact ih
  | case6 k input e after noted hturn | case9 k input e after noted hturn =>
    rw [shake_input (by simp), note_behind, bringInput_behind, hturn]
    rfl
  | case7 k input left after noted hturn | case10 k input left after noted hturn =>
    rw [shake_input (by simp), note_behind, bringInput_behind, hturn]
    rfl
  | case8 k input next left after noted hturn ih | case11 k input next left after noted hturn ih =>
    rw [shake_input (by simp), note_behind, bringInput_behind, hturn]
    exact ih

theorem sendClosing_behind (count : Nat) :
    (k.behind earlier).sendClosing pool count = endBehind earlier (k.sendClosing pool count) := by
  fun_induction sendClosing pool k count with
  | case5 k count hover output demand after hnew hsent ih =>
    rw [sendClosing_eq, engine_behind, wrapNew_behind, if_neg hover, hnew]
    simp only [endBehind, if_neg hsent]
    exact ih
  | _ =>
    rw [sendClosing_eq, engine_behind, wrapNew_behind]
    simp_all [endBehind]

theorem answerClose_behind (demand : Demand) :
    (k.behind earlier).answerClose pool demand = endBehind earlier (k.answerClose pool demand) := by
  unfold answerClose
  rw [note_behind]
  dsimp only
  split
  · have hsent := sendClosing_behind earlier ((k.note (.closeReceived demand)).moveTo .connected) pool 0
    rw [moveTo_behind, hsent]
    rcases sendClosing pool _ 0 with ⟨_ | count, after⟩
    · rfl
    · exact congrArg (Prod.mk _) (note_behind ..)
  · rfl

omit [Engine E] in
theorem handOver_behind (consumed : Nat) (b : Scratch) :
    (k.behind earlier).handOver consumed b = (k.handOver consumed b).behind earlier := by
  unfold handOver
  split
  · rfl
  · exact note_behind earlier (k.deliver b.bytes) _

theorem unwrapAll_behind (input : Bytes) (b : Scratch) (delivered : Nat) :
    (k.behind earlier).unwrapAll pool input b delivered =
      endBehind earlier (k.unwrapAll pool input b delivered) := by
  -- again two kinds of turns go on, with the next record or with a larger buffer
  fun_induction unwrapAll pool k input b delivered with
  | case4 k input b delivered r after hunwrap left filled hverdict hprogress served hmore ih =>
    rw [unwrapAll_eq, unwrap_behind, hunwrap]
    simp only [endBehind, hverdict]
    rw [if_neg hprogress, if_neg hmore, handOver_behind]
    exact ih
  | case7 k input b delivered r after hunwrap left filled hverdict grown hgrow ih =>
    rw [unwrapAll_eq, unwrap_behind, hunwrap]
    simp only [endBehind, hverdict, filled, hgrow]
    exact ih
  | _ =>
    rw [unwrapAll_eq, unwrap_behind]
    simp_all +zetaDelta [endBehind, answerClose_behind, handOver_behind]

theorem unwrapRecords_behind (input : Bytes) :
    (k.behind earlier).unwrapRecords pool input = endBehind earlier (k.unwrapRecords pool input) := by
  unfold unwrapRecords
  split
  · rfl
  split
  · rfl
  · exact unwrapAll_behind ..

/-! ### Requests -/

theorem configure_behind : (k.behind earlier).configure = k.configure.behind earlier := by
  unfold configure
  have hsession : (k.behind earlier).session = k.session := rfl
  dsimp only
  rw [act_behind, hsession]
  split
  · rw [note_behind]
    rfl
  · rw [act_behind, note_behind]
    rfl

omit [Engine E] in
theorem enterHandshake_behind : (k.behind earlier).enterHandshake = k.enterHandshake.behind earlier := by
  unfold enterHandshake
  rw [handshaking_behind]
  split <;> rfl

theorem start_behind : (k.behind earlier).start pool runner = endBehind earlier (k.start pool runner) := by
  unfold start
  rw [state_behind, startHandshake_behind]
  split
  · rfl
  rcases k.startHandshake with ⟨_ | _, after⟩
  · rfl
  dsimp only [endBehind]
  rw [enterHandshake_behind, demand_behind, shake_behind]
  rcases after.enterHandshake.shake pool runner 0 _ [] with ⟨_ | ⟨_ | _, _⟩, _⟩ <;> rfl

theorem readSecuring_behind (input : Bytes) :
    (k.behind earlier).readSecuring pool runner input = endBehind earlier (k.readSecuring pool runner input) := by
  unfold readSecuring
  rw [enterHandshake_behind]
  dsimp only
  rw [demand_behind, shake_behind]
  rcases k.enterHandshake.shake pool runner input.length _ input with ⟨_ | ⟨_ | _, left⟩, after⟩
  · rfl
  · rfl
  dsimp only [endBehind]
  rw [unwrapRecords_behind]
  rcases after.unwrapRecords pool left with ⟨_ | ⟨outcome, _⟩, _⟩
  · rfl
  · cases outcome <;> rfl

theorem read_behind (input : Bytes) :
    (k.behind earlier).read pool runner input = endBehind earlier (k.read pool runner input) := by
  unfold read
  rw [state_behind]
  split
  · exact unwrapRecords_behind ..
  · exact readSecuring_behind ..

theorem write_behind (message : Bytes) :
    (k.behind earlier).write pool message = endBehind earlier (k.write pool message) := by
  unfold write
  rw [wrapNew_behind]
  rcases k.wrapNew pool .application _ message with ⟨_ | ⟨piece, _⟩, after⟩
  · rfl
  · dsimp only [endBehind]
    rw [note_behind]
    rfl

end Engine

end SecureStream.Link
