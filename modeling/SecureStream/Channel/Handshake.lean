import SecureStream.Channel.Wrapping

/-!
# Handshakes

The engine leads through the handshake: it asks for a task, for output to be sent, or for input, and says when it is
done. Input may end anywhere; the handshake then waits for the next read. What an engine unwraps during the handshake
is no message and is thrown away.

* `Link.shake`: the loop over the demands of the engine. It ends because every turn does some of the engine's work,
  uses up input, or leads to a demand that does.
-/

namespace SecureStream.Link

variable {E S : Type} [Engine E]

/-- Gives all tasks that the engine hands out to a runner, and counts them. -/
def drainTasks (runner : Runner) (k : Link E S) (count : Nat) : Nat × Link E S :=
  match _ : Engine.takeTask? k.engine with
  | none => (count, k.log (.takeTask false))
  | some engine =>
    (({ k with engine := runner.run engine }.log (.takeTask true)).log .runTask).drainTasks runner (count + 1)
termination_by k.work
decreasing_by exact Nat.lt_of_le_of_lt (runner.work_run_le engine) (Engine.work_takeTask_lt ‹_›)

/-- Does what the engine asks for when it asks for a task. -/
def runTasks (runner : Runner) (k : Link E S) : Except ChannelError Demand × Link E S :=
  let (count, k) := k.drainTasks runner 0
  -- an engine that asks for a task and has none would be asked again without end
  if count = 0 ∧ k.demand = .task then (.error (.noProgress .task), k)
  else (.ok k.demand, k.note (.tasksCompleted count k.demand))

/-- Unwraps one record of the handshake at the front of the input. Gives what is needed next, or nothing if the record
is not complete, and the input that is left. -/
def unwrapStep (k : Link E S) (input : Bytes) (b : Scratch) : Except ChannelError (Option Demand × Bytes) × Link E S :=
  match k.unwrap input b.room with
  | (.error e, k) => (.error (.engine .unwrap e), k)
  | (.ok r, k) =>
    let left := input.drop r.consumed
    let filled := b.store r.output r.produced
    match r.verdict with
    | .ok =>
      -- the same input would be brought once more
      if r.consumed = 0 ∧ (r.demand = .input ∨ r.demand = .none) then (.error (.noProgress .unwrap), k)
      else (.ok (some r.demand, left), k)
    | .underflow => (.ok (none, left), k)
    | .overflow =>
      match _ : filled.grow with
      | .error e => (.error (.buffer e), k)
      | .ok grown => k.unwrapStep left grown
    | .closed => (.error .closedEarly, k)
termination_by b.limit - b.capacity
decreasing_by
  have hgrown := Scratch.limit_sub_lt_of_grow ‹filled.grow = _›
  exact hgrown

/-- Does what the engine asks for when it asks for input. -/
def bringInput (pool : Pool) (k : Link E S) (input : Bytes) :
    Except ChannelError (Option Demand × Bytes) × Link E S :=
  match Scratch.ofCapacity? (pool.cap pool.handshakeRoom) pool with
  | .error e => (.error (.buffer e), k)
  | .ok b => k.unwrapStep input b

theorem drainTasks_cases (runner : Runner) (k : Link E S) (count : Nat) :
    (k.drainTasks runner count).2.work < k.work ∨
      k.drainTasks runner count = (count, k.log (.takeTask false)) := by
  fun_induction drainTasks runner k count with
  | case1 => exact .inr rfl
  | case2 k count engine htake ih =>
    have hlt : Engine.work (runner.run engine) < k.work :=
      Nat.lt_of_le_of_lt (runner.work_run_le engine) (Engine.work_takeTask_lt htake)
    refine .inl ?_
    rcases ih with ih | ih
    · exact Nat.lt_trans ih hlt
    · rw [ih]
      exact hlt

/-- After its tasks an engine does not ask for a task that it asked for before. -/
theorem runTasks_ok {runner : Runner} {k k' : Link E S} {next : Demand}
    (h : k.runTasks runner = (.ok next, k')) :
    k'.work < k.work ∨ (k'.work = k.work ∧ next = k.demand ∧ next ≠ .task) := by
  unfold runTasks at h
  dsimp only at h
  split at h
  · cases h
  · next hprogress =>
    cases h
    rcases k.drainTasks_cases runner 0 with hlt | heq
    · exact .inl hlt
    · rw [heq] at hprogress ⊢
      exact .inr ⟨rfl, rfl, fun hdemand => hprogress ⟨rfl, hdemand⟩⟩

theorem unwrapStep_some {k k' : Link E S} {input left : Bytes} {b : Scratch} {next : Demand}
    (h : k.unwrapStep input b = (.ok (some next, left), k')) :
    k'.work + left.length < k.work + input.length := by
  fun_induction unwrapStep k input b with
  | case3 k input b r k₁ hunwrap rest hverdict _ =>
    simp only [Prod.mk.injEq, Except.ok.injEq] at h
    obtain ⟨⟨-, rfl⟩, rfl⟩ := h
    have hle := work_le_of_unwrap hunwrap
    have hprogress := unwrap_ok hunwrap hverdict
    simp only [rest, List.length_drop]
    omega
  | case6 k input b r k₁ hunwrap rest filled _ _ _ ih =>
    have hle := work_le_of_unwrap hunwrap
    have hrest := ih h
    simp only [rest, List.length_drop] at hrest
    omega
  | _ => cases h

theorem bringInput_some {pool : Pool} {k k' : Link E S} {input left : Bytes} {next : Demand}
    (h : k.bringInput pool input = (.ok (some next, left), k')) :
    k'.work + left.length < k.work + input.length := by
  unfold bringInput at h
  split at h
  · cases h
  · exact unwrapStep_some h

/-- How close a demand is to work being done. A demand for a task that the engine does not repeat leads to another. -/
private def distance (k : Link E S) : Demand → Nat
  | .output => 2
  | .task => if k.demand = .task then 1 else 3
  | .none | .input | .finished => 0

private theorem distance_le (k : Link E S) (demand : Demand) : k.distance demand ≤ 3 := by
  unfold distance
  repeat' split
  all_goals omega

private theorem distance_le_two {k : Link E S} {demand : Demand} (h : demand ≠ .task) : k.distance demand ≤ 2 := by
  cases demand <;> simp_all [distance]

private theorem distance_task {k : Link E S} (h : k.demand ≠ .task) : k.distance .task = 3 := by simp [distance, h]

private theorem distance_task_pos (k : Link E S) : 0 < k.distance .task := by
  simp only [distance]
  split <;> omega

private theorem distance_le_one {k : Link E S} {demand : Demand} (houtput : demand ≠ .output)
    (htask : demand = .task → k.demand = .task) : k.distance demand ≤ 1 := by
  cases demand <;> simp_all [distance]

variable [Session S]

/-- Does what the engine asks for when it asks for output to be sent. -/
def fetchOutput (pool : Pool) (k : Link E S) : Except ChannelError Demand × Link E S :=
  match k.wrapNew pool .handshake (pool.cap (Engine.largestRecord k.engine)) [] with
  | (.error e, k) => (.error e, k)
  | (.ok (output, demand), k) => (.ok demand, if output.isEmpty then k else k.enqueue output)

theorem fetchOutput_ok {pool : Pool} {k k' : Link E S} {next : Demand}
    (h : k.fetchOutput pool = (.ok next, k')) :
    k'.work < k.work ∨ (k'.work ≤ k.work ∧ next ≠ .output ∧ (next = .task → k'.demand = .task)) := by
  unfold fetchOutput at h
  split at h
  · cases h
  · next output demand k₁ hwrap =>
    have hle := k.work_wrapNew_le pool .handshake (pool.cap (Engine.largestRecord k.engine)) []
    rw [hwrap] at hle
    cases h
    rcases wrapNew_nil hwrap with hlt | ⟨rfl, hdemand⟩
    · refine .inl ?_
      split <;> simpa
    · exact .inr ⟨hle, hdemand⟩

/-- Meets the demands of the engine until the handshake is completed, or needs more input. Says which, and gives the
input that is left; `total` is the length of the input at the start. -/
def shake (pool : Pool) (runner : Runner) (total : Nat) (k : Link E S) (demand : Demand) (input : Bytes) :
    Except ChannelError (Bool × Bytes) × Link E S :=
  let noted := k.note (.handshakeStep demand (total - input.length))
  match demand with
  | .finished => (.ok (true, input), { noted.moveTo .secured with handshaking := false }.note .handshakeFinished)
  | .task =>
    match _ : noted.runTasks runner with
    | (.error e, k) => (.error e, k)
    | (.ok next, after) => after.shake pool runner total next input
  | .output =>
    match _ : noted.fetchOutput pool with
    | (.error e, k) => (.error e, k)
    | (.ok next, after) => after.shake pool runner total next input
  | .input | .none =>
    match _ : noted.bringInput pool input with
    | (.error e, k) => (.error e, k)
    | (.ok (none, left), k) => (.ok (false, left), k)
    | (.ok (some next, left), after) => after.shake pool runner total next left
-- each turn lowers the work, uses up input, or leads to a demand that is closer to doing so
termination_by 4 * (k.work + input.length) + k.distance demand
decreasing_by
  · have hnext := after.distance_le next
    have hpos := k.distance_task_pos
    rcases runTasks_ok ‹_› with hlt | ⟨heq, hdemand, htask⟩
    · simp only [noted, work_note] at hlt
      omega
    · simp only [noted, work_note, demand_note] at heq hdemand
      have : after.distance next ≤ 2 := distance_le_two htask
      have := distance_task (hdemand ▸ htask)
      omega
  · have hnext := after.distance_le next
    have htwo : k.distance .output = 2 := rfl
    rcases fetchOutput_ok ‹_› with hlt | ⟨hle, houtput, htask⟩
    · simp only [noted, work_note] at hlt
      omega
    · simp only [noted, work_note] at hle
      have := distance_le_one houtput htask
      omega
  all_goals
    have hnext := after.distance_le next
    have hlt := bringInput_some ‹_›
    simp only [noted, work_note] at hlt
    omega

end SecureStream.Link
