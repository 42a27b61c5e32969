import SecureStream.Engine.Basic

/-!
# Engines that play back a script

A `Playback` engine is a scripted engine: it answers with what a script says, step by step. A call must be of the kind
that the next step says; otherwise it fails and the step stays. The reported counts are those of the script, whatever is
true.
-/

namespace SecureStream

/-- One step of a script. -/
inductive ScriptStep where
  /-- The answer to wrapping, which may be the last output of all. -/
  | wrap (reply : Reply) (isLast : Bool)
  /-- The answer to unwrapping. -/
  | unwrap (reply : Reply)
  /-- A task, and what is needed once it has been handed out. -/
  | task (next : Demand)
  deriving DecidableEq, Repr

def ScriptStep.kind : ScriptStep → String
  | wrap _ _ => "wrap"
  | unwrap _ => "unwrap"
  | task _ => "task"

/-- An engine that plays back a script. -/
structure Playback where
  demand : Demand
  steps : List ScriptStep
  isOutputOver : Bool
  largestRecord : Nat
  /-- The side, once it has been chosen. -/
  isClient : Option Bool
  /-- All ways of asking for a certificate that were chosen, oldest first. -/
  policies : List CertificatePolicy
  begun : Bool
  /-- How many tasks have been run. -/
  ranTasks : Nat
  deriving DecidableEq, Repr

namespace Playback

/-- The largest record when nothing is said about it. -/
def usualLargestRecord : Nat := 256

/-- An engine at the start of its script. -/
def start (demand : Demand) (steps : List ScriptStep) (largestRecord : Nat) : Playback :=
  ⟨demand, steps, false, largestRecord, none, [], false, 0⟩

/-- Gives the answer of a step, unless the space is too small for its output. -/
def answer (p : Playback) (room : Nat) (reply : Reply) (isLast : Bool) : Except EngineError Reply × Playback :=
  if room < reply.output.length then (.error (.ofMessage "scripted output exceeds destination"), p)
  else (.ok reply, { p with demand := reply.demand, isOutputOver := p.isOutputOver || isLast })

/-- There is no step left. -/
def exhausted (kind : String) : EngineError := .ofMessage s!"script exhausted at {kind}"

/-- The next step is of another kind. -/
def mismatch (step : ScriptStep) (kind : String) : EngineError :=
  .ofMessage s!"script expected {step.kind}, engine saw {kind}"

def wrap (p : Playback) (room : Nat) : Except EngineError Reply × Playback :=
  match p.steps with
  -- the step is used up even when its output does not fit
  | .wrap reply isLast :: steps => answer { p with steps } room reply isLast
  | step :: _ => (.error (mismatch step "wrap"), p)
  | [] => (.error (exhausted "wrap"), p)

def unwrap (p : Playback) (room : Nat) : Except EngineError Reply × Playback :=
  match p.steps with
  | .unwrap reply :: steps => answer { p with steps } room reply false
  | step :: _ => (.error (mismatch step "unwrap"), p)
  | [] => (.error (exhausted "unwrap"), p)

/-- Hands out a task if the next step is one. -/
def takeTask? (p : Playback) : Option Playback :=
  match p.steps with
  | .task next :: steps => some { p with steps, demand := next }
  | _ => none

theorem steps_answer (p : Playback) (room : Nat) (reply : Reply) (isLast : Bool) :
    (answer p room reply isLast).2.steps = p.steps := by
  unfold answer
  split <;> rfl

private theorem steps_wrap_le (p : Playback) (room : Nat) : (p.wrap room).2.steps.length ≤ p.steps.length := by
  unfold wrap
  split <;> simp_all [steps_answer]

private theorem steps_unwrap_le (p : Playback) (room : Nat) : (p.unwrap room).2.steps.length ≤ p.steps.length := by
  unfold unwrap
  split <;> simp_all [steps_answer]

private theorem steps_takeTask_lt {p p' : Playback} (h : p.takeTask? = some p') :
    p'.steps.length < p.steps.length := by
  unfold takeTask? at h
  split at h
  · cases h
    simp_all
  · cases h

private theorem steps_wrap_ok {p p' : Playback} {room : Nat} {r : Reply} (h : p.wrap room = (.ok r, p')) :
    p'.steps.length < p.steps.length := by
  unfold wrap at h
  split at h
  · next heq =>
    have hsteps := congrArg (fun x => x.2.steps) h
    simp only [steps_answer] at hsteps
    rw [← hsteps, heq]
    exact Nat.lt_succ_self _
  · cases h
  · cases h

private theorem steps_unwrap_ok {p p' : Playback} {room : Nat} {r : Reply} (h : p.unwrap room = (.ok r, p')) :
    p'.steps.length < p.steps.length := by
  unfold unwrap at h
  split at h
  · next heq =>
    have hsteps := congrArg (fun x => x.2.steps) h
    simp only [steps_answer] at hsteps
    rw [← hsteps, heq]
    exact Nat.lt_succ_self _
  · cases h
  · cases h

/-- What is left of the script bounds the work. -/
instance : Engine Playback where
  wrap p _ room := p.wrap room
  unwrap p _ room := p.unwrap room
  demand := demand
  takeTask? := takeTask?
  runTask p := { p with ranTasks := p.ranTasks + 1 }
  startHandshake p := (.ok (), { p with begun := true })
  isOutputOver := isOutputOver
  largestRecord := largestRecord
  setSide p isClient := { p with isClient := some isClient }
  setCertificatePolicy p policy := { p with policies := p.policies ++ [policy] }
  work p := p.steps.length
  work_wrap_le p _ room := steps_wrap_le p room
  work_unwrap_le p _ room := steps_unwrap_le p room
  work_takeTask_lt := steps_takeTask_lt
  work_runTask_le _ := Nat.le_refl _
  wrap_nil h := .inl (steps_wrap_ok h)
  unwrap_ok h _ := .inl (steps_unwrap_ok h)

end Playback

end SecureStream
