import Mathlib.Algebra.GroupWithZero.Nat
import SecureStream.Engine.Playback

/-!
# Scripts that lead through a handshake

An engine that plays back a script leads through a handshake when each step answers what the step before has asked
for, as the table of the handshake says (`Script.Leads`).  What a demand tells of the next step is read off it, demand
by demand (`Script.Leads.of_task`, `Script.Leads.of_output`, `Script.Leads.of_input`).

A step may find that its input is not complete.  It then waits for the next piece of it, and the input has to arrive
in time (`Script.InTime`): each step takes what it uses up from the front of the first piece
(`Script.InTime.of_step`), or has the second piece put behind the first (`Script.InTime.of_underflow`).
-/

namespace SecureStream

namespace ScriptStep

/-- What is needed behind the step. -/
def reports : ScriptStep → Demand
  | wrap r _ | unwrap r => r.demand
  | task next => next

/-- How many bytes of the input the step uses up. -/
def consumed : ScriptStep → Nat
  | unwrap r => r.consumed
  | _ => 0

/-- The input of the step is not complete. -/
def isUnderflow : ScriptStep → Bool
  | unwrap r => decide (r.verdict = .underflow)
  | _ => false

def isTask : ScriptStep → Bool
  | task _ => true
  | _ => false

/-- What is sent for the step, if it has output. -/
def piece? : ScriptStep → Option Bytes
  | wrap r _ => if r.output = [] then none else some r.output
  | _ => none

/-- The step answers a demand as the table of the handshake says. -/
inductive Answers (room : Nat) : Demand → ScriptStep → Prop where
  | wrap {r : Reply} {isLast : Bool} (hverdict : r.verdict = .ok) (hproduced : r.produced = r.output.length)
    (hfits : r.output.length ≤ room) : Answers room .output (.wrap r isLast)
  /-- A record is unwrapped, which has no output, and uses up input or leads on. -/
  | unwrap {demand : Demand} {r : Reply} (hdemand : demand = .input ∨ demand = .none) (hverdict : r.verdict = .ok)
    (houtput : r.output = []) (hprogress : 0 < r.consumed ∨ r.demand ≠ .input ∧ r.demand ≠ .none) :
    Answers room demand (.unwrap r)
  /-- The record is not complete, and nothing changes. -/
  | underflow {demand : Demand} {r : Reply} (hdemand : demand = .input ∨ demand = .none)
    (hverdict : r.verdict = .underflow) (houtput : r.output = []) (hconsumed : r.consumed = 0)
    (hsame : r.demand = demand) : Answers room demand (.unwrap r)
  | task (next : Demand) : Answers room .task (.task next)

end ScriptStep

namespace Script

open ScriptStep

/-- What is sent for the steps. -/
def pieces (steps : List ScriptStep) : List Bytes := steps.filterMap piece?

def consumed (steps : List ScriptStep) : Nat := (steps.map ScriptStep.consumed).sum

def underflows (steps : List ScriptStep) : Nat := steps.countP isUnderflow

def tasks (steps : List ScriptStep) : Nat := steps.countP isTask

theorem pieces_append (a b : List ScriptStep) : pieces (a ++ b) = pieces a ++ pieces b := List.filterMap_append

theorem tasks_append (a b : List ScriptStep) : tasks (a ++ b) = tasks a + tasks b := List.countP_append

theorem consumed_cons (step : ScriptStep) (steps : List ScriptStep) :
    consumed (step :: steps) = step.consumed + consumed steps := rfl

/-- The steps lead from a demand to the end of the handshake, each of them answering the demand before it. -/
inductive Leads (room : Nat) : Demand → List ScriptStep → Prop where
  | done : Leads room .finished []
  | step {demand : Demand} {step : ScriptStep} {steps : List ScriptStep} (hstep : step.Answers room demand)
    (hrest : Leads room step.reports steps) : Leads room demand (step :: steps)

namespace Leads

variable {room : Nat} {demand : Demand} {step : ScriptStep} {steps : List ScriptStep}

theorem of_cons (h : Leads room demand (step :: steps)) : Leads room step.reports steps := by
  cases h with
  | step hstep hrest => exact hrest

theorem of_finished (h : Leads room .finished steps) : steps = [] := by
  cases h with
  | done => rfl
  | step hstep =>
    cases hstep with
    | unwrap hdemand | underflow hdemand => exact absurd hdemand (by decide)

theorem of_task (h : Leads room .task steps) : ∃ next rest, steps = .task next :: rest := by
  cases h with
  | @step _ step rest hstep =>
    cases hstep with
    | task next => exact ⟨next, rest, rfl⟩
    | unwrap hdemand | underflow hdemand => exact absurd hdemand (by decide)

theorem of_output (h : Leads room .output steps) :
    ∃ r isLast rest, steps = .wrap r isLast :: rest ∧ r.verdict = .ok ∧ r.produced = r.output.length ∧
      r.output.length ≤ room := by
  cases h with
  | @step _ step rest hstep =>
    cases hstep with
    | wrap hverdict hproduced hfits => exact ⟨_, _, rest, rfl, hverdict, hproduced, hfits⟩
    | unwrap hdemand | underflow hdemand => exact absurd hdemand (by decide)

theorem of_input (h : Leads room demand steps) (hdemand : demand = .input ∨ demand = .none) :
    ∃ r rest, steps = .unwrap r :: rest ∧ r.output = [] ∧
      (r.verdict = .ok ∧ (0 < r.consumed ∨ r.demand ≠ .input ∧ r.demand ≠ .none) ∨
        r.verdict = .underflow ∧ r.consumed = 0) := by
  cases h with
  | done => exact absurd hdemand (by decide)
  | @step _ step rest hstep =>
    cases hstep with
    | wrap | task => exact absurd hdemand (by decide)
    | unwrap _ hverdict houtput hprogress => exact ⟨_, rest, rfl, houtput, .inl ⟨hverdict, hprogress⟩⟩
    | underflow _ hverdict houtput hconsumed => exact ⟨_, rest, rfl, houtput, .inr ⟨hverdict, hconsumed⟩⟩

end Leads

/-- The pieces in which the input arrives, one behind each step whose input is not complete.  In the end all of it is
used up, and no step uses up what has not arrived. -/
structure InTime (steps : List ScriptStep) (pieces : List Bytes) : Prop where
  length_eq : pieces.flatten.length = consumed steps
  count_eq : pieces.length = underflows steps + 1
  arrived : ∀ n < steps.length, consumed (steps.take (n + 1)) ≤
    (pieces.take (underflows (steps.take n) + 1)).flatten.length

namespace InTime

variable {step : ScriptStep} {steps : List ScriptStep} {input : Bytes} {pieces : List Bytes}

theorem of_nil (h : InTime [] (input :: pieces)) : input = [] ∧ pieces = [] := by
  obtain rfl : pieces = [] := List.eq_nil_of_length_eq_zero (Nat.succ.inj h.count_eq)
  have hlength := h.length_eq
  rw [List.flatten_cons, List.flatten_nil, List.append_nil] at hlength
  exact ⟨List.eq_nil_of_length_eq_zero hlength, rfl⟩

/-- A step uses up input that has arrived. -/
theorem of_step (h : InTime (step :: steps) (input :: pieces)) (hstep : step.isUnderflow = false) :
    step.consumed ≤ input.length ∧ InTime steps (input.drop step.consumed :: pieces) := by
  have hfirst := h.arrived 0 (Nat.succ_pos _)
  have hlength := h.length_eq
  have hcount := h.count_eq
  have hunderflows (rest : List ScriptStep) : underflows (step :: rest) = underflows rest :=
    List.countP_cons_of_neg (by rw [hstep]; exact Bool.false_ne_true)
  simp only [List.take_succ_cons, List.take_zero, consumed_cons, underflows, List.countP_nil, List.flatten_cons,
    List.flatten_nil, List.append_nil] at hfirst
  rw [consumed_cons, List.flatten_cons, List.length_append] at hlength
  rw [hunderflows, List.length_cons] at hcount
  refine ⟨Nat.le_trans (Nat.le_add_right _ _) hfirst, ?_, by rw [List.length_cons]; exact hcount, fun n hn => ?_⟩
  · rw [List.flatten_cons, List.length_append, List.length_drop]
    omega
  · have harrived := h.arrived (n + 1) (Nat.succ_lt_succ hn)
    simp only [List.take_succ_cons, consumed_cons, hunderflows, List.flatten_cons, List.length_append,
      List.length_drop] at harrived ⊢
    omega

/-- Behind a step whose input is not complete there is a further piece. -/
theorem of_underflow (h : InTime (step :: steps) (input :: pieces)) (hstep : step.isUnderflow = true)
    (hconsumed : step.consumed = 0) : ∃ next rest, pieces = next :: rest ∧ InTime steps ((input ++ next) :: rest) := by
  have hlength := h.length_eq
  have hcount := h.count_eq
  have hunderflows (rest : List ScriptStep) : underflows (step :: rest) = underflows rest + 1 :=
    List.countP_cons_of_pos hstep
  rcases pieces with _ | ⟨next, rest⟩
  · rw [hunderflows] at hcount
    cases hcount
  · rw [hunderflows] at hcount
    rw [consumed_cons, hconsumed, Nat.zero_add] at hlength
    refine ⟨next, rest, rfl, ?_, Nat.succ.inj hcount, fun n hn => ?_⟩
    · rw [← hlength, List.flatten_cons, List.flatten_cons, List.flatten_cons, List.append_assoc]
    · have harrived := h.arrived (n + 1) (Nat.succ_lt_succ hn)
      simpa only [List.take_succ_cons, consumed_cons, hconsumed, hunderflows, Nat.zero_add, List.flatten_cons,
        List.append_assoc] using harrived

end InTime

end Script

theorem Playback.takeTask?_eq_some {p p' : Playback} (h : p.takeTask? = some p') :
    ∃ next steps, p.steps = .task next :: steps ∧ p' = { p with steps, demand := next } := by
  unfold takeTask? at h
  split at h
  · next next steps hsteps =>
    cases h
    exact ⟨next, steps, hsteps, rfl⟩
  · cases h

theorem Playback.wrap_eq {p : Playback} {r : Reply} {isLast : Bool} {steps : List ScriptStep} {room : Nat}
    (hsteps : p.steps = .wrap r isLast :: steps) (hfits : r.output.length ≤ room) :
    p.wrap room = (.ok r, { p with steps, demand := r.demand, isOutputOver := p.isOutputOver || isLast }) := by
  unfold wrap
  rw [hsteps]
  exact if_neg (Nat.not_lt.2 hfits)

theorem Playback.unwrap_eq {p : Playback} {r : Reply} {steps : List ScriptStep} {room : Nat}
    (hsteps : p.steps = .unwrap r :: steps) (hfits : r.output.length ≤ room) :
    p.unwrap room = (.ok r, { p with steps, demand := r.demand, isOutputOver := p.isOutputOver || false }) := by
  unfold unwrap
  rw [hsteps]
  exact if_neg (Nat.not_lt.2 hfits)

end SecureStream
