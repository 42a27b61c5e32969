import Mathlib.Data.List.Basic
import SecureStream.Proofs.Diagnostics.Collecting

/-!
# Programs that report

A `Program` runs on a thread and may do with the collector of the thread what it likes.  Diagnostics do not
interfere with it (`Program.IsUndisturbed`) if no collector makes a difference to any result or state, and if a
collector keeps what the highest verbosity would keep, less what its own verbosity does not cover.

A `Reporter` is a system that emits events, and a thread hands them to a tap that leaves the choice to the
collector.  Diagnostics do not interfere with it, and when everything is to be heard none of its events is lost
as long as each is of a topic and has a message (`Reporter.HasTopics.isDiscreet`).
-/

namespace SecureStream

/-! ### Programs -/

/-- A program whose operations have the collector of the thread at hand. -/
structure Program (State Op Result : Type) where
  step : State → Op → Collector → Result × State × Collector

namespace Program

variable {State Op Result : Type} (p : Program State Op Result)

/-- Runs operations one after the other.  Gives the result of each with the state after it, and the collector in
the end. -/
def run (s : State) (c : Collector) : List Op → List (Result × State) × Collector
  | [] => ([], c)
  | op :: ops =>
    let (result, s', c') := p.step s op c
    let (rest, last) := run s' c' ops
    ((result, s') :: rest, last)

/-- All that there is to hear of a run. -/
def heard (s : State) (ops : List Op) : List Diagnostic := (p.run s ⟨.highest, #[]⟩ ops).2.kept.toList

/-- Diagnostics do not interfere. -/
structure IsUndisturbed : Prop where
  run_eq : ∀ (s : State) (ops : List Op) (c c' : Collector), (p.run s c ops).1 = (p.run s c' ops).1
  kept_eq : ∀ (s : State) (ops : List Op) (c : Collector),
    (p.run s c ops).2 = { c with kept := c.kept ++ (p.heard s ops).filter c.verbosity.covers }

end Program

/-! ### Reporters -/

/-- A system that emits events: each operation gives a result, the state after it, and its events, oldest
first. -/
structure Reporter (State Op Result : Type) where
  act : State → Op → Result × State × List Event

namespace Reporter

variable {State Op Result : Type} (r : Reporter State Op Result)

/-- A reporter on a thread, behind a tap without levels of its own. -/
def program : Program State Op Result where
  step s op c :=
    let (result, s', events) := r.act s op
    (result, s', Tap.plain.offerAll c events)

/-- The results and the states of a run. -/
def course (s : State) : List Op → List (Result × State)
  | [] => []
  | op :: ops => ((r.act s op).1, (r.act s op).2.1) :: course (r.act s op).2.1 ops

/-- The events of a run. -/
def emitted (s : State) : List Op → List Event
  | [] => []
  | op :: ops => (r.act s op).2.2 ++ emitted (r.act s op).2.1 ops

theorem run_program (s : State) (c : Collector) (ops : List Op) :
    r.program.run s c ops = (r.course s ops, Tap.plain.offerAll c (r.emitted s ops)) := by
  induction ops generalizing s c with
  | nil => rfl
  | cons op ops ih =>
    rw [emitted, Tap.offerAll_append]
    simp only [Program.run, ih, course]
    rfl

theorem heard_program (s : State) (ops : List Op) :
    r.program.heard s ops = (r.emitted s ops).filterMap Event.diagnostic? := by
  have hall : ∀ d ∈ (r.emitted s ops).filterMap Event.diagnostic?, Verbosity.highest.covers d = true := by
    intro d hd
    obtain ⟨e, -, he⟩ := List.mem_filterMap.1 hd
    exact Verbosity.covers_highest he
  rw [Program.heard, run_program, Tap.offerAll_plain, List.filter_eq_self.2 hall]
  simp

theorem isUndisturbed_program : r.program.IsUndisturbed where
  run_eq s ops c c' := by rw [run_program, run_program]
  kept_eq s ops c := by rw [heard_program, run_program, Tap.offerAll_plain]

/-- Every event is of a topic and has a message. -/
def HasTopics : Prop := ∀ (s : State) (op : Op), ∀ e ∈ (r.act s op).2.2, e.diagnostic?.isSome

/-- Diagnostics do not interfere, and everything that is reported can be heard: at the highest verbosity each
event is captured once, in order. -/
structure IsDiscreet : Prop where
  undisturbed : r.program.IsUndisturbed
  heard_eq : ∀ (s : State) (ops : List Op),
    (r.program.heard s ops).map some = (r.emitted s ops).map Event.diagnostic?

variable {r}

theorem HasTopics.emitted (h : r.HasTopics) (s : State) (ops : List Op) :
    ∀ e ∈ r.emitted s ops, e.diagnostic?.isSome := by
  induction ops generalizing s with
  | nil => exact fun e he => absurd he List.not_mem_nil
  | cons op ops ih =>
    intro e he
    rcases List.mem_append.1 he with hnow | hlater
    · exact h s op e hnow
    · exact ih _ e hlater

theorem HasTopics.isDiscreet (h : r.HasTopics) : r.IsDiscreet where
  undisturbed := r.isUndisturbed_program
  heard_eq s ops := by
    rw [heard_program, List.map_filterMap_some_eq_filter_map_isSome, List.filter_eq_self]
    simpa using h.emitted s ops

end Reporter

end SecureStream
