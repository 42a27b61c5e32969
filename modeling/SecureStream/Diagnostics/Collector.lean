import SecureStream.Diagnostics.Event
import SecureStream.Diagnostics.Verbosity

/-!
# Collecting diagnostics

A `Collector` keeps the diagnostics of one thread of execution together with its verbosity. Events reach it through a
`Tap`, the wire layer behind the tracing, which has a verbosity of its own: an event passes when one of the two allows
it. How a layer is installed, and filters in front of it, are left out.
-/

namespace SecureStream

structure Diagnostic where
  topic : Topic
  level : UInt8
  text : String
  deriving DecidableEq, Repr

/-- The verbosity and the diagnostics of one thread. -/
structure Collector where
  verbosity : Verbosity
  kept : Array Diagnostic
  deriving DecidableEq, Repr

namespace Collector

/-- Nothing kept, nothing reported. -/
def fresh : Collector := ⟨.quiet, #[]⟩

def allows (c : Collector) (topic : Topic) (level : UInt8) : Bool := level ≤ c.verbosity.levels.get topic

/-- Keeps a diagnostic, whatever the verbosity. -/
def keep (c : Collector) (d : Diagnostic) : Collector := { c with kept := c.kept.push d }

/-- Hands out the diagnostics, oldest first, and forgets them. -/
def drain (c : Collector) : List Diagnostic × Collector := (c.kept.toList, { c with kept := #[] })

end Collector

/-- Leads events to a collector. -/
structure Tap where
  verbosity : Verbosity
  deriving DecidableEq, Repr

namespace Tap

/-- A tap that leaves the choice to the collector. -/
def plain : Tap := ⟨.quiet⟩

/-- A topic passes at this level of detail. -/
def allows (tap : Tap) (c : Collector) (topic : Topic) (level : UInt8) : Bool :=
  level ≤ tap.verbosity.levels.get topic || c.allows topic level

/-- The diagnostic that an event turns into, if it passes. -/
def diagnostic? (tap : Tap) (c : Collector) (e : Event) : Option Diagnostic := do
  let topic ← Event.topicOf? e.target
  let level := e.severity.level
  if tap.allows c topic level then
    let text ← e.text?
    some ⟨topic, level, text⟩
  else none

def offer (tap : Tap) (c : Collector) (e : Event) : Collector :=
  match tap.diagnostic? c e with
  | some d => c.keep d
  | none => c

def offerAll (tap : Tap) (c : Collector) (events : List Event) : Collector := events.foldl tap.offer c

end Tap

end SecureStream
