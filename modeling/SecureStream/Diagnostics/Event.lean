import SecureStream.Diagnostics.Topic
import SecureStream.Text.Split

/-!
# Events

An event says what happened, in fields with names and values, one of which is its message. Its target names the part
of the program that it comes from; targets of this library are made of `Event.targetStart` and the name of a topic.
-/

namespace SecureStream

inductive Severity where
  | error
  | warn
  | info
  | debug
  | trace
  deriving DecidableEq, Repr

/-- The level of detail at which events of a severity are reported. -/
def Severity.level : Severity → UInt8
  | error | warn | info => 1
  | debug => 2
  | trace => 3

structure Event where
  target : String
  severity : Severity
  /-- The names of the fields, each with the text that its value is shown as, in the order in which they are written. -/
  fields : List (String × String)
  deriving DecidableEq, Repr

namespace Event

/-- What all targets of this library start with. -/
def targetStart : String := "tidewire::"

/-- The part of a target up to the first pair of colons. -/
def segment : List Char → List Char
  | ':' :: ':' :: _ => []
  | c :: target => c :: segment target
  | [] => []

/-- The topic that a target names. -/
def topicOf? (target : String) : Option Topic := do
  let path ← Text.rest? targetStart.toList target.toList
  Topic.ofName? (String.ofList (segment path))

/-- The name of the field that is the message. -/
def messageName : String := "message"

/-- What has been taken down of the fields of an event. -/
structure Wording where
  /-- Some events have no message. -/
  message : Option String
  /-- All other fields, as `name=value`. -/
  details : List String

namespace Wording

def blank : Wording := ⟨none, []⟩

/-- Takes one more field down. -/
def record (w : Wording) (name value : String) : Wording :=
  -- a second message takes the place of the first one
  if name = messageName then { w with message := some value }
  else { w with details := w.details ++ [s!"{name}={value}"] }

/-- The message, then all other fields. -/
def text? (w : Wording) : Option String :=
  w.message.map fun message => w.details.foldl (fun text detail => s!"{text} {detail}") message

end Wording

def wording (e : Event) : Wording := e.fields.foldl (fun w (name, value) => w.record name value) .blank

/-- The text of an event with a message: the message, then each other field as `name=value`. -/
def text? (e : Event) : Option String := e.wording.text?

/-- An event of this library, whose message is always there and comes first. -/
def ofTopic (topic : Topic) (severity : Severity) (message : String) (fields : List (String × String)) : Event :=
  ⟨targetStart ++ topic.name, severity, (messageName, message) :: fields⟩

end Event

end SecureStream
