import SecureStream.Diagnostics.Verbosity
import SecureStream.Json.Value

/-!
# Verbosity in JSON

Levels are written as a record of five numbers of at most 255, a verbosity as a record with the single field `debug`,
and a topic as a string, or as an object whose only member has the topic for its name and holds nothing.
-/

namespace SecureStream

namespace Topic

def jsonName : Topic → String
  | codec => "Codec"
  | handshake => "Handshake"
  | record => "Record"
  | close => "Close"
  | engine => "Engine"

def ofJson? : JsonValue → Option Topic
  | .string (some name) => all.find? (·.jsonName == name)
  | .object [(some name, .null)] => all.find? (·.jsonName == name)
  | _ => none

def toJson (t : Topic) : JsonValue := .string (some t.jsonName)

end Topic

namespace Levels

/-- Reads levels, none of which may be missing. -/
def ofJson? (v : JsonValue) : Option Levels := do
  let fields ← v.fields? (Topic.all.map Topic.name)
  let numbers ← fields.mapM fun field => (field.bind (·.nat? 255)).map UInt8.ofNat
  match numbers with
  | [codec, handshake, record, close, engine] => some ⟨codec, handshake, record, close, engine⟩
  | _ => none

def toJson (l : Levels) : JsonValue := .ofFields (Topic.all.map fun t => (t.name, .ofNat (l.get t).toNat))

end Levels

namespace Verbosity

def ofJson? (v : JsonValue) : Option Verbosity := do
  match ← v.fields? ["debug"] with
  | [some levels] => (Levels.ofJson? levels).map Verbosity.mk
  | _ => none

def toJson (v : Verbosity) : JsonValue := .ofFields [("debug", v.levels.toJson)]

end Verbosity

end SecureStream
