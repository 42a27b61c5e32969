import SecureStream.Json.Value
import SecureStream.Sizing

/-!
# Sizes of buffers in JSON

A sizing is written as a record of its five numbers. When it is read, a missing number has its usual value, and the
others are set one by one, so that a step or an expansion of zero becomes one.
-/

namespace SecureStream.Sizing

def fieldNames : List String :=
  ["growth_increment", "handshake_buffer_len", "write_headroom", "unwrap_expansion_factor", "max_buffer_len"]

/-- Sets a number if there is one, which must be a size. -/
def setField (set : Sizing → Nat → Sizing) (field : Option JsonValue) (s : Sizing) : Option Sizing :=
  match field with
  | none => some s
  | some v => (v.nat? Size.top).map (set s)

def ofJson? (v : JsonValue) : Option Sizing := do
  match ← v.fields? fieldNames with
  | [growth, handshakeRoom, headroom, expansion, limit] =>
    let s ← setField withGrowth growth usual
    let s ← setField withHandshakeRoom handshakeRoom s
    let s ← setField withHeadroom headroom s
    let s ← setField withExpansion expansion s
    setField withLimit limit s
  | _ => none

def toJson (s : Sizing) : JsonValue :=
  .ofFields (fieldNames.zip
    [.ofNat s.growth, .ofNat s.handshakeRoom, .ofNat s.headroom, .ofNat s.expansion, .ofNat s.limit])

end SecureStream.Sizing
