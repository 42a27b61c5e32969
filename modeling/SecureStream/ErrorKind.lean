/-!
# Kinds of errors

A stream tells its users the kind of an error beside its text, so that they can react without reading it.
-/

namespace SecureStream

/-- What kind of trouble an error reports. -/
inductive ErrorKind where
  /-- The caller asked for something impossible. -/
  | invalidInput
  /-- The bytes, or the party that produced them, broke the rules. -/
  | invalidData
  /-- The stream ended too early. -/
  | unexpectedEnd
  /-- The other side gave the connection up. -/
  | connectionAborted
  /-- There is no connection yet. -/
  | notConnected
  /-- A block of memory could not be had. -/
  | outOfMemory
  /-- Anything else. -/
  | other
  deriving DecidableEq, Repr

end SecureStream
