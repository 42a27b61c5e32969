import SecureStream.Text.Decimal
import SecureStream.Text.Quoted

/-!
# Attributes of a session

What is known of a session before its channel is opened: whom it talks to (its peer address), and whether the other
side has to show who it is (the mode of client authentication).
-/

namespace SecureStream

/-- The name or number of a host, and a port. -/
structure HostPort where
  host : String
  port : UInt16
  deriving DecidableEq, Repr

namespace HostPort

def text (a : HostPort) : String := s!"{a.host}:{a.port}"

/-- The address with the names of its parts, as it stands in diagnostics. -/
def listing (a : HostPort) : String :=
  s!"PeerAddress \x7b host: {Text.quoted a.host}, port: {a.port} \x7d"

/-- A host without the brackets that set a number with colons off from its port, and without the zone that may stand
behind the number. -/
def unbracketed (host : List Char) : List Char :=
  match host with
  | '[' :: rest => rest.takeWhile fun c => c != ']' && c != '%'
  | _ => host

/-- The address of a socket, written as host and port. -/
def ofSocket? (socket : String) : Option HostPort := do
  -- the last colon sets off the port; a host may hold others
  let backwards := socket.toList.reverse
  let port ← Text.decimal? 65535 (backwards.takeWhile (· != ':')).reverse
  match backwards.dropWhile (· != ':') with
  | ':' :: host => some ⟨String.ofList (unbracketed host.reverse), UInt16.ofNat port⟩
  | _ => none

end HostPort

/-- How a server asks its client for a certificate. -/
inductive CertificatePolicy where
  /-- Not at all. -/
  | none
  /-- It may be missing. -/
  | want
  /-- It must be there. -/
  | need
  deriving DecidableEq, Repr

namespace CertificatePolicy

def name : CertificatePolicy → String
  | none => "None"
  | want => "Want"
  | need => "Need"

/-- Makes one way of asking out of two wishes. `want` wins over `need`. -/
def resolve (want need : Option Bool) : CertificatePolicy :=
  if want = some true then .want else if need = some true then .need else .none

/-- A certificate that is wanted may be missing, whether or not it is needed too.  Otherwise it must be there if it
is needed, and if it is neither wanted nor needed, it is not asked for. -/
theorem resolve_cases (want need : Option Bool) :
    want = some true ∧ resolve want need = .want ∨
      want ≠ some true ∧ need = some true ∧ resolve want need = .need ∨
      want ≠ some true ∧ need ≠ some true ∧ resolve want need = .none := by
  unfold resolve
  by_cases hwant : want = some true
  · exact .inl ⟨hwant, if_pos hwant⟩
  · by_cases hneed : need = some true
    · exact .inr (.inl ⟨hwant, hneed, by rw [if_neg hwant, if_pos hneed]⟩)
    · exact .inr (.inr ⟨hwant, hneed, by rw [if_neg hwant, if_neg hneed]⟩)

end CertificatePolicy

/-- What is known of a session before its channel is opened. -/
structure Attributes where
  peer : Option HostPort
  want : Option Bool
  need : Option Bool
  deriving DecidableEq, Repr

namespace Attributes

/-- Nothing is known. -/
def unknown : Attributes := ⟨none, none, none⟩

/-- How a server asks its client for a certificate. -/
def certificatePolicy (a : Attributes) : CertificatePolicy := .resolve a.want a.need

end Attributes

end SecureStream
