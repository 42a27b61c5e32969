import SecureStream.Size

/-!
# Sizing of buffers

The configuration of a channel: how large its buffers are at first, by how much they grow, and how large they may get.
-/

namespace SecureStream

/-- The sizes of buffers, in bytes. -/
@[ext] structure Sizing where
  /-- The step in which buffers grow. -/
  growth : Nat
  /-- The first size of a buffer for the output of the handshake, which is thrown away. -/
  handshakeRoom : Nat
  /-- By how much the first buffer for a message exceeds the message. -/
  headroom : Nat
  /-- How many times larger than the input the first buffer for messages is. -/
  expansion : Nat
  /-- The largest size of any buffer. -/
  limit : Nat
  growth_pos : 0 < growth
  expansion_pos : 0 < expansion
  deriving Repr

namespace Sizing

instance : DecidableEq Sizing := fun _ _ => decidable_of_iff _ Sizing.ext_iff.symm

def usual : Sizing where
  growth := 4096
  handshakeRoom := 1024
  headroom := 50
  expansion := 3
  limit := 1048576
  growth_pos := Nat.succ_pos 4095
  expansion_pos := Nat.succ_pos 2

/-- Changes the step of growth. A step of zero would lead nowhere, so it becomes one. -/
def withGrowth (s : Sizing) (n : Nat) : Sizing :=
  { s with growth := max n 1, growth_pos := Nat.lt_of_lt_of_le Nat.one_pos (Nat.le_max_right n 1) }

def withHandshakeRoom (s : Sizing) (n : Nat) : Sizing := { s with handshakeRoom := n }

def withHeadroom (s : Sizing) (n : Nat) : Sizing := { s with headroom := n }

/-- Changes the expansion. An expansion of zero becomes one. -/
def withExpansion (s : Sizing) (n : Nat) : Sizing :=
  { s with expansion := max n 1, expansion_pos := Nat.lt_of_lt_of_le Nat.one_pos (Nat.le_max_right n 1) }

def withLimit (s : Sizing) (n : Nat) : Sizing := { s with limit := n }

/-- The first size of the buffer for what `n` bytes of input unwrap to. -/
def plaintextRoom (s : Sizing) (n : Nat) : Nat := min (Size.mul n s.expansion) s.limit

/-- The first size of the buffer for what a message of `n` bytes is wrapped in. -/
def ciphertextRoom (s : Sizing) (n : Nat) : Nat := min (Size.add n s.headroom) s.limit

/-- A size that does not exceed the limit. -/
def cap (s : Sizing) (n : Nat) : Nat := min n s.limit

theorem plaintextRoom_le (s : Sizing) (n : Nat) : s.plaintextRoom n ≤ s.limit := Nat.min_le_right _ _

theorem ciphertextRoom_le (s : Sizing) (n : Nat) : s.ciphertextRoom n ≤ s.limit := Nat.min_le_right _ _

theorem cap_le (s : Sizing) (n : Nat) : s.cap n ≤ s.limit := Nat.min_le_right _ _

end Sizing

end SecureStream
