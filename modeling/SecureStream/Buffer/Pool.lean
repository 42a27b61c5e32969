import SecureStream.Buffer.Memory
import SecureStream.Sizing

/-!
# Pools of buffers

A `Pool` is what buffers are made from: a configuration, which tells how large they are to be, and the memory in which
they lie.
-/

namespace SecureStream

/-- The sizes of buffers, and the memory in which they are made. -/
structure Pool extends Sizing where
  memory : Memory
  deriving Repr

namespace Pool

/-- Buffers of the given sizes, in a memory with blocks of less than `2 ^ 35` bytes. -/
def ofSizing (s : Sizing) : Pool := ⟨s, ⟨34359738367⟩⟩

def usual : Pool := ofSizing .usual

theorem zero_lt_growth (p : Pool) : 0 < p.growth := p.toSizing.growth_pos

end Pool

end SecureStream
