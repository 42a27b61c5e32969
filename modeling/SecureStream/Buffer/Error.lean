/-!
# Errors of buffers

A buffer must not exceed its limit, and it needs a block of memory.
-/

namespace SecureStream

/-- Why there is no block of memory of some size. -/
inductive Shortage where
  /-- No block is so large. -/
  | tooLarge
  /-- There is not so much memory. -/
  | exhausted
  deriving DecidableEq, Repr

namespace Shortage

def message : Shortage → String
  | tooLarge => "memory allocation failed because the computed capacity exceeded the collection's maximum"
  | exhausted => "memory allocation failed because the memory allocator returned an error"

end Shortage

/-- Why a buffer cannot be made, or cannot grow. -/
inductive BufferError where
  /-- The size that was asked for exceeds the limit. -/
  | overLimit (requested limit : Nat)
  /-- There is no block of memory with so many more bytes. -/
  | noMemory (requested : Nat) (reason : Shortage)
  deriving DecidableEq, Repr

namespace BufferError

def message : BufferError → String
  | overLimit requested limit => s!"buffer of {requested} bytes exceeds the {limit} byte limit"
  | noMemory requested reason => s!"failed to reserve {requested} bytes: {reason.message}"

end BufferError

end SecureStream
