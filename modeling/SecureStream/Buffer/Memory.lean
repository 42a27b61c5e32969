import SecureStream.Buffer.Error
import SecureStream.Size

/-!
# Memory

A buffer lies in one block of memory. No block has more than `Size.maxBlock` bytes, and a memory may have none that is
so large.

* `Memory.reserve_eq_ok_iff`: there is a block if it exceeds neither bound.
-/

namespace SecureStream

/-- A memory, known by the largest block that is to be had. -/
structure Memory where
  /-- The size of the largest block, in bytes. -/
  largest : Nat
  deriving DecidableEq, Repr

namespace Memory

/-- Takes a block for `requested` bytes behind `held` ones, and makes something in it. -/
def reserve {α : Type} (m : Memory) (held requested : Nat) (make : held + requested ≤ Size.maxBlock → α) :
    Except BufferError α :=
  if h : Size.maxBlock < held + requested then .error (.noMemory requested .tooLarge)
  else if m.largest < held + requested then .error (.noMemory requested .exhausted)
  else .ok (make (Nat.le_of_not_lt h))

theorem reserve_eq_ok_iff {α : Type} {m : Memory} {held requested : Nat}
    {make : held + requested ≤ Size.maxBlock → α} {a : α} :
    m.reserve held requested make = .ok a ↔
      held + requested ≤ m.largest ∧ ∃ h : held + requested ≤ Size.maxBlock, make h = a := by
  unfold reserve
  split
  · exact iff_of_false (by simp) (fun ⟨_, h, _⟩ => by omega)
  · split
    · exact iff_of_false (by simp) (fun ⟨h, _⟩ => by omega)
    · have hblock : held + requested ≤ Size.maxBlock := by omega
      have hlargest : held + requested ≤ m.largest := by omega
      simp [hblock, hlargest]

theorem map_reserve {α β : Type} (f : α → β) (m : Memory) (held requested : Nat)
    (make : held + requested ≤ Size.maxBlock → α) :
    (m.reserve held requested make).map f = m.reserve held requested fun h => f (make h) := by
  unfold reserve
  split
  · rfl
  · split <;> rfl

end Memory

end SecureStream
