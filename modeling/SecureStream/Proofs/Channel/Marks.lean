import SecureStream.Proofs.Buffer.Room
import SecureStream.Proofs.Channel.Calls

/-!
# Marks

A channel hands slices to its engine: the rest of the input behind a cursor, the rest of a message behind an
offset, and the free part of a buffer behind a fill mark.  The engine says by how much the marks move, and may
say anything.  `Marks` are these numbers, moved by the arithmetic of sizes, which stops at the largest size:
`Marks.after` tells what one call makes of them, and `Marks.Logs` what the calls of a log do.

The marks stay in range (`Marks.InRange`): no cursor passes the end of what it points into, no fill mark passes
the buffer, and no buffer the limit.  A new buffer keeps that (`Marks.InRange.renew`), one call keeps it
(`Marks.InRange.after`), and so does a log (`Marks.Logs.inRange`, `Marks.Logs.split`).
-/

namespace SecureStream

/-- What a request works on.  All sizes fit 64 bits. -/
structure Supply where
  pool : Pool
  /-- The input, behind what has waited for it. -/
  pending : Bytes
  /-- What is to be wrapped. -/
  message : Bytes
  limit_le : pool.limit ≤ Size.top
  pending_le : pending.length ≤ Size.top
  message_le : message.length ≤ Size.top

/-- How far a request has come. -/
structure Marks where
  /-- How many bytes of the input have been used up. -/
  cursor : Nat
  /-- How many bytes of the message have been wrapped. -/
  offset : Nat
  /-- The size of the buffer in use. -/
  capacity : Nat
  /-- How many bytes of the buffer count. -/
  filled : Nat

/-- The space for output that a call gives, and the bytes that it hands over, keep a limit. -/
def Call.IsWithin (limit : Nat) : Call → Prop
  | wrap _ room _ | unwrap _ room _ => room ≤ limit
  | enqueue bytes | deliver bytes => bytes.length ≤ limit
  | _ => True

namespace Marks

variable {d : Supply} {g g' g'' : Marks}

/-- Before the first call there is no buffer. -/
def start : Marks := ⟨0, 0, 0, 0⟩

/-- The size of a new buffer: for output of the handshake and behind the end, for output that is thrown away,
for messages that come in, and for a message that goes out. -/
inductive FirstRoom (d : Supply) (g : Marks) : Nat → Prop where
  | output (largest : Nat) : FirstRoom d g (d.pool.cap largest)
  | handshake : FirstRoom d g (d.pool.cap d.pool.handshakeRoom)
  | plaintext : FirstRoom d g (d.pool.plaintextRoom (d.pending.length - g.cursor))
  | ciphertext : FirstRoom d g (d.pool.ciphertextRoom d.message.length)

/-- A new buffer is taken, and a message is wrapped from its start. -/
def renew (g : Marks) (capacity : Nat) : Marks := { g with offset := 0, capacity, filled := 0 }

/-- No byte of the buffer counts any more. -/
def free (g : Marks) : Marks := { g with filled := 0 }

/-- More bytes count, and a buffer that was too small has grown by one step if the limit allows it. -/
def fill (d : Supply) (g : Marks) (r : Reply) : Marks :=
  { g with
    filled := min (Size.add g.filled r.produced) g.capacity
    capacity :=
      if r.verdict = .overflow ∧ Size.add g.capacity d.pool.growth ≤ d.pool.limit then
        Size.add g.capacity d.pool.growth
      else g.capacity }

/-- What a call makes of the marks. -/
def after (d : Supply) (g : Marks) : Call → Marks
  | .wrap _ _ (.ok r) => { g.fill d r with offset := min (Size.add g.offset r.consumed) d.message.length }
  | .unwrap _ _ (.ok r) => { g.fill d r with cursor := min (Size.add g.cursor r.consumed) d.pending.length }
  | .deliver _ => g.free
  | _ => g

/-- The call is given the slices that the marks tell. -/
def Gives (d : Supply) (g : Marks) : Call → Prop
  | .wrap input room _ => input = d.message.drop g.offset ∧ room = g.capacity - g.filled
  | .unwrap input room _ => input = d.pending.drop g.cursor ∧ room = g.capacity - g.filled
  | .enqueue piece => piece.length = g.filled
  | .deliver message => message.length = g.filled
  | _ => True

/-- The calls of a log are given the slices that the marks tell, and lead to other marks.  Between two of them a
new buffer may be taken. -/
inductive Logs (d : Supply) : Marks → List Call → Marks → Prop where
  | nil (g : Marks) : Logs d g [] g
  | renew {g g' : Marks} {calls : List Call} {capacity : Nat} (hroom : FirstRoom d g capacity)
    (hrest : Logs d (g.renew capacity) calls g') : Logs d g calls g'
  | call {g g' : Marks} {call : Call} {calls : List Call} (hgives : g.Gives d call)
    (hrest : Logs d (g.after d call) calls g') : Logs d g (call :: calls) g'

theorem Logs.append {a b : List Call} (h : Logs d g a g') (h' : Logs d g' b g'') : Logs d g (a ++ b) g'' := by
  induction h with
  | nil => exact h'
  | renew hroom _ ih => exact .renew hroom (ih h')
  | call hgives _ ih => exact .call hgives (ih h')

/-- Calls that are given no slice leave the marks as they are. -/
theorem logs_of_kinds {kinds : List CallKind} {calls : List Call} (h : ∀ call ∈ calls, call.kind ∈ kinds)
    (hkinds : .wrap ∉ kinds ∧ .unwrap ∉ kinds ∧ .enqueue ∉ kinds ∧ .deliver ∉ kinds) : Logs d g calls g := by
  induction calls with
  | nil => exact .nil g
  | cons call calls ih =>
    have hkind := h call List.mem_cons_self
    have hrest : Logs d g calls g := ih fun other hmem => h other (List.mem_cons_of_mem _ hmem)
    obtain ⟨hwrap, hunwrap, henqueue, hdeliver⟩ := hkinds
    cases call with
    | wrap => exact absurd hkind hwrap
    | unwrap => exact absurd hkind hunwrap
    | enqueue => exact absurd hkind henqueue
    | deliver => exact absurd hkind hdeliver
    | _ => exact .call trivial hrest

/-! ### What stays in range -/

/-- No mark passes the end of what it points into, and no buffer is larger than the limit. -/
structure InRange (d : Supply) (g : Marks) : Prop where
  cursor_le : g.cursor ≤ d.pending.length
  offset_le : g.offset ≤ d.message.length
  filled_le : g.filled ≤ g.capacity
  capacity_le : g.capacity ≤ d.pool.limit

theorem inRange_start (d : Supply) : start.InRange d :=
  ⟨Nat.zero_le _, Nat.zero_le _, Nat.le_refl _, Nat.zero_le _⟩

theorem FirstRoom.le_limit {capacity : Nat} (h : FirstRoom d g capacity) : capacity ≤ d.pool.limit := by
  cases h with
  | output | handshake => exact Sizing.cap_le ..
  | plaintext => exact Sizing.plaintextRoom_le ..
  | ciphertext => exact Sizing.ciphertextRoom_le ..

namespace InRange

variable (h : g.InRange d)

include h

theorem renew {capacity : Nat} (hroom : FirstRoom d g capacity) : (g.renew capacity).InRange d :=
  ⟨h.cursor_le, Nat.zero_le _, Nat.zero_le _, hroom.le_limit⟩

/-- Whatever a reply says, the fill mark stops at the end of the buffer, and the buffer at the limit. -/
theorem fill (r : Reply) : (g.fill d r).InRange d := by
  have hfilled : min (Size.add g.filled r.produced) g.capacity ≤ g.capacity := Nat.min_le_right _ _
  have hcapacity := Nat.le_trans h.capacity_le d.limit_le
  refine ⟨h.cursor_le, h.offset_le, ?_, ?_⟩
  · show min (Size.add g.filled r.produced) g.capacity ≤ if _ then _ else _
    split
    · have hgrown : g.capacity ≤ Size.add g.capacity d.pool.growth :=
        Nat.le_min.2 ⟨Nat.le_add_right _ _, hcapacity⟩
      exact Nat.le_trans hfilled hgrown
    · exact hfilled
  · show (if _ then _ else _) ≤ d.pool.limit
    split
    · next hgrown => exact hgrown.2
    · exact h.capacity_le

theorem after (call : Call) : (g.after d call).InRange d := by
  cases call with
  | wrap input room answer =>
    cases answer with
    | ok r =>
      have hfill := h.fill r
      exact ⟨hfill.cursor_le, Nat.min_le_right _ _, hfill.filled_le, hfill.capacity_le⟩
    | error e => exact h
  | unwrap input room answer =>
    cases answer with
    | ok r =>
      have hfill := h.fill r
      exact ⟨Nat.min_le_right _ _, hfill.offset_le, hfill.filled_le, hfill.capacity_le⟩
    | error e => exact h
  | deliver message => exact ⟨h.cursor_le, h.offset_le, Nat.zero_le _, h.capacity_le⟩
  | _ => exact h

end InRange

/-- A log that begins in range ends in range. -/
theorem Logs.inRange {calls : List Call} (h : Logs d g calls g') (hg : g.InRange d) : g'.InRange d := by
  induction h with
  | nil => exact hg
  | renew hroom _ ih => exact ih (hg.renew hroom)
  | call _ _ ih => exact ih (hg.after _)

/-- In a log that begins in range, every call is made in range. -/
theorem Logs.split {calls : List Call} (h : Logs d g calls g') (hg : g.InRange d) :
    ∀ before call rest, calls = before ++ call :: rest →
      ∃ g₁, Logs d g before g₁ ∧ g₁.InRange d ∧ g₁.Gives d call := by
  induction h with
  | nil g =>
    intro before call rest hcalls
    simp at hcalls
  | renew hroom hrest ih =>
    intro before call rest hcalls
    obtain ⟨g₁, hlogs, hrange, hgives⟩ := ih (hg.renew hroom) before call rest hcalls
    exact ⟨g₁, .renew hroom hlogs, hrange, hgives⟩
  | @call g g' first calls hgives hrest ih =>
    intro before call rest hcalls
    cases before with
    | nil =>
      obtain ⟨rfl, -⟩ := List.cons.inj hcalls
      exact ⟨g, .nil g, hg, hgives⟩
    | cons other before =>
      obtain ⟨rfl, hbehind⟩ := List.cons.inj hcalls
      obtain ⟨g₁, hlogs, hrange, hgives₁⟩ := ih (hg.after _) before call rest hbehind
      exact ⟨g₁, .call hgives hlogs, hrange, hgives₁⟩

/-- What is handed over in range keeps the limit. -/
theorem Gives.isWithin {call : Call} (h : g.Gives d call) (hg : g.InRange d) : call.IsWithin d.pool.limit := by
  have hfilled := hg.filled_le
  have hcapacity := hg.capacity_le
  have hroom : g.capacity - g.filled ≤ d.pool.limit := Nat.le_trans (Nat.sub_le _ _) hcapacity
  have hlength : g.filled ≤ d.pool.limit := Nat.le_trans hfilled hcapacity
  cases call with
  | wrap input room answer | unwrap input room answer => exact h.2 ▸ hroom
  | enqueue bytes | deliver bytes =>
    have heq : bytes.length = g.filled := h
    exact Nat.le_trans (Nat.le_of_eq heq) hlength
  | _ => trivial

end Marks

end SecureStream
