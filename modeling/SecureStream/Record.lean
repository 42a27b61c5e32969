import SecureStream.Bytes

/-!
# Masked records

The simplest record layer: a record is a kind, the length of its body in two bytes, and the body with a fixed mask
over every byte.

* `Record.mask_mask`: masking twice gives the bytes back.
* `Record.next?_toBytes_append`: a written record is read back, and what follows it is left.
-/

namespace SecureStream

structure Record where
  kind : UInt8
  payload : Bytes
  deriving DecidableEq, Repr

namespace Record

/-- The number of bytes before the body. -/
def headerSize : Nat := 3

/-- The longest body. -/
def maxPayload : Nat := 65535

/-- The kind of records that carry application data. -/
def data : UInt8 := 0x17

/-- The kind of records that carry the handshake. -/
def handshake : UInt8 := 0x16

/-- The kind of records that close the channel. -/
def alert : UInt8 := 0x15

/-- Puts the mask on, or takes it off. -/
def mask (bytes : Bytes) : Bytes := bytes.map (· ^^^ 0x5a)

/-- The bytes of a record, whose payload must not exceed `maxPayload`. -/
def toBytes (r : Record) : Bytes := r.kind :: Bytes.bigEndian 2 r.payload.length ++ mask r.payload

/-- The bytes of a record, if its payload is not too long. -/
def toBytes? (r : Record) : Option Bytes := if r.payload.length ≤ maxPayload then some r.toBytes else none

/-- The record at the front, if all of it is there, and what follows it. -/
def next? : Bytes → Option (Record × Bytes)
  | kind :: high :: low :: bytes =>
    (Bytes.splitExact? (Bytes.ofBigEndian [high, low]) bytes).map fun (body, rest) => (⟨kind, mask body⟩, rest)
  | _ => none

/-- The bytes are those of one record and nothing else, and this record is an alert. -/
def IsAlert (bytes : Bytes) : Prop := ∃ payload, next? bytes = some (⟨alert, payload⟩, [])

@[simp] theorem length_mask (bytes : Bytes) : (mask bytes).length = bytes.length := by simp [mask]

@[simp] theorem mask_mask (bytes : Bytes) : mask (mask bytes) = bytes := by
  simp only [mask, List.map_map]
  conv => rhs; rw [← List.map_id bytes]
  exact List.map_congr_left fun b _ =>
    (by rw [UInt8.xor_assoc, UInt8.xor_self, UInt8.xor_zero] : b ^^^ 0x5a ^^^ 0x5a = b)

@[simp] theorem length_toBytes (r : Record) : r.toBytes.length = headerSize + r.payload.length := by
  simp [toBytes, headerSize]
  omega

theorem next?_eq_some {bytes rest : Bytes} {r : Record} (h : next? bytes = some (r, rest)) :
    bytes = r.toBytes ++ rest ∧ r.payload.length ≤ maxPayload := by
  unfold next? at h
  split at h
  · next kind high low bytes =>
    obtain ⟨⟨body, rest'⟩, hsplit, heq⟩ := Option.map_eq_some_iff.mp h
    obtain ⟨hlen, rfl⟩ := Bytes.splitExact?_eq_some_iff.mp hsplit
    obtain ⟨rfl, rfl⟩ := Prod.mk.inj heq
    have hlt := Bytes.ofBigEndian_lt [high, low]
    -- the two bytes of the length are those that the length is written in
    have hback : Bytes.bigEndian 2 body.length = [high, low] := by
      have h1 := high.toNat_lt
      have h2 := low.toNat_lt
      rw [hlen]
      simp only [Bytes.ofBigEndian, List.foldl, Bytes.bigEndian, Bytes.bound]
      simp only [List.cons.injEq, and_true]
      refine ⟨UInt8.toNat_inj.mp ?_, UInt8.toNat_inj.mp ?_⟩
      all_goals
        rw [UInt8.toNat_ofNat']
        omega
    refine ⟨?_, ?_⟩
    · simp [toBytes, hback]
    · simp only [length_mask, hlen, maxPayload]
      simp only [List.length_cons, List.length_nil, Bytes.bound] at hlt
      omega
  · exact absurd h (by simp)

theorem next?_toBytes_append {r : Record} (h : r.payload.length ≤ maxPayload) (rest : Bytes) :
    next? (r.toBytes ++ rest) = some (r, rest) := by
  have hlt : r.payload.length < Bytes.bound 2 := by simp only [maxPayload, Bytes.bound] at *; omega
  have hback := Bytes.ofBigEndian_bigEndian hlt
  simp only [Bytes.bigEndian] at hback
  simp only [toBytes, Bytes.bigEndian, List.cons_append, List.nil_append, next?, hback]
  rw [Bytes.splitExact?_eq_some_iff.mpr ⟨length_mask _, rfl⟩]
  simp

theorem isAlert_toBytes {payload : Bytes} (h : payload.length ≤ maxPayload) :
    IsAlert (toBytes ⟨alert, payload⟩) := by
  have hread := next?_toBytes_append (r := ⟨alert, payload⟩) h []
  rw [List.append_nil] at hread
  exact ⟨payload, hread⟩

/-- Reading a record uses bytes up. -/
theorem length_rest_of_next? {bytes rest : Bytes} {r : Record} (h : next? bytes = some (r, rest)) :
    bytes.length = headerSize + r.payload.length + rest.length := by
  rw [(next?_eq_some h).1, List.length_append, length_toBytes]

/-- All complete records at the front of a byte string. A partial record behind them does not count. -/
def readAll (bytes : Bytes) : List Record :=
  match h : next? bytes with
  | some (r, rest) =>
    have : rest.length < bytes.length := by have := length_rest_of_next? h; simp only [headerSize] at this; omega
    r :: readAll rest
  | none => []
termination_by bytes.length

end Record

end SecureStream
