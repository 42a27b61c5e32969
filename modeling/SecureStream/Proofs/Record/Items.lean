import Mathlib.Algebra.GroupWithZero.Nat
import SecureStream.Engine.Masked
import SecureStream.Proofs.Grammar

/-!
# Records in a stream

`Record.grammar` reads records as `Record.next?` does.  Records whose payload is not too long can be written
one after the other and read back (`Record.spells_write`).

A message is wrapped in data records that carry at most `maxPayload` bytes each (`MaskedOptions.recordsOf`).
Their payloads joined are the message (`MaskedOptions.payloads_recordsOf`), and they take three bytes more
for each record (`MaskedOptions.length_recordsOf`).
-/

namespace SecureStream

namespace Record

def grammar : Grammar Record where
  first? := next?
  first?_eq_some {stream rest r} h := by
    obtain ⟨rfl, hpayload⟩ := next?_eq_some h
    refine ⟨r.toBytes, ?_, rfl, next?_toBytes_append hpayload⟩
    simp [toBytes]

/-- The bytes of records, one after the other. -/
def write (records : List Record) : Bytes := records.flatMap toBytes

/-- The payloads of records, one after the other. -/
def payloads (records : List Record) : Bytes := records.flatMap payload

def Fits (r : Record) : Prop := r.payload.length ≤ maxPayload

@[simp] theorem write_nil : write [] = [] := rfl

@[simp] theorem write_cons (r : Record) (records : List Record) :
    write (r :: records) = r.toBytes ++ write records :=
  rfl

@[simp] theorem write_append (a b : List Record) : write (a ++ b) = write a ++ write b := List.flatMap_append

@[simp] theorem payloads_cons (r : Record) (records : List Record) :
    payloads (r :: records) = r.payload ++ payloads records := rfl

@[simp] theorem payloads_append (a b : List Record) : payloads (a ++ b) = payloads a ++ payloads b :=
  List.flatMap_append

theorem spells_write {records : List Record} (h : ∀ r ∈ records, r.Fits) :
    grammar.Spells (write records) records := by
  induction records with
  | nil => exact Grammar.spells_nil rfl
  | cons r records ih =>
    rw [write_cons]
    exact Grammar.spells_cons (next?_toBytes_append (h r (List.mem_cons_self ..)) _)
      (ih fun s hs => h s (List.mem_cons_of_mem _ hs))

/-- A record that is read could have been written. -/
theorem fits_of_mem_parse {bytes : Bytes} {r : Record} (h : r ∈ (grammar.parse bytes).1) : r.Fits := by
  fun_induction Grammar.parse grammar bytes with
  | case1 => cases h
  | case2 bytes first rest hnext _ ih =>
    rcases List.mem_cons.1 h with rfl | h
    · exact (next?_eq_some hnext).2
    · exact ih h

theorem readAll_eq (bytes : Bytes) : readAll bytes = (grammar.parse bytes).1 := by
  fun_induction readAll bytes with
  | case1 bytes r rest hnext _ ih => rw [Grammar.parse_of_some (g := grammar) hnext, ih]
  | case2 bytes hnext => rw [Grammar.parse_of_none (g := grammar) hnext]

theorem parse_toBytes {r : Record} (h : r.Fits) : grammar.parse r.toBytes = ([r], []) := by
  have hspells : grammar.Spells (write [r]) [r] := spells_write fun s hs => List.mem_singleton.1 hs ▸ h
  rwa [write_cons, write_nil, List.append_nil] at hspells

/-- The records that are read are what a stream begins with. -/
theorem write_parse (bytes : Bytes) : write (grammar.parse bytes).1 ++ (grammar.parse bytes).2 = bytes := by
  fun_induction Grammar.parse grammar bytes with
  | case1 => rfl
  | case2 bytes r rest h _ ih =>
    obtain ⟨rfl, -⟩ := next?_eq_some h
    rw [write_cons, List.append_assoc, ih]

end Record

/-! ### Wrapped messages -/

namespace MaskedOptions

variable (o : MaskedOptions)

/-- The data records that carry a message. -/
def recordsOf (message : Bytes) : List Record :=
  if message = [] then []
  else
    ⟨Record.data, message.take o.maxPayload⟩ :: recordsOf (message.drop o.maxPayload)
termination_by message.length
decreasing_by
  have := o.maxPayload_pos
  have := List.length_pos_iff.2 ‹message ≠ []›
  rw [List.length_drop]
  omega

/-- The number of bytes of the records that carry a message of `n` bytes. -/
def wrappedSize (n : Nat) : Nat := n + Record.headerSize * ((n + o.maxPayload - 1) / o.maxPayload)

theorem mem_recordsOf {message : Bytes} {r : Record} (h : r ∈ o.recordsOf message) :
    r.kind = Record.data ∧ r.payload ≠ [] ∧ r.Fits := by
  fun_induction recordsOf o message with
  | case1 => cases h
  | case2 message hne ih =>
    rcases List.mem_cons.1 h with rfl | h
    · have := o.maxPayload_pos
      refine ⟨rfl, ?_, ?_⟩
      · intro hnil
        have := congrArg List.length hnil
        have := List.length_pos_iff.2 hne
        simp only [List.length_take, List.length_nil] at *
        omega
      · exact Nat.le_trans (List.length_take_le _ _) o.maxPayload_le
    · exact ih h

theorem payloads_recordsOf (message : Bytes) : Record.payloads (o.recordsOf message) = message := by
  fun_induction recordsOf o message with
  | case1 => rfl
  | case2 message _ ih => rw [Record.payloads_cons, ih, List.take_append_drop]

private theorem wrappedSize_zero : o.wrappedSize 0 = 0 := by
  have := o.maxPayload_pos
  rw [wrappedSize, Nat.div_eq_of_lt (by omega)]
  rfl

private theorem wrappedSize_step {n : Nat} (h : 0 < n) :
    o.wrappedSize n = Record.headerSize + min n o.maxPayload + o.wrappedSize (n - o.maxPayload) := by
  have hpos := o.maxPayload_pos
  by_cases hle : n ≤ o.maxPayload
  · rw [Nat.sub_eq_zero_of_le hle, wrappedSize_zero, Nat.min_eq_left hle, wrappedSize,
      show n + o.maxPayload - 1 = (n - 1) + o.maxPayload by omega, Nat.add_div_right _ hpos,
      Nat.div_eq_of_lt (by omega)]
    omega
  · rw [Nat.min_eq_right (by omega), wrappedSize, wrappedSize,
      show n + o.maxPayload - 1 = (n - o.maxPayload + o.maxPayload - 1) + o.maxPayload by omega,
      Nat.add_div_right _ hpos, Nat.mul_succ]
    omega

theorem length_recordsOf (message : Bytes) :
    (Record.write (o.recordsOf message)).length = o.wrappedSize message.length := by
  -- one record more for every `maxPayload` bytes, and one for the bytes that remain
  fun_induction recordsOf o message with
  | case1 => exact o.wrappedSize_zero.symm
  | case2 message hne ih =>
    rw [Record.write_cons, List.length_append, ih, Record.length_toBytes, List.length_drop, List.length_take,
      o.wrappedSize_step (List.length_pos_iff.2 hne), Nat.min_comm]

/-- The payloads of several messages, one after the other. -/
theorem payloads_flatMap_recordsOf (messages : List Bytes) :
    Record.payloads (messages.flatMap o.recordsOf) = messages.flatten := by
  induction messages with
  | nil => rfl
  | cons message messages ih =>
    rw [List.flatMap_cons, Record.payloads_append, ih, o.payloads_recordsOf, List.flatten_cons]

theorem length_flatMap_recordsOf (messages : List Bytes) :
    (Record.write (messages.flatMap o.recordsOf)).length =
      (messages.map fun message => o.wrappedSize message.length).sum := by
  induction messages with
  | nil => rfl
  | cons message messages ih =>
    rw [List.flatMap_cons, Record.write_append, List.length_append, ih, o.length_recordsOf, List.map_cons,
      List.sum_cons]

end MaskedOptions

end SecureStream
