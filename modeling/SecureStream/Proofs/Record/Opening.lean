import SecureStream.Proofs.Record.Items

/-!
# Sealed records and the records of a byte string

Records that are sealed one behind the other are read back from their bytes, also when a record that is not
complete follows.  Conversely the records that are read from any bytes, sealed again, are what these bytes begin
with, and what is left behind them is a record that is not complete (`Record.IsCut`): its header is missing, or
there are fewer bytes than the header announces.

* `Record.next?_eq_none_iff`: these are the byte strings that do not begin with a record.
* `Record.mapM_toBytes?`: records can be sealed when no payload is too long.
* `Record.opens_sealed`: reading and sealing are inverse to each other.
-/

namespace SecureStream

namespace Record

/-- The size of the record that the bytes begin with, as its header says. -/
def announced (bytes : Bytes) : Nat := headerSize + Bytes.ofBigEndian ((bytes.drop 1).take 2)

/-- The bytes do not hold all of their first record. -/
def IsCut (bytes : Bytes) : Prop := bytes.length < headerSize ∨ bytes.length < announced bytes

theorem next?_eq_none_iff {bytes : Bytes} : next? bytes = none ↔ IsCut bytes := by
  unfold next?
  split
  · next kind high low body =>
    have hannounced : announced (kind :: high :: low :: body) = headerSize + Bytes.ofBigEndian [high, low] := rfl
    rw [Option.map_eq_none_iff, Bytes.splitExact?_eq_none_iff, IsCut, hannounced]
    simp only [List.length_cons, headerSize]
    omega
  · next hshort =>
    refine iff_of_true rfl (.inl ?_)
    match bytes, hshort with
    | [], _ => exact (by decide : 0 < 3)
    | [_], _ => exact (by decide : 1 < 3)
    | [_, _], _ => exact (by decide : 2 < 3)
    | kind :: high :: low :: body, hshort => exact absurd rfl (hshort kind high low body)

/-- Records can be sealed when no payload is too long. -/
theorem mapM_toBytes? {records : List Record} (h : ∀ r ∈ records, r.Fits) :
    records.mapM toBytes? = some (records.map toBytes) := by
  induction records with
  | nil => rfl
  | cons r records ih =>
    obtain ⟨hr, hrest⟩ := List.forall_mem_cons.1 h
    have hsealed : r.toBytes? = some r.toBytes := if_pos hr
    rw [List.mapM_cons, hsealed, ih hrest]
    rfl

theorem flatten_map_toBytes (records : List Record) : (records.map toBytes).flatten = write records :=
  List.flatMap_def.symm

theorem readAll_append (a b : Bytes) : readAll (a ++ b) = readAll a ++ readAll ((grammar.parse a).2 ++ b) := by
  simp only [readAll_eq]
  rw [Grammar.parse_append]

/-- Records with payloads that are not too long can be sealed, and they are read back from the sealed bytes,
whatever part of another record follows.  And of any bytes, the records that are read from them can be sealed again
to what the bytes begin with.  Only a part of a record is left, which more bytes may complete. -/
theorem opens_sealed :
    (∀ (records : List Record) (rest : Bytes), (∀ r ∈ records, r.payload.length ≤ 65535) → IsCut rest →
      ∃ pieces, records.mapM toBytes? = some pieces ∧ readAll (pieces.flatten ++ rest) = records) ∧
    ∀ bytes : Bytes, ∃ pieces left, (readAll bytes).mapM toBytes? = some pieces ∧
      bytes = pieces.flatten ++ left ∧ IsCut left ∧
      ∀ more, readAll (bytes ++ more) = readAll bytes ++ readAll (left ++ more) := by
  constructor
  · intro records rest hfits hcut
    refine ⟨records.map toBytes, mapM_toBytes? hfits, ?_⟩
    rw [flatten_map_toBytes, readAll_eq, (spells_write hfits).parse_append,
      Grammar.parse_of_none (g := grammar) (next?_eq_none_iff.2 hcut), List.append_nil]
  · intro bytes
    refine ⟨(readAll bytes).map toBytes, (grammar.parse bytes).2, mapM_toBytes? ?_, ?_, ?_, readAll_append bytes⟩
    · intro r hr
      rw [readAll_eq] at hr
      exact fits_of_mem_parse hr
    · rw [flatten_map_toBytes, readAll_eq, write_parse]
    · exact next?_eq_none_iff.1 (grammar.first?_left bytes)

/-- An empty record and one of a kind that has no meaning, and behind them four of the five bytes of another one. -/
theorem opens_sealed_before_part :
    let records : List Record := [⟨data, []⟩, ⟨0x42, [1, 2]⟩]
    let pieces : List Bytes := [[0x17, 0, 0], [0x42, 0, 2, 0x5b, 0x58]]
    let rest : Bytes := [0x17, 0, 2, 9]
    (∀ r ∈ records, r.payload.length ≤ 65535) ∧ IsCut rest ∧ records.mapM toBytes? = some pieces ∧
      readAll (pieces.flatten ++ rest) = records := by
  intro records pieces rest
  have hfits : ∀ r ∈ records, r.payload.length ≤ 65535 := by decide
  have hcut : IsCut rest := .inr (by decide)
  have hsealed : records.mapM toBytes? = some pieces := by decide
  obtain ⟨pieces', hpieces, hread⟩ := opens_sealed.1 records rest hfits hcut
  rw [hsealed] at hpieces
  cases hpieces
  exact ⟨hfits, hcut, hsealed, hread⟩

end Record

end SecureStream
