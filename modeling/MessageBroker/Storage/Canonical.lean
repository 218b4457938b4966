import MessageBroker.Storage.DecodeSound

namespace MessageBroker.Storage

open BigEndian Crc32

/-- The data starts with a batch that decodes to at least one record, counts its offsets from the
    first one and has the largest of their times, but at least zero, in its header. -/
structure Canonical (data : Bytes) (records : List StoredRecord) : Prop where
  decoded : decodeBatch data = .ok records
  nonempty : records ≠ []
  offsetDelta : get ((data.drop batchHeaderSize).take 4) = 0
  maxTimestamp :
    int64 (get ((data.drop 25).take 8)) = records.foldr (fun r largest => max r.timestamp largest) 0

section Canonical

variable {data : Bytes} {records : List StoredRecord} {offset width : Nat}

theorem occurs_field (inside : offset + width ≤ data.length) :
    Occurs data offset (put width (get ((data.drop offset).take width))) :=
  (occurs_of_field (slice_within (by omega) inside |>.trans (by rw [Nat.add_sub_cancel_left]))).1

theorem field_of_occurs {value : Nat} (occurs : Occurs data offset (put width value))
    (fits : value < 256 ^ width) :
    get ((data.drop offset).take width) = value := by
  have bytes := occurs.extract
  rw [put_length] at bytes
  rw [bytes, get_put_of_lt fits]

/-- The records stand behind the header as the encoder writes them. -/
theorem Decodes.recordsAt (decodes : Decodes data records) :
    records.length = get ((data.drop 21).take 4) ∧
      (∀ r ∈ records, Fits (get ((data.drop 13).take 8)) (int64 (get ((data.drop 25).take 8))) r) ∧
      Occurs data 33
        (records.flatMap
          (encodeRecord (get ((data.drop 13).take 8)) (int64 (get ((data.drop 25).take 8))))) ∧
      declaredSize data = 33 + (records.map recordPayloadSize).sum := by
  obtain ⟨count, fits, occurs, place⟩ :=
    decodeRecords_ok decodes.filled (decodes.header.trans decodes.inside)
  rw [encodeRecords_length] at place
  exact ⟨count, fits, occurs, place⟩

theorem field_lt (data : Bytes) (offset : Nat) : get ((data.drop offset).take 8) < 2 ^ 64 := by
  have bound := get_lt ((data.drop offset).take 8)
  have narrow : ((data.drop offset).take 8).length ≤ 8 := List.length_take_le _ _
  exact bound.trans_le (Nat.pow_le_pow_right (by decide) narrow)

theorem Canonical.baseOffset {first : StoredRecord} {rest : List StoredRecord}
    (canonical : Canonical data (first :: rest)) :
    first.offset = get ((data.drop 13).take 8) := by
  obtain ⟨_, fits, occurs, _⟩ :=
    (decodes_of_decodeBatch canonical.decoded canonical.nonempty).recordsAt
  have firstFits := fits first List.mem_cons_self
  -- the delta is the first field of the first record
  have delta := field_of_occurs occurs.left_part.left_part.left_part.left_part.left_part.left_part
    (by simpa using firstFits.offsetDelta)
  rw [show 33 = batchHeaderSize from rfl, canonical.offsetDelta] at delta
  have restored := @offset_restored first.offset (get ((data.drop 13).take 8)) firstFits.offset
  rw [← delta, Nat.cast_zero, add_zero, uint64_of_nat (field_lt data 13)] at restored
  exact restored.symm

theorem Canonical.bodyAt {first : StoredRecord} {rest : List StoredRecord}
    (canonical : Canonical data (first :: rest)) :
    Occurs data 13
      (batchBody first.offset (batchMaxTimestamp (first :: rest)) (first :: rest)) := by
  have decodes := decodes_of_decodeBatch canonical.decoded canonical.nonempty
  have stamp := canonical.maxTimestamp
  rw [← batchMaxTimestamp_eq] at stamp
  have header : 33 ≤ declaredSize data := decodes.header
  have inside := decodes.inside
  obtain ⟨count, _, recordsAt, _⟩ := decodes.recordsAt
  have stampField : uint64 (batchMaxTimestamp (first :: rest)) = get ((data.drop 25).take 8) := by
    rw [← stamp, uint64_int64, uint64_of_nat (field_lt data 25)]
  unfold batchBody
  rw [stampField, count, canonical.baseOffset]
  rw [stamp] at recordsAt
  refine ((Occurs.join ?_ ?_).join ?_).join ?_
  · exact occurs_field (by omega)
  · simpa using @occurs_field data 21 4 (by omega)
  · simpa using @occurs_field data 25 8 (by omega)
  · simpa using recordsAt

/-- The bytes of a canonical batch are those the encoder makes of its records. -/
theorem Canonical.encode (canonical : Canonical data records) :
    encodeBatch records = Option.some (data.take (declaredSize data)) := by
  obtain ⟨first, rest, rfl⟩ := List.exists_cons_of_ne_nil canonical.nonempty
  have decodes := decodes_of_decodeBatch canonical.decoded canonical.nonempty
  have header : 33 ≤ declaredSize data := decodes.header
  have inside := decodes.inside
  obtain ⟨_, _, _, total⟩ := decodes.recordsAt
  have bodyAt := canonical.bodyAt
  have length := batchBody_length first.offset (batchMaxTimestamp (first :: rest)) (first :: rest)
  -- so the checksum in the header is the one of these bytes
  have covered := bodyAt.extract
  rw [length, show 20 + ((first :: rest).map recordPayloadSize).sum = declaredSize data - 13 by
    omega] at covered
  have checksum := decodes.checksum
  rw [covered] at checksum
  have size : batchHeaderSize + ((first :: rest).map recordPayloadSize).sum - 9 =
      get ((data.drop 5).take 4) := by
    unfold batchHeaderSize
    rw [← total]
    exact Nat.add_sub_cancel_left _ _
  have framed : Occurs data 0 (frameBatch (get ((data.drop 5).take 4))
      (batchBody first.offset (batchMaxTimestamp (first :: rest)) (first :: rest))) := by
    unfold frameBatch
    rw [← checksum]
    refine (((Occurs.join ?_ ?_).join ?_).join ?_).join ?_
    · exact Occurs.of_extract (by rw [show magicBytes.length = 4 from rfl]; omega) decodes.magic
    · exact Occurs.of_extract (by rw [show magicBytes.length = 4 from rfl]; simp; omega)
        decodes.version
    · exact @occurs_field data 5 4 (by omega)
    · simpa [magicBytes] using @occurs_field data 9 4 (by omega)
    · simpa [magicBytes] using bodyAt
  have whole := framed.extract
  rw [frameBatch_length, length, List.drop_zero,
    show 13 + (20 + ((first :: rest).map recordPayloadSize).sum) = declaredSize data by omega]
    at whole
  rw [encodeBatch, size, whole]

/-- Encoding undoes decoding on canonical bytes, so no other canonical batch decodes to the same
    records. -/
theorem encodeBatch_decodeBatch (canonical : Canonical data records) :
    encodeBatch records = some (data.take (9 + get ((data.drop 5).take 4))) ∧
      ∀ other, Canonical other records →
        other.take (9 + get ((other.drop 5).take 4)) =
          data.take (9 + get ((data.drop 5).take 4)) := by
  refine ⟨canonical.encode, fun other same => ?_⟩
  have both := same.encode.symm.trans canonical.encode
  exact Option.some.inj both

end Canonical

/-- A batch of two records, one of them from before the epoch, with bytes behind it. -/
theorem encodeBatch_decodeBatch_mixed :
    let records : List StoredRecord :=
      [⟨7, -5, some [], none, [⟨[104], []⟩]⟩, ⟨8, 9, none, some [97], []⟩]
    ∃ bytes, encodeBatch records = some bytes ∧
      encodeBatch records =
        some ((bytes ++ [1, 2, 3]).take (9 + get (((bytes ++ [1, 2, 3]).drop 5).take 4))) := by
  intro records
  have encoded : encodeBatch records = some ((encodeBatch records).getD []) := by decide +kernel
  refine ⟨_, encoded, ?_⟩
  exact (encodeBatch_decodeBatch ⟨by decide +kernel, by decide, by decide +kernel,
    by decide +kernel⟩).1

end MessageBroker.Storage
