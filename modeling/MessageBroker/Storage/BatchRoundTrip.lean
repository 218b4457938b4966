import Mathlib.Algebra.Order.BigOperators.Group.List
import MessageBroker.Storage.FormatRoundTrip

namespace MessageBroker.Storage

open BigEndian Crc32

/-! ## The frame -/

section Frame

variable {batchLength : Nat} {body trailing : Bytes}

theorem frame_split : frameBatch batchLength body ++ trailing =
    magicBytes ++ ([formatVersion1] ++
      (put 4 batchLength ++ (put 4 (checksumIEEE body) ++ (body ++ trailing)))) := by
  simp [frameBatch]

theorem frame_magic : (frameBatch batchLength body ++ trailing).take 4 = magicBytes := by
  rw [frame_split]
  exact List.take_left' rfl

theorem frame_version :
    ((frameBatch batchLength body ++ trailing).drop 4).take 1 = [formatVersion1] := by
  rw [frame_split]
  rfl

theorem frame_batchLength :
    Occurs (frameBatch batchLength body ++ trailing) 5 (put 4 batchLength) :=
  ⟨magicBytes ++ [formatVersion1], put 4 (checksumIEEE body) ++ (body ++ trailing),
    by rw [frame_split]; simp, rfl⟩

theorem frame_checksum :
    Occurs (frameBatch batchLength body ++ trailing) 9 (put 4 (checksumIEEE body)) :=
  ⟨magicBytes ++ [formatVersion1] ++ put 4 batchLength, body ++ trailing, by rw [frame_split]; simp,
    by simp [magicBytes]⟩

theorem frame_body : Occurs (frameBatch batchLength body ++ trailing) 13 body :=
  ⟨magicBytes ++ [formatVersion1] ++ put 4 batchLength ++ put 4 (checksumIEEE body), trailing,
    by rw [frame_split]; simp, by simp [magicBytes]⟩

/-- A framed body passes every test in front of the record loop. -/
theorem decodeBatch_frame (fits : batchLength < 2 ^ 32) (room : minimumBatchRemainder ≤ batchLength)
    (filled : 13 + body.length = 9 + batchLength) :
    decodeBatch (frameBatch batchLength body ++ trailing) =
      decodeBody batchLength (frameBatch batchLength body ++ trailing) := by
  have size : (frameBatch batchLength body ++ trailing).length =
      9 + batchLength + trailing.length := by
    rw [List.length_append, frameBatch_length, filled]
  have lengthField :
      slice (frameBatch batchLength body ++ trailing) 5 9 = .ok (put 4 batchLength) :=
    slice_put frame_batchLength
  have checksumField :
      slice (frameBatch batchLength body ++ trailing) 9 13 = .ok (put 4 (checksumIEEE body)) :=
    slice_put frame_checksum
  have covered : slice (frameBatch batchLength body ++ trailing) 13 (9 + batchLength) = .ok body :=
    slice_occurs frame_body filled.symm
  have remainder : minimumBatchRemainder = 24 := rfl
  unfold decodeBatch
  rw [if_neg (by rw [size]; unfold batchHeaderSize; omega), if_neg (by rw [frame_magic]; simp),
    if_neg (by rw [frame_version]; simp)]
  simp only [lengthField, checksumField, covered, Bind.bind, Except.bind, get_put_four fits,
    get_put_four (checksumIEEE_lt body)]
  rw [if_neg (by omega), if_neg (by rw [size]; omega), if_neg (by simp)]

end Frame

/-! ## The body -/

section Body

variable {baseOffset : Nat} {maxTimestamp : Int} {records : List StoredRecord} {data : Bytes}

theorem body_header (occurs : Occurs data 13 (batchBody baseOffset maxTimestamp records)) :
    slice data 13 21 = .ok (put 8 baseOffset) ∧ slice data 21 25 = .ok (put 4 records.length) ∧
      slice data 25 33 = .ok (put 8 (uint64 maxTimestamp)) ∧
      Occurs data 33 (records.flatMap (encodeRecord baseOffset maxTimestamp)) := by
  have recordsAt := occurs.right_part
  have timestampAt := occurs.left_part.right_part
  have countAt := occurs.left_part.left_part.right_part
  have baseAt := occurs.left_part.left_part.left_part
  simp only [List.length_append, put_length] at recordsAt timestampAt countAt
  exact ⟨slice_put baseAt, slice_put countAt, slice_put timestampAt, recordsAt⟩

theorem records_count_le (baseOffset : Nat) (maxTimestamp : Int) (records : List StoredRecord) :
    24 * records.length ≤ (records.flatMap (encodeRecord baseOffset maxTimestamp)).length := by
  induction records with
  | nil => simp
  | cons r records ih =>
    simp only [List.flatMap_cons, List.length_append, List.length_cons, encodeRecord_length,
      recordPayloadSize, minimumRecordSize]
    omega

theorem decodeBody_occurs {batchLength : Nat}
    (occurs : Occurs data 13 (batchBody baseOffset maxTimestamp records))
    (filled : 13 + (batchBody baseOffset maxTimestamp records).length = 9 + batchLength)
    (small : batchLength < 2 ^ 32) (someRecord : records ≠ []) (base : baseOffset < 2 ^ 64)
    (largest : -2 ^ 63 ≤ maxTimestamp ∧ maxTimestamp < 2 ^ 63) :
    decodeBody batchLength data = (do
      let (decoded, offset)
        ← decodeRecords baseOffset maxTimestamp data (9 + batchLength) records.length 0
          batchHeaderSize
      if offset ≠ 9 + batchLength then .error .trailingBytes else .ok decoded) := by
  obtain ⟨baseField, countField, timestampField, recordsAt⟩ := body_header occurs
  have enough := records_count_le baseOffset maxTimestamp records
  have bodySize := batchBody_length baseOffset maxTimestamp records
  have recordsSize := encodeRecords_length baseOffset maxTimestamp records
  have positive : 0 < records.length := List.length_pos_iff.mpr someRecord
  have count : get (put 4 records.length) = records.length := get_put_four (by omega)
  have timestamp : int64 (get (put 8 (uint64 maxTimestamp)) : Nat) = maxTimestamp := by
    rw [get_put_eight (uint64_lt _), int64_uint64, int64_of_range largest.1 largest.2]
  simp only [decodeBody, baseField, countField, timestampField, Bind.bind, Except.bind,
    get_put_eight base, count, timestamp, baseOffsetSize, recordCountSize, maxTimestampSize,
    minimumRecordSize]
  rw [if_neg (by omega), if_neg (by omega)]

theorem decodeBody_fits {batchLength : Nat}
    (occurs : Occurs data 13 (batchBody baseOffset maxTimestamp records))
    (filled : 13 + (batchBody baseOffset maxTimestamp records).length = 9 + batchLength)
    (small : batchLength < 2 ^ 32) (someRecord : records ≠ []) (base : baseOffset < 2 ^ 64)
    (largest : -2 ^ 63 ≤ maxTimestamp ∧ maxTimestamp < 2 ^ 63)
    (fits : ∀ r ∈ records, Fits baseOffset maxTimestamp r) :
    decodeBody batchLength data = .ok records := by
  obtain ⟨_, _, _, recordsAt⟩ := body_header occurs
  have bodySize := batchBody_length baseOffset maxTimestamp records
  have recordsSize := encodeRecords_length baseOffset maxTimestamp records
  rw [decodeBody_occurs occurs filled small someRecord base largest,
    decodeRecords_occurs records 0 batchHeaderSize fits recordsAt (by unfold batchHeaderSize; omega)
      (by unfold batchHeaderSize; omega)]
  simp only [Bind.bind, Except.bind]
  rw [if_neg (by unfold batchHeaderSize; omega)]

end Body

/-! ## The largest timestamp -/

theorem batchMaxTimestamp_from (records : List StoredRecord) (start : Int) :
    start ≤ records.foldl (fun largest r => if largest < r.timestamp then r.timestamp else largest)
      start ∧
      (∀ r ∈ records, r.timestamp ≤
        records.foldl (fun largest r => if largest < r.timestamp then r.timestamp else largest)
          start) ∧
      (records.foldl (fun largest r => if largest < r.timestamp then r.timestamp else largest)
        start = start ∨
        ∃ r ∈ records, r.timestamp =
          records.foldl (fun largest r => if largest < r.timestamp then r.timestamp else largest)
            start) := by
  induction records generalizing start with
  | nil => simp
  | cons r records ih =>
    obtain ⟨above, bound, reached⟩ := ih (if start < r.timestamp then r.timestamp else start)
    rw [List.foldl_cons]
    have head : start ≤ (if start < r.timestamp then r.timestamp else start) ∧
        r.timestamp ≤ (if start < r.timestamp then r.timestamp else start) := by
      split <;> omega
    refine ⟨le_trans head.1 above, ?_, ?_⟩
    · intro other member
      rcases List.mem_cons.mp member with rfl | member
      · exact le_trans head.2 above
      · exact bound other member
    · rcases reached with same | ⟨other, member, equal⟩
      · by_cases less : start < r.timestamp
        · right
          refine ⟨r, List.mem_cons_self, ?_⟩
          rw [same, if_pos less]
        · left
          rw [same, if_neg less]
      · exact Or.inr ⟨other, List.mem_cons_of_mem _ member, equal⟩

theorem batchMaxTimestamp_nonneg (records : List StoredRecord) : 0 ≤ batchMaxTimestamp records :=
  (batchMaxTimestamp_from records 0).1

theorem batchMaxTimestamp_ge {records : List StoredRecord} {r : StoredRecord}
    (member : r ∈ records) :
    r.timestamp ≤ batchMaxTimestamp records :=
  (batchMaxTimestamp_from records 0).2.1 r member

theorem batchMaxTimestamp_lt {records : List StoredRecord}
    (bound : ∀ r ∈ records, r.timestamp < 2 ^ 63) :
    batchMaxTimestamp records < 2 ^ 63 := by
  rcases (batchMaxTimestamp_from records 0).2.2 with zero | ⟨r, member, equal⟩
  · change batchMaxTimestamp records = 0 at zero
    omega
  · have := bound r member
    change r.timestamp = batchMaxTimestamp records at equal
    omega

/-! ## The batch -/

theorem optional_le_payload {r : StoredRecord} {records : List StoredRecord}
    (member : r ∈ records) :
    optionalLength r.key + optionalLength r.value ≤ (records.map recordPayloadSize).sum :=
  calc optionalLength r.key + optionalLength r.value
    _ ≤ recordPayloadSize r := by
      unfold recordPayloadSize
      omega
    _ ≤ (records.map recordPayloadSize).sum := List.le_sum_of_mem (List.mem_map_of_mem member)

theorem batchMaxTimestamp_eq (records : List StoredRecord) :
    batchMaxTimestamp records = records.foldr (fun r largest => max r.timestamp largest) 0 := by
  have swap : ∀ start : Int, 0 ≤ start →
      records.foldl (fun largest r => if largest < r.timestamp then r.timestamp else largest)
        start =
        max (records.foldr (fun r largest => max r.timestamp largest) 0) start := by
    induction records with
    | nil => intro start; simp
    | cons r records ih =>
      intro start nonneg
      have step : (if start < r.timestamp then r.timestamp else start) = max r.timestamp start := by
        split_ifs <;> omega
      rw [List.foldl_cons, List.foldr_cons, step, ih _ (by omega)]
      omega
  have nonneg : 0 ≤ batchMaxTimestamp records := batchMaxTimestamp_nonneg records
  have folded : batchMaxTimestamp records = _ := swap 0 (le_refl 0)
  have above : 0 ≤ records.foldr (fun r largest => max r.timestamp largest) 0 := by
    clear swap nonneg folded
    induction records with
    | nil => simp
    | cons r records ih =>
      rw [List.foldr_cons]
      omega
  omega

/-- Decoding undoes encoding, whatever bytes follow the batch. -/
theorem decodeBatch_encodeBatch {first : StoredRecord} {rest : List StoredRecord} {trailing : Bytes}
    (offsets : ∀ r ∈ first :: rest, r.offset < 2 ^ 64 ∧ uint64 (r.offset - first.offset) < 2 ^ 32)
    (timestamps : ∀ r ∈ first :: rest, (-2 ^ 63 ≤ r.timestamp ∧ r.timestamp < 2 ^ 63) ∧
      (first :: rest).foldr (fun r largest => max r.timestamp largest) 0 - r.timestamp < 2 ^ 63) :
    ∃ bytes, encodeBatch (first :: rest) = some bytes ∧
      (bytes.length < 2 ^ 31 → decodeBatch (bytes ++ trailing) = .ok (first :: rest)) := by
  refine ⟨_, rfl, fun small => ?_⟩
  have bodySize := batchBody_length first.offset (batchMaxTimestamp (first :: rest)) (first :: rest)
  have nonneg := batchMaxTimestamp_nonneg (first :: rest)
  have bounded := batchMaxTimestamp_lt fun r member => (timestamps r member).1.2
  rw [frameBatch_length, bodySize] at small
  have fits : ∀ r ∈ first :: rest, Fits first.offset (batchMaxTimestamp (first :: rest)) r := by
    intro r member
    have payload := optional_le_payload member
    obtain ⟨range, delta⟩ := timestamps r member
    rw [← batchMaxTimestamp_eq] at delta
    have above := batchMaxTimestamp_ge member
    have forward : 0 ≤ int64 (batchMaxTimestamp (first :: rest) - r.timestamp) := by
      rw [int64_of_range (by omega) delta]
      omega
    exact ⟨(offsets r member).1, (offsets r member).2, range, forward, by omega, by omega⟩
  have header : batchHeaderSize = 33 := rfl
  have remainder : minimumBatchRemainder = 24 := rfl
  have positive : 24 ≤ ((first :: rest).map recordPayloadSize).sum := by
    simp only [List.map_cons, List.sum_cons, recordPayloadSize, minimumRecordSize]
    omega
  rw [decodeBatch_frame (by omega) (by omega) (by omega)]
  exact decodeBody_fits frame_body (by omega) (by omega) (by simp)
    (offsets first List.mem_cons_self).1 ⟨by omega, bounded⟩ fits

/-- Two records around the epoch, one of them with an empty key and a header, and bytes behind
    them. -/
theorem decodeBatch_encodeBatch_mixed :
    let records : List StoredRecord :=
      [⟨7, -5, some [], none, [⟨[104], []⟩]⟩, ⟨8, 9, none, some [97], []⟩]
    ∃ bytes, encodeBatch records = some bytes ∧ decodeBatch (bytes ++ [1, 2, 3]) = .ok records := by
  intro records
  have sized : (encodeBatch records).map List.length = some 91 := by decide +kernel
  obtain ⟨bytes, encoded, decoded⟩ := @decodeBatch_encodeBatch ⟨7, -5, some [], none, [⟨[104], []⟩]⟩
    [⟨8, 9, none, some [97], []⟩] [1, 2, 3] (by decide) (by decide)
  rw [encoded] at sized
  exact ⟨bytes, encoded,
    decoded (Nat.lt_of_le_of_lt (Nat.le_of_eq (Option.some.inj sized)) (by decide))⟩

end MessageBroker.Storage
