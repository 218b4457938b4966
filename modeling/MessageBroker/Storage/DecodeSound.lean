import MessageBroker.Storage.BatchRoundTrip

namespace MessageBroker.Storage

open BigEndian Crc32

section Except

variable {ε α β : Type} {x : Except ε α} {f : α → Except ε β} {result : β} {reason : ε}

theorem bind_ok (ran : (x >>= f) = .ok result) : ∃ value, x = .ok value ∧ f value = .ok result := by
  cases x with
  | error _ => cases ran
  | ok value => exact ⟨value, rfl, ran⟩

theorem bind_error (ran : (x >>= f) = .error reason) :
    x = .error reason ∨ ∃ value, x = .ok value ∧ f value = .error reason := by
  cases x with
  | error _ =>
    cases ran
    exact Or.inl rfl
  | ok value => exact Or.inr ⟨value, rfl, ran⟩

end Except

/-! ## Slices -/

section Slices

variable {data piece : Bytes} {low high offset width : Nat}

theorem slice_within (ordered : low ≤ high) (inside : high ≤ data.length) :
    slice data low high = .ok ((data.drop low).take (high - low)) := by
  rw [slice, if_pos ⟨ordered, inside⟩]

theorem slice_beyond (beyond : data.length < high) : slice data low high = .error .panic := by
  rw [slice, if_neg (by omega)]

theorem occurs_of_slice (sliced : slice data low high = .ok piece) :
    Occurs data low piece ∧ piece.length = high - low := by
  obtain ⟨ordered, inside, rfl⟩ := slice_ok sliced
  have length : ((data.drop low).take (high - low)).length = high - low := by
    rw [List.length_take, List.length_drop]
    omega
  exact ⟨Occurs.of_extract (by omega) (by rw [length]), length⟩

theorem occurs_of_field (sliced : slice data offset (offset + width) = .ok piece) :
    Occurs data offset (put width (get piece)) ∧ get piece < 256 ^ width := by
  obtain ⟨occurs, length⟩ := occurs_of_slice sliced
  rw [Nat.add_sub_cancel_left] at length
  subst length
  rw [put_get_self]
  exact ⟨occurs, get_lt piece⟩

end Slices

/-! ## What the decoder accepts stands in the data as the encoder writes it -/

theorem int32_of_large {value : Nat} (large : 2 ^ 31 ≤ value) (fits : value < 2 ^ 32) :
    int32 value = value - 2 ^ 32 := by
  unfold int32
  rw [Int.bmod_def]
  split <;> omega

section Fields

variable {overflow : DecodeError} {invalid : Int → DecodeError} {data : Bytes}
  {total offset finish : Nat}

theorem decodeOptional_ok {field : Option Bytes}
    (decoded : decodeOptional overflow invalid data total offset = .ok (field, finish)) :
    Occurs data offset (encodeOptional field) ∧ finish = offset + (encodeOptional field).length ∧
      optionalLength field < 2 ^ 31 := by
  obtain ⟨lengthField, sliced, sized⟩ := bind_ok decoded
  obtain ⟨lengthAt, bound⟩ := occurs_of_field sliced
  generalize get lengthField = length at lengthAt bound sized
  unfold decodeSized at sized
  by_cases small : length < 2 ^ 31
  · rw [int32_of_small small] at sized
    split at sized
    · rw [Int.toNat_natCast] at sized
      split at sized
      · cases sized
      obtain ⟨bytes, bytesSlice, result⟩ := bind_ok sized
      obtain ⟨bytesAt, count⟩ := occurs_of_slice bytesSlice
      rw [Nat.add_sub_cancel_left] at count
      cases result
      subst count
      rw [encodeOptional_length, optionalLength, Nat.add_assoc]
      exact ⟨lengthAt.join (by rwa [put_length]), rfl, small⟩
    · rw [if_pos (by omega)] at sized
      cases sized
      have zero : length = 0 := by omega
      subst zero
      exact ⟨lengthAt.join (Occurs.nothing lengthAt.bound), rfl, by decide⟩
  · rw [int32_of_large (by omega) (by omega), if_neg (by omega), if_neg (by omega)] at sized
    split at sized
    · cases sized
    · cases sized
      have sentinel : length = 0xFFFFFFFF := by omega
      subst sentinel
      exact ⟨lengthAt, by simp [encodeOptional], by decide⟩

theorem decodeHeader_ok {i j : Nat} {h : Header}
    (decoded : decodeHeader i j data total offset = .ok (h, finish)) :
    Occurs data offset (encodeHeader h) ∧ finish = offset + (encodeHeader h).length := by
  unfold decodeHeader at decoded
  split at decoded
  · cases decoded
  obtain ⟨keyLength, keyLengthSlice, decoded⟩ := bind_ok decoded
  obtain ⟨keyLengthAt, _⟩ := occurs_of_field keyLengthSlice
  dsimp only at decoded
  split at decoded
  · cases decoded
  obtain ⟨key, keySlice, decoded⟩ := bind_ok decoded
  obtain ⟨keyAt, keyCount⟩ := occurs_of_slice keySlice
  obtain ⟨valueLength, valueLengthSlice, decoded⟩ := bind_ok decoded
  obtain ⟨valueLengthAt, _⟩ := occurs_of_field valueLengthSlice
  split at decoded
  · cases decoded
  obtain ⟨value, valueSlice, decoded⟩ := bind_ok decoded
  obtain ⟨valueAt, valueCount⟩ := occurs_of_slice valueSlice
  cases decoded
  rw [Nat.add_sub_cancel_left] at keyCount valueCount
  rw [← keyCount] at keyLengthAt valueLengthAt valueAt
  rw [← valueCount] at valueLengthAt
  refine ⟨((keyLengthAt.join ?_).join ?_).join ?_, ?_⟩
  · rwa [put_length]
  · simpa [Nat.add_assoc] using valueLengthAt
  · simpa [Nat.add_assoc] using valueAt
  · rw [encodeHeader_length]
    dsimp only
    omega

theorem decodeHeaders_ok {i remaining : Nat} {headers : List Header} {j : Nat}
    (decoded : decodeHeaders i data total remaining j offset = .ok (headers, finish))
    (inside : offset ≤ data.length) :
    headers.length = remaining ∧ Occurs data offset (headers.flatMap encodeHeader) ∧
      finish = offset + (headers.flatMap encodeHeader).length := by
  induction remaining generalizing headers j offset with
  | zero =>
    cases decoded
    exact ⟨rfl, Occurs.nothing inside, rfl⟩
  | succ remaining ih =>
    obtain ⟨⟨h, middle⟩, first, decoded⟩ := bind_ok decoded
    obtain ⟨⟨rest, last⟩, others, decoded⟩ := bind_ok decoded
    cases decoded
    obtain ⟨here, rfl⟩ := decodeHeader_ok first
    obtain ⟨count, behind, rfl⟩ := ih others here.bound
    refine ⟨by simp [count], here.join behind, ?_⟩
    rw [List.flatMap_cons, List.length_append, Nat.add_assoc]

end Fields

section Records

variable {baseOffset : Nat} {maxTimestamp : Int} {data : Bytes} {total offset finish : Nat}

theorem offset_delta {baseOffset delta : Nat} (fits : delta < 2 ^ 32) :
    uint64 (uint64 (baseOffset + delta) - baseOffset) = delta := by
  unfold uint64
  omega

theorem timestamp_delta {maxTimestamp delta : Int} (range : -2 ^ 63 ≤ delta ∧ delta < 2 ^ 63) :
    int64 (maxTimestamp - int64 (maxTimestamp - delta)) = delta :=
  timestamp_restored range.1 range.2

theorem decodeRecord_ok {i : Nat} {r : StoredRecord}
    (decoded : decodeRecord baseOffset maxTimestamp i data total offset = .ok (r, finish)) :
    Fits baseOffset maxTimestamp r ∧ Occurs data offset (encodeRecord baseOffset maxTimestamp r) ∧
      finish = offset + (encodeRecord baseOffset maxTimestamp r).length := by
  unfold decodeRecord at decoded
  split at decoded
  · cases decoded
  obtain ⟨offsetField, offsetSlice, decoded⟩ := bind_ok decoded
  obtain ⟨offsetAt, offsetBound⟩ := occurs_of_field offsetSlice
  obtain ⟨deltaField, deltaSlice, decoded⟩ := bind_ok decoded
  obtain ⟨deltaAt, deltaBound⟩ := occurs_of_field deltaSlice
  dsimp only at decoded
  split at decoded
  · cases decoded
  rename_i forward
  obtain ⟨⟨key, afterKey⟩, keyDecoded, decoded⟩ := bind_ok decoded
  obtain ⟨keyAt, rfl, keySmall⟩ := decodeOptional_ok keyDecoded
  obtain ⟨⟨value, afterValue⟩, valueDecoded, decoded⟩ := bind_ok decoded
  obtain ⟨valueAt, rfl, valueSmall⟩ := decodeOptional_ok valueDecoded
  obtain ⟨countField, countSlice, decoded⟩ := bind_ok decoded
  obtain ⟨countAt, _⟩ := occurs_of_field countSlice
  dsimp only at decoded
  split at decoded
  · cases decoded
  obtain ⟨⟨headers, last⟩, headersDecoded, decoded⟩ := bind_ok decoded
  have counted := countAt.bound
  rw [put_length] at counted
  obtain ⟨count, headersAt, rfl⟩ := decodeHeaders_ok headersDecoded counted
  cases decoded
  have delta : int64 (maxTimestamp - int64 (maxTimestamp - int64 (get deltaField))) =
      int64 (get deltaField) :=
    timestamp_delta (int64_range _)
  have deltaBytes : uint64 (int64 (get deltaField)) = get deltaField := by
    rw [uint64_int64, uint64_of_nat (by omega)]
  dsimp only at valueAt countAt headersAt ⊢
  refine ⟨⟨?_, ?_, ?_, ?_, keySmall, valueSmall⟩, ?_, ?_⟩
  · dsimp only
    exact uint64_lt _
  · dsimp only
    rw [offset_delta offsetBound]
    exact offsetBound
  · exact int64_range _
  · dsimp only
    rw [delta]
    omega
  · unfold encodeRecord
    dsimp only
    rw [offset_delta offsetBound, delta, deltaBytes, count]
    refine ((((offsetAt.join ?_).join ?_).join ?_).join ?_).join ?_
    · rwa [put_length]
    · simpa only [List.length_append, put_length, ← Nat.add_assoc] using keyAt
    · simpa only [List.length_append, put_length, ← Nat.add_assoc] using valueAt
    · simpa only [List.length_append, put_length, ← Nat.add_assoc] using countAt
    · simpa only [List.length_append, put_length, ← Nat.add_assoc] using headersAt
  · simp only [encodeRecord, List.length_append, put_length, Nat.add_assoc]

theorem decodeRecords_ok {remaining i : Nat} {records : List StoredRecord}
    (decoded : decodeRecords baseOffset maxTimestamp data total remaining i offset =
      .ok (records, finish))
    (inside : offset ≤ data.length) :
    records.length = remaining ∧ (∀ r ∈ records, Fits baseOffset maxTimestamp r) ∧
      Occurs data offset (records.flatMap (encodeRecord baseOffset maxTimestamp)) ∧
      finish = offset + (records.flatMap (encodeRecord baseOffset maxTimestamp)).length := by
  induction remaining generalizing records i offset with
  | zero =>
    cases decoded
    exact ⟨rfl, by simp, Occurs.nothing inside, rfl⟩
  | succ remaining ih =>
    obtain ⟨⟨r, middle⟩, first, decoded⟩ := bind_ok decoded
    obtain ⟨⟨rest, last⟩, others, decoded⟩ := bind_ok decoded
    cases decoded
    obtain ⟨fits, here, rfl⟩ := decodeRecord_ok first
    obtain ⟨count, allFit, behind, rfl⟩ := ih others here.bound
    refine ⟨by simp [count], ?_, here.join behind, ?_⟩
    · exact List.forall_mem_cons.mpr ⟨fits, allFit⟩
    · rw [List.flatMap_cons, List.length_append, Nat.add_assoc]

end Records

section Batch

variable {batch : Bytes} {records : List StoredRecord}

def declaredSize (data : Bytes) : Nat := 9 + get ((data.drop 5).take 4)

theorem declaredSize_lt (data : Bytes) : declaredSize data < 2 ^ 32 + 9 := by
  have bound := get_lt ((data.drop 5).take 4)
  have narrow : ((data.drop 5).take 4).length ≤ 4 := List.length_take_le _ _
  have power : 256 ^ ((data.drop 5).take 4).length ≤ 256 ^ 4 :=
    Nat.pow_le_pow_right (by decide) narrow
  unfold declaredSize
  omega

theorem declaredSize_take (data : Bytes) {count : Nat} (enough : 9 ≤ count) :
    declaredSize (data.take count) = declaredSize data := by
  unfold declaredSize
  rw [List.drop_take, List.take_take, Nat.min_eq_left (by omega)]

/-- A batch of exactly its declared size that passes every test in front of the record loop. -/
structure Framed (batch : Bytes) : Prop where
  whole : batch.length = declaredSize batch
  header : batchHeaderSize ≤ batch.length
  magic : batch.take 4 = magicBytes
  version : (batch.drop 4).take 1 = [formatVersion1]
  checksum : get ((batch.drop 9).take 4) = checksumIEEE (batch.drop 13)

/-- What the decoder has found out about the bytes it returns records for. -/
structure Accepted (batch : Bytes) (records : List StoredRecord) : Prop extends Framed batch where
  count : records.length = get ((batch.drop 21).take 4)
  filled : records ≠ [] →
    decodeRecords (get ((batch.drop 13).take 8)) (int64 (get ((batch.drop 25).take 8))) batch
      batch.length records.length 0 batchHeaderSize = .ok (records, batch.length)

theorem covered_whole (batch : Bytes) :
    (batch.drop 13).take (batch.length - 13) = batch.drop 13 := by
  rw [← List.length_drop, List.take_length]

theorem Framed.decode (framed : Framed batch) :
    decodeBatch batch = decodeBody (declaredSize batch - 9) batch := by
  have size : batchHeaderSize = 33 := rfl
  have remainder : minimumBatchRemainder = 24 := rfl
  have header := framed.header
  have whole : batch.length = 9 + get ((batch.drop 5).take 4) := framed.whole
  unfold decodeBatch declaredSize
  rw [if_neg (by omega), if_neg (not_not.mpr framed.magic), if_neg (not_not.mpr framed.version),
    slice_within (by omega) (by omega)]
  simp only [Bind.bind, Except.bind, Nat.reduceSub, Nat.add_sub_cancel_left]
  rw [if_neg (by omega), if_neg (by omega), slice_within (by omega) (by omega),
    slice_within (by omega) (by omega)]
  simp only [Nat.reduceSub, ← whole]
  rw [covered_whole batch, if_neg (not_not.mpr framed.checksum)]

/-- Cut at its declared size, a batch is framed or rejected with an error. -/
theorem framed_or_rejected (declared : batch.length ≤ declaredSize batch) :
    Framed batch ∨ ∃ reason, reason ≠ DecodeError.panic ∧ decodeBatch batch = .error reason := by
  have size : batchHeaderSize = 33 := rfl
  have remainder : minimumBatchRemainder = 24 := rfl
  unfold declaredSize at declared
  by_cases header : batch.length < batchHeaderSize
  · exact Or.inr ⟨.shorterThanHeader batch.length, by simp, by rw [decodeBatch, if_pos header]⟩
  by_cases magic : batch.take 4 ≠ magicBytes
  · exact Or.inr ⟨.malformedMagic, by simp, by rw [decodeBatch, if_neg header, if_pos magic]⟩
  by_cases version : (batch.drop 4).take 1 ≠ [formatVersion1]
  · exact Or.inr ⟨.unsupportedVersion, by simp,
      by rw [decodeBatch, if_neg header, if_neg magic, if_pos version]⟩
  have lengthField : slice batch 5 9 = .ok ((batch.drop 5).take 4) :=
    slice_within (by omega) (by omega)
  generalize length : get ((batch.drop 5).take 4) = batchLength at declared
  by_cases small : batchLength < minimumBatchRemainder
  · refine Or.inr ⟨.batchLengthTooSmall batchLength, by simp, ?_⟩
    rw [decodeBatch, if_neg header, if_neg magic, if_neg version, lengthField]
    simp only [Bind.bind, Except.bind, length]
    rw [if_pos small]
  by_cases short : batch.length < 9 + batchLength
  · refine Or.inr ⟨.expectedAtLeast (9 + batchLength) batch.length, by simp, ?_⟩
    rw [decodeBatch, if_neg header, if_neg magic, if_neg version, lengthField]
    simp only [Bind.bind, Except.bind, length]
    rw [if_neg small, if_pos short]
  have whole : batch.length = 9 + batchLength := by omega
  by_cases checksum : get ((batch.drop 9).take 4) = checksumIEEE (batch.drop 13)
  · exact Or.inl ⟨by rw [declaredSize, length, whole], not_lt.mp header, not_not.mp magic,
      not_not.mp version, checksum⟩
  · refine Or.inr ⟨.checksumMismatch, by simp, ?_⟩
    rw [decodeBatch, if_neg header, if_neg magic, if_neg version, lengthField]
    simp only [Bind.bind, Except.bind, length]
    rw [if_neg small, if_neg short, slice_within (by omega) (by omega),
      slice_within (by omega) (by omega)]
    simp only [Nat.reduceSub, ← whole]
    rw [covered_whole batch, if_pos checksum]

theorem decodeBody_ok {batchLength : Nat} (whole : batch.length = 9 + batchLength)
    (header : batchHeaderSize ≤ batch.length)
    (decoded : decodeBody batchLength batch = .ok records) :
    records.length = get ((batch.drop 21).take 4) ∧ (records ≠ [] →
      decodeRecords (get ((batch.drop 13).take 8)) (int64 (get ((batch.drop 25).take 8))) batch
        batch.length records.length 0 batchHeaderSize = .ok (records, batch.length)) := by
  have size : batchHeaderSize = 33 := rfl
  unfold decodeBody at decoded
  rw [slice_within (by omega) (by omega), slice_within (by omega) (by omega),
    slice_within (by omega) (by omega), ← whole] at decoded
  simp only [Bind.bind, Except.bind, Nat.reduceSub] at decoded
  split at decoded
  · cases decoded
  split at decoded
  · rename_i nothing
    cases decoded
    exact ⟨nothing.symm, fun nonempty => absurd rfl nonempty⟩
  · obtain ⟨⟨found, finish⟩, ran, decoded⟩ := bind_ok decoded
    dsimp only at decoded
    split at decoded
    · cases decoded
    rename_i filled
    cases decoded
    obtain ⟨count, _⟩ := decodeRecords_ok ran (by omega)
    rw [not_not.mp filled] at ran
    rw [count]
    exact ⟨rfl, fun _ => ran⟩

theorem decodeBatch_ok (declared : batch.length ≤ declaredSize batch)
    (decoded : decodeBatch batch = .ok records) :
    Accepted batch records := by
  rcases framed_or_rejected declared with framed | ⟨reason, _, rejected⟩
  · rw [framed.decode] at decoded
    have enough : 9 ≤ declaredSize batch := Nat.le_add_right _ _
    obtain ⟨count, filled⟩ := decodeBody_ok (by rw [framed.whole]; omega) framed.header decoded
    exact { framed with count, filled }
  · rw [rejected] at decoded
    cases decoded

/-- What the decoder has seen of data it returns records for, whatever follows the batch. -/
structure Decodes (data : Bytes) (records : List StoredRecord) : Prop where
  header : batchHeaderSize ≤ declaredSize data
  inside : declaredSize data ≤ data.length
  magic : data.take 4 = magicBytes
  version : (data.drop 4).take 1 = [formatVersion1]
  checksum : get ((data.drop 9).take 4) =
    checksumIEEE ((data.drop 13).take (declaredSize data - 13))
  filled : decodeRecords (get ((data.drop 13).take 8)) (int64 (get ((data.drop 25).take 8))) data
    (declaredSize data) (get ((data.drop 21).take 4)) 0 batchHeaderSize =
    .ok (records, declaredSize data)

theorem decodes_of_decodeBatch {data : Bytes} (decoded : decodeBatch data = .ok records)
    (nonempty : records ≠ []) :
    Decodes data records := by
  have size : batchHeaderSize = 33 := rfl
  have remainder : minimumBatchRemainder = 24 := rfl
  unfold decodeBatch at decoded
  split at decoded
  · cases decoded
  rename_i header
  split at decoded
  · cases decoded
  rename_i magic
  split at decoded
  · cases decoded
  rename_i version
  rw [slice_within (by omega) (by omega)] at decoded
  simp only [Bind.bind, Except.bind, Nat.reduceSub] at decoded
  split at decoded
  · cases decoded
  split at decoded
  · cases decoded
  rename_i enough whole
  rw [slice_within (by omega) (by omega), slice_within (by omega) (by omega)] at decoded
  simp only [Nat.reduceSub] at decoded
  split at decoded
  · cases decoded
  rename_i checksum
  unfold decodeBody at decoded
  rw [slice_within (by omega) (by omega), slice_within (by omega) (by omega),
    slice_within (by omega) (by omega)] at decoded
  simp only [Bind.bind, Except.bind, Nat.reduceSub] at decoded
  split at decoded
  · cases decoded
  split at decoded
  · cases decoded
    exact absurd rfl nonempty
  · obtain ⟨⟨found, finish⟩, ran, decoded⟩ := bind_ok decoded
    dsimp only at decoded
    split at decoded
    · cases decoded
    rename_i filled
    cases decoded
    rw [not_not.mp filled] at ran
    exact ⟨by unfold declaredSize; omega, not_lt.mp whole, not_not.mp magic, not_not.mp version,
      not_not.mp checksum, ran⟩

/-- Whatever follows the batch, decoded records fill its declared size and fit its fields. -/
theorem decodeBatch_sound {data : Bytes} (decoded : decodeBatch data = .ok records)
    (nonempty : records ≠ []) :
    (∀ r ∈ records, Fits (get ((data.drop 13).take 8)) (int64 (get ((data.drop 25).take 8))) r) ∧
      declaredSize data = 33 + (records.map recordPayloadSize).sum := by
  have decodes := decodes_of_decodeBatch decoded nonempty
  obtain ⟨_, fits, _, place⟩ :=
    decodeRecords_ok decodes.filled (decodes.header.trans decodes.inside)
  rw [encodeRecords_length] at place
  exact ⟨fits, place⟩

end Batch

end MessageBroker.Storage
