import MessageBroker.Lib.Occurs
import MessageBroker.Storage.Format

namespace MessageBroker.Storage

open BigEndian Crc32

theorem slice_occurs {data piece : Bytes} {offset high : Nat} (occurs : Occurs data offset piece)
    (width : high = offset + piece.length) : slice data offset high = .ok piece := by
  subst width
  have bound := occurs.bound
  have inside : offset ≤ offset + piece.length ∧ offset + piece.length ≤ data.length :=
    ⟨by omega, bound⟩
  unfold slice
  rw [if_pos inside, Nat.add_sub_cancel_left, occurs.extract]

theorem slice_put {data : Bytes} {offset width value : Nat}
    (occurs : Occurs data offset (put width value)) :
    slice data offset (offset + width) = .ok (put width value) :=
  slice_occurs occurs (by simp)

theorem slice_ok {data piece : Bytes} {low high : Nat} (sliced : slice data low high = .ok piece) :
    low ≤ high ∧ high ≤ data.length ∧ piece = (data.drop low).take (high - low) := by
  unfold slice at sliced
  split at sliced
  · rename_i inside
    exact ⟨inside.1, inside.2, (Except.ok.inj sliced).symm⟩
  · cases sliced

/-! ## Lengths: the encoder's first pass predicts what its second pass writes -/

@[simp] theorem encodeOptional_length (field : Option Bytes) :
    (encodeOptional field).length = 4 + optionalLength field := by
  cases field <;> simp [encodeOptional, optionalLength]

@[simp] theorem encodeHeader_length (h : Header) :
    (encodeHeader h).length = 8 + h.key.length + h.value.length := by
  simp only [encodeHeader, List.length_append, put_length]
  omega

theorem encodeHeaders_length (headers : List Header) :
    (headers.flatMap encodeHeader).length =
      (headers.map fun h => 8 + h.key.length + h.value.length).sum := by
  rw [List.length_flatMap]
  simp

theorem encodeRecord_length (baseOffset : Nat) (maxTimestamp : Int) (r : StoredRecord) :
    (encodeRecord baseOffset maxTimestamp r).length = recordPayloadSize r := by
  simp only [encodeRecord, recordPayloadSize, minimumRecordSize, List.length_append, put_length,
    encodeOptional_length, encodeHeaders_length]
  omega

theorem encodeRecords_length (baseOffset : Nat) (maxTimestamp : Int) (records : List StoredRecord) :
    (records.flatMap (encodeRecord baseOffset maxTimestamp)).length =
      (records.map recordPayloadSize).sum := by
  rw [List.length_flatMap]
  simp only [encodeRecord_length]

theorem batchBody_length (baseOffset : Nat) (maxTimestamp : Int) (records : List StoredRecord) :
    (batchBody baseOffset maxTimestamp records).length =
      20 + (records.map recordPayloadSize).sum := by
  simp only [batchBody, List.length_append, put_length, encodeRecords_length]

theorem frameBatch_length (batchLength : Nat) (body : Bytes) :
    (frameBatch batchLength body).length = 13 + body.length := by
  simp only [frameBatch, magicBytes, formatVersion1, List.length_append, put_length,
    List.length_cons, List.length_nil]

/-! ## Fields -/

theorem get_put_four {value : Nat} (fits : value < 2 ^ 32) : get (put 4 value) = value :=
  get_put_of_lt (by omega)

theorem get_put_eight {value : Nat} (fits : value < 2 ^ 64) : get (put 8 value) = value :=
  get_put_of_lt (by omega)

theorem int32_of_small {value : Nat} (small : value < 2 ^ 31) : int32 value = value := by
  unfold int32
  apply Int.bmod_eq_of_le <;> omega

theorem nil_sentinel : int32 (get (put 4 0xFFFFFFFF)) = -1 := by
  rw [get_put_four (by decide)]
  decide

theorem decodeSized_length {overflow : DecodeError} {invalid : Int → DecodeError}
    {data bytes : Bytes} {total offset : Nat} (occurs : Occurs data offset bytes)
    (inside : offset + bytes.length ≤ total) :
    decodeSized overflow invalid data total offset bytes.length =
      .ok (some bytes, offset + bytes.length) := by
  unfold decodeSized
  by_cases empty : bytes = []
  · subst empty
    rfl
  · have positive : 0 < bytes.length := List.length_pos_iff.mpr empty
    rw [if_pos (by omega), Int.toNat_natCast, if_neg (by omega), slice_occurs occurs rfl]
    rfl

theorem decodeOptional_occurs {overflow : DecodeError} {invalid : Int → DecodeError} {data : Bytes}
    {total offset : Nat} {field : Option Bytes} (occurs : Occurs data offset (encodeOptional field))
    (inside : offset + (encodeOptional field).length ≤ total)
    (small : optionalLength field < 2 ^ 31) :
    decodeOptional overflow invalid data total offset =
      .ok (field, offset + (encodeOptional field).length) := by
  rw [encodeOptional_length] at inside ⊢
  cases field with
  | none =>
    have nilAt : Occurs data offset (put 4 0xFFFFFFFF) := occurs
    simp only [decodeOptional, slice_put nilAt, Bind.bind, Except.bind, nil_sentinel]
    rfl
  | some bytes =>
    rw [optionalLength, ← Nat.add_assoc] at inside ⊢
    rw [optionalLength] at small
    have lengthAt := slice_put occurs.left_part
    have bytesAt := occurs.right_part
    rw [put_length] at bytesAt
    simp only [decodeOptional, lengthAt, Bind.bind, Except.bind,
      get_put_four (show bytes.length < 2 ^ 32 by omega),
      int32_of_small (show bytes.length < 2 ^ 31 by omega)]
    exact decodeSized_length bytesAt inside

theorem decodeHeader_occurs {i j : Nat} {data : Bytes} {total offset : Nat} {h : Header}
    (occurs : Occurs data offset (encodeHeader h))
    (inside : offset + (encodeHeader h).length ≤ total) (small : total < 2 ^ 32 + offset) :
    decodeHeader i j data total offset = .ok (h, offset + (encodeHeader h).length) := by
  rw [encodeHeader_length] at inside
  have valueAt := occurs.right_part
  have valueLengthAt := occurs.left_part.right_part
  have keyAt := occurs.left_part.left_part.right_part
  have keyLengthAt := occurs.left_part.left_part.left_part
  simp only [List.length_append, put_length] at valueAt valueLengthAt keyAt
  have valueLengthSlice := slice_put valueLengthAt
  have keyNumber : get (put 4 h.key.length) = h.key.length := get_put_four (by omega)
  have valueNumber : get (put 4 h.value.length) = h.value.length := get_put_four (by omega)
  simp only [← Nat.add_assoc] at valueAt valueLengthSlice
  unfold decodeHeader
  rw [if_neg (by omega)]
  simp only [slice_put keyLengthAt, Bind.bind, Except.bind, keyNumber]
  rw [if_neg (by omega)]
  simp only [slice_occurs keyAt rfl, valueLengthSlice, valueNumber]
  rw [if_neg (by omega)]
  simp only [slice_occurs valueAt rfl, encodeHeader_length]
  congr 2
  omega

theorem decodeHeaders_occurs {i : Nat} {data : Bytes} {total : Nat} (headers : List Header)
    (j offset : Nat) (occurs : Occurs data offset (headers.flatMap encodeHeader))
    (inside : offset + (headers.flatMap encodeHeader).length ≤ total)
    (small : total < 2 ^ 32 + offset) :
    decodeHeaders i data total headers.length j offset =
      .ok (headers, offset + (headers.flatMap encodeHeader).length) := by
  induction headers generalizing j offset with
  | nil => simp [decodeHeaders]
  | cons h headers ih =>
    rw [List.flatMap_cons] at occurs inside ⊢
    rw [List.length_append] at inside ⊢
    have first := decodeHeader_occurs (i := i) (j := j) (occurs.left_part) (by omega) small
    have rest := ih (j + 1) (offset + (encodeHeader h).length) occurs.right_part (by omega)
      (by omega)
    simp only [List.length_cons, decodeHeaders, first, rest, Bind.bind, Except.bind, Nat.add_assoc]

/-! ## Records -/

/-- The conditions under which a record's deltas and lengths fit their fields. -/
structure Fits (baseOffset : Nat) (maxTimestamp : Int) (r : StoredRecord) : Prop where
  offset : r.offset < 2 ^ 64
  offsetDelta : uint64 (r.offset - baseOffset) < 2 ^ 32
  timestamp : -2 ^ 63 ≤ r.timestamp ∧ r.timestamp < 2 ^ 63
  timestampDelta : 0 ≤ int64 (maxTimestamp - r.timestamp)
  key : optionalLength r.key < 2 ^ 31
  value : optionalLength r.value < 2 ^ 31

theorem offset_restored {offset baseOffset : Nat} (bound : offset < 2 ^ 64) :
    uint64 (baseOffset + (uint64 (offset - baseOffset) : Nat)) = offset := by
  unfold uint64
  omega

theorem timestamp_restored {maxTimestamp timestamp : Int} (low : -2 ^ 63 ≤ timestamp)
    (high : timestamp < 2 ^ 63) :
    int64 (maxTimestamp - int64 (maxTimestamp - timestamp)) = timestamp := by
  have wrapped : int64 (maxTimestamp - int64 (maxTimestamp - timestamp)) =
      int64 (maxTimestamp - (maxTimestamp - timestamp)) := by
    simp only [int64, Int.sub_bmod_bmod]
  rw [wrapped, show maxTimestamp - (maxTimestamp - timestamp) = timestamp by omega]
  exact int64_of_range low high

theorem delta_restored (delta : Int) :
    int64 (get (put 8 (uint64 (int64 delta))) : Nat) = int64 delta := by
  have range := int64_range delta
  rw [get_put_eight (uint64_lt _), int64_uint64, int64_of_range range.1 range.2]

theorem header_quota {total : Nat} (offset : Nat) (inside : offset ≤ total)
    (small : total < 2 ^ 32 + offset) :
    uint32 (Int.tdiv (total - offset) 8) = (total - offset) / 8 := by
  have nonnegative : (0 : Int) ≤ total - offset := by omega
  unfold uint32
  rw [Int.tdiv_eq_ediv_of_nonneg nonnegative]
  omega

theorem headers_count_le (headers : List Header) :
    8 * headers.length ≤ (headers.flatMap encodeHeader).length := by
  induction headers with
  | nil => simp
  | cons h headers ih =>
    simp only [List.flatMap_cons, List.length_append, List.length_cons, encodeHeader_length]
    omega

theorem decodeRecord_occurs {baseOffset i : Nat} {maxTimestamp : Int} {data : Bytes}
    {total offset : Nat} {r : StoredRecord} (fits : Fits baseOffset maxTimestamp r)
    (occurs : Occurs data offset (encodeRecord baseOffset maxTimestamp r))
    (inside : offset + (encodeRecord baseOffset maxTimestamp r).length ≤ total)
    (small : total < 2 ^ 32 + offset) :
    decodeRecord baseOffset maxTimestamp i data total offset =
      .ok (r, offset + (encodeRecord baseOffset maxTimestamp r).length) := by
  have headersAt := occurs.right_part
  have countAt := occurs.left_part.right_part
  have valueAt := occurs.left_part.left_part.right_part
  have keyAt := occurs.left_part.left_part.left_part.right_part
  have timestampAt := occurs.left_part.left_part.left_part.left_part.right_part
  have offsetAt := occurs.left_part.left_part.left_part.left_part.left_part
  simp only [List.length_append, put_length,
    ← Nat.add_assoc] at headersAt countAt valueAt keyAt timestampAt
  simp only [encodeRecord, List.length_append, put_length, ← Nat.add_assoc] at inside ⊢
  have enough := headers_count_le r.headers
  have fieldBound := encodeOptional_length r.key
  have valueBound := encodeOptional_length r.value
  have deltaOffset :
      get (put 4 (uint64 (r.offset - baseOffset))) = uint64 (r.offset - baseOffset) :=
    get_put_four fits.offsetDelta
  have deltaTime := delta_restored (maxTimestamp - r.timestamp)
  have forward := fits.timestampDelta
  have count : get (put 4 r.headers.length) = r.headers.length := get_put_four (by omega)
  unfold decodeRecord
  rw [if_neg (by unfold minimumRecordSize; omega)]
  simp only [slice_put offsetAt, slice_put timestampAt, Bind.bind, Except.bind, deltaOffset,
    deltaTime]
  rw [if_neg (by omega)]
  have quota := @header_quota total (offset + 4 + 8 + (encodeOptional r.key).length +
    (encodeOptional r.value).length + 4) (by omega) (by omega)
  have headers := @decodeHeaders_occurs i data total r.headers 0 _ headersAt (by omega) (by omega)
  simp only [decodeKey, decodeValue, decodeOptional_occurs keyAt (show _ ≤ total by omega) fits.key,
    decodeOptional_occurs valueAt (show _ ≤ total by omega) fits.value, slice_put countAt, count]
  rw [if_neg (by rw [quota]; omega)]
  simp only [headers, offset_restored fits.offset,
    timestamp_restored fits.timestamp.1 fits.timestamp.2]

theorem decodeRecords_occurs {baseOffset : Nat} {maxTimestamp : Int} {data : Bytes} {total : Nat}
    (records : List StoredRecord) (i offset : Nat)
    (fits : ∀ r ∈ records, Fits baseOffset maxTimestamp r)
    (occurs : Occurs data offset (records.flatMap (encodeRecord baseOffset maxTimestamp)))
    (inside : offset + (records.flatMap (encodeRecord baseOffset maxTimestamp)).length ≤ total)
    (small : total < 2 ^ 32 + offset) :
    decodeRecords baseOffset maxTimestamp data total records.length i offset =
      .ok (records, offset + (records.flatMap (encodeRecord baseOffset maxTimestamp)).length) := by
  induction records generalizing i offset with
  | nil => simp [decodeRecords]
  | cons r records ih =>
    rw [List.flatMap_cons] at occurs inside ⊢
    rw [List.length_append] at inside ⊢
    have first := decodeRecord_occurs (i := i) (fits r List.mem_cons_self) occurs.left_part
      (by omega) small
    have rest := ih (i + 1) _ (fun r member => fits r (List.mem_cons_of_mem _ member))
      occurs.right_part (by omega) (by omega)
    simp only [List.length_cons, decodeRecords, first, rest, Bind.bind, Except.bind, Nat.add_assoc]

end MessageBroker.Storage
