import MessageBroker.Storage.DecodeReads
import MessageBroker.Storage.RecoveryScan

namespace MessageBroker.Storage

open BigEndian Crc32

/-! ## One changed byte of a batch -/

section Lists

variable {α : Type} {data : List α} {i : Nat} {value : α}

theorem field_changed (low width : Nat) (after : low ≤ i) (before : i < low + width)
    (inside : i < data.length)
    (same : ((data.set i value).drop low).take width = (data.drop low).take width) :
    data[i]? = some value := by
  have entry := congrArg (fun part => part[i - low]?) same
  rw [List.getElem?_take_of_lt (by omega), List.getElem?_take_of_lt (by omega), List.getElem?_drop,
    List.getElem?_drop, Nat.add_sub_cancel' after, List.getElem?_set_self inside] at entry
  exact entry.symm

theorem field_before {low width : Nat} (before : low + width ≤ i) :
    ((data.set i value).drop low).take width = (data.drop low).take width := by
  rw [List.drop_set, if_neg (by omega), List.take_set_of_le (by omega)]

theorem field_after {low : Nat} (after : i < low) :
    (data.set i value).drop low = data.drop low := by
  rw [List.drop_set, if_pos after]

end Lists

theorem checksum_changed {data : Bytes} {i : Nat} {value : UInt8} (inside : i < data.length)
    (same : checksumIEEE (data.set i value) = checksumIEEE data) : data[i]? = some value := by
  rw [List.getElem?_eq_getElem inside, Option.some.injEq]
  by_contra differs
  have split : checksumIEEE data = checksumIEEE (data.take i ++ data[i] :: data.drop (i + 1)) := by
    simp
  rw [List.set_eq_take_append_cons_drop, if_pos inside] at same
  exact checksum_detects_byte _ _ _ _ (Ne.symm differs) (same.trans split)

section Batches

variable {b : Batch} {base : Nat}

theorem Batch.body_occurs (valid : b.Valid base) :
    Occurs (b.bytes base) 13
      (batchBody base (batchMaxTimestamp (b.stored base)) (b.stored base)) := by
  obtain ⟨_, frame, rfl, _, _⟩ := b.bytes_frame valid.placed
  rw [frame, ← List.append_nil (frameBatch _ _)]
  exact frame_body

theorem Batch.framed (valid : b.Valid base) : Framed (b.bytes base) := by
  obtain ⟨maxTimestamp, frame, _, whole, bound⟩ := b.bytes_frame valid.placed
  have small := valid.small
  have length := b.bytes_length valid
  obtain ⟨magic, version, _⟩ := b.prefix_fields valid.placed valid.fits
  rw [List.take_take, Nat.min_eq_left (by decide)] at magic
  rw [List.drop_take, List.take_take, Nat.min_eq_left (by decide)] at version
  have lengthField := @Batch.length_field b base b.size valid.placed valid.fits (by omega)
  rw [List.take_of_length_le (le_of_eq length)] at lengthField
  have size : batchHeaderSize = 33 := rfl
  refine ⟨by rw [declaredSize, lengthField]; omega, by omega, magic, version, ?_⟩
  have checksumAt :
      Occurs (b.bytes base) 9
        (put 4 (checksumIEEE (batchBody base maxTimestamp (b.stored base)))) := by
    rw [frame, ← List.append_nil (frameBatch _ _)]
    exact frame_checksum
  have field := checksumAt.extract
  rw [put_length] at field
  have body : (b.bytes base).drop 13 = batchBody base maxTimestamp (b.stored base) := by
    rw [frame, frameBatch, List.drop_left' (by simp [magicBytes])]
  rw [field, body, get_put_four (checksumIEEE_lt _)]

theorem Batch.body_fields (valid : b.Valid base) :
    get (((b.bytes base).drop 13).take 8) = base ∧
      get (((b.bytes base).drop 21).take 4) = (b.stored base).length ∧
      int64 (get (((b.bytes base).drop 25).take 8) : Nat) = batchMaxTimestamp (b.stored base) := by
  have bodyAt := b.body_occurs valid
  have offsets := valid.offsets
  have range := valid.time
  have top := Batch.maxTimestamp_eq valid.placed
  have count := b.count_lt valid
  have small := valid.small
  have timestampField := bodyAt.left_part.right_part.extract
  have countField := bodyAt.left_part.left_part.right_part.extract
  have baseField := bodyAt.left_part.left_part.left_part.extract
  simp only [List.length_append, put_length, Nat.reduceAdd] at timestampField countField baseField
  refine ⟨?_, ?_, ?_⟩
  · rw [baseField, get_put_eight (by omega)]
  · rw [countField, get_put_four (by rw [Batch.stored_length]; omega)]
  · rw [timestampField, get_put_eight (uint64_lt _), int64_uint64,
      int64_of_range (by omega) (by omega)]

end Batches

/-! ## The changed batch is never decoded -/

section Changed

variable {b : Batch} {base i : Nat} {value : UInt8} {after : Bytes}

def changedTail (b : Batch) (base i : Nat) (value : UInt8) (after : Bytes) : Bytes :=
  (b.bytes base).set i value ++ after

theorem changedTail_length (valid : b.Valid base) (i : Nat) (value : UInt8) (after : Bytes) :
    (changedTail b base i value after).length = b.size + after.length := by
  rw [changedTail, List.length_append, List.length_set, b.bytes_length valid]

theorem changedTail_field (valid : b.Valid base) (low width : Nat) (inside : low + width ≤ b.size) :
    ((changedTail b base i value after).drop low).take width =
      (((b.bytes base).set i value).drop low).take width := by
  have length := b.bytes_length valid
  rw [changedTail, List.drop_append_of_le_length (by rw [List.length_set]; omega),
    List.take_append_of_le_length (by rw [List.length_drop, List.length_set]; omega)]

/-- Outside the length field a change leaves the declared size and breaks what it hits. -/
theorem changed_elsewhere (valid : b.Valid base) (inside : i < b.size) (elsewhere : i < 5 ∨ 9 ≤ i)
    (framed : Framed ((b.bytes base).set i value)) : (b.bytes base)[i]? = some value := by
  have length := b.bytes_length valid
  have known := b.framed valid
  rw [← length] at inside
  by_cases first : i < 4
  · refine field_changed 0 4 (by omega) (by omega) inside ?_
    exact framed.magic.trans known.magic.symm
  by_cases second : i < 5
  · refine field_changed 4 1 (by omega) (by omega) inside ?_
    exact framed.version.trans known.version.symm
  by_cases third : i < 13
  · refine field_changed 9 4 (by omega) (by omega) inside ?_
    have checksum := framed.checksum
    rw [field_after third, ← known.checksum] at checksum
    refine get_injective ?_ checksum
    simp
  · have checksum := framed.checksum
    rw [field_before (by omega), known.checksum, List.drop_set, if_neg (by omega)] at checksum
    have entry := checksum_changed (by rw [List.length_drop]; omega) checksum.symm
    rwa [List.getElem?_drop, Nat.add_sub_cancel' (by omega)] at entry

theorem changed_size (valid : b.Valid base) (elsewhere : i < 5 ∨ 9 ≤ i) :
    declaredSize (changedTail b base i value after) = b.size := by
  have bound := b.size_ge valid
  have whole := (b.framed valid).whole
  rw [b.bytes_length valid] at whole
  rw [declaredSize, changedTail_field valid 5 4 (by omega)]
  rcases elsewhere with before | behind
  · rw [field_after before]
    exact whole.symm
  · rw [field_before behind]
    exact whole.symm

/-- A change of the length field changes the declared size. -/
theorem changed_length (after : Bytes) (valid : b.Valid base) (lengthByte : 5 ≤ i ∧ i < 9)
    (differs : (b.bytes base)[i]? ≠ some value) :
    declaredSize (changedTail b base i value after) ≠ b.size := by
  intro same
  have bound := b.size_ge valid
  have length := b.bytes_length valid
  have whole := (b.framed valid).whole
  rw [length] at whole
  rw [declaredSize, changedTail_field valid 5 4 (by omega), whole, declaredSize,
    Nat.add_left_cancel_iff] at same
  refine differs (field_changed 5 4 lengthByte.1 (by omega) (by omega) (get_injective ?_ same))
  simp

theorem changed_records (value : UInt8) (after : Bytes) (valid : b.Valid base)
    (lengthByte : 5 ≤ i ∧ i < 9) :
    Occurs (changedTail b base i value after) 33
      ((b.stored base).flatMap (encodeRecord base (batchMaxTimestamp (b.stored base)))) := by
  obtain ⟨front, rest, split, start⟩ := (b.decode_bytes valid.placed valid.fits).2
  refine ⟨front.set i value, rest ++ after, ?_, by rw [List.length_set, start]⟩
  rw [changedTail, split, List.set_append_left _ _ (by omega)]
  simp

/-- Where the records start they can be read in one way only: a shorter or longer batch that decodes
    ends where the batch ends. -/
theorem decoded_size {tail : Bytes} {declared : Nat} {records : List StoredRecord}
    (valid : b.Valid base)
    (recordsAt : Occurs tail 33
      ((b.stored base).flatMap (encodeRecord base (batchMaxTimestamp (b.stored base)))))
    (whole : declared ≤ tail.length) (header : 33 ≤ declared) (small : declared < 2 ^ 32 + 9)
    (filled : decodeRecords base (batchMaxTimestamp (b.stored base)) (tail.take declared) declared
      (b.stored base).length 0 batchHeaderSize = .ok (records, declared)) : declared = b.size := by
  have bound := b.size_ge valid
  have fewer := valid.small
  have cut : (tail.take declared).length = declared := by
    rw [List.length_take]
    omega
  obtain ⟨count, fits, found, finish⟩ := decodeRecords_ok filled (by rw [cut]; exact header)
  have longer := found.append (tail.drop declared)
  rw [List.take_append_drop] at longer
  -- one run of the record loop gives both results
  have run := decodeRecords_occurs records 0 batchHeaderSize fits longer
    (show _ ≤ max b.size declared by omega) (by unfold batchHeaderSize; omega)
  rw [← finish, count] at run
  by_cases readable : b.Readable
  · rw [b.records_readable valid.placed (valid.exact readable) recordsAt (le_max_left _ _)
      (by omega)] at run
    exact (Prod.mk.inj (Except.ok.inj run)).2.symm
  · rw [b.records_unreadable valid readable recordsAt (by omega)] at run
    cases run

/-- The batch with its changed byte, cut at the size it declares, does not decode. -/
theorem changed_undecodable (valid : b.Valid base) (inside : i < b.size)
    (differs : (b.bytes base)[i]? ≠ some value)
    (whole : declaredSize (changedTail b base i value after) ≤
      (changedTail b base i value after).length)
    (records : List StoredRecord) :
    decodeBatch ((changedTail b base i value after).take
      (declaredSize (changedTail b base i value after))) ≠ .ok records := by
  intro decoded
  have small := declaredSize_lt (changedTail b base i value after)
  have same := declaredSize_take (changedTail b base i value after)
    (show 9 ≤ declaredSize (changedTail b base i value after) from Nat.le_add_right _ _)
  have cut : ((changedTail b base i value after).take
      (declaredSize (changedTail b base i value after))).length =
      declaredSize (changedTail b base i value after) := by
    rw [List.length_take]
    omega
  have accepted := decodeBatch_ok (by omega) decoded
  by_cases lengthByte : 5 ≤ i ∧ i < 9
  case neg =>
    have elsewhere : i < 5 ∨ 9 ≤ i := by omega
    have framed := accepted.toFramed
    rw [changed_size valid elsewhere, changedTail,
      List.take_left' (by rw [List.length_set, b.bytes_length valid])] at framed
    exact differs (changed_elsewhere valid inside elsewhere framed)
  have bound := b.size_ge valid
  have header := accepted.header
  rw [cut, batchHeaderSize] at header
  obtain ⟨baseField, countField, timestampField⟩ := b.body_fields valid
  have fields : ∀ low width, 13 ≤ low → low + width ≤ 33 →
      (((changedTail b base i value after).take
        (declaredSize (changedTail b base i value after))).drop low).take width =
        ((b.bytes base).drop low).take width := by
    intro low width behind before
    rw [List.drop_take, List.take_take, Nat.min_eq_left (by omega),
      changedTail_field valid low width (by omega), field_after (by omega)]
  have count := accepted.count
  have filled := accepted.filled
  rw [fields 21 4 (by decide) (by decide), countField] at count
  rw [fields 13 8 (by decide) (by decide), fields 25 8 (by decide) (by decide), baseField,
    timestampField, cut, count] at filled
  have nonempty : records ≠ [] := by
    rw [← List.length_pos_iff, count, List.length_pos_iff]
    exact b.stored_ne_nil valid.placed
  exact changed_length after valid lengthByte differs
    (decoded_size valid (changed_records value after valid lengthByte) whole header small
      (filled nonempty))

end Changed

/-! ## The round of the scan at the changed batch -/

/-- Recovery does not report these bytes as corrupt: within the limits they declare more than the
    log has, or the decoder overreads them. -/
def Escapes (limit : Int) (tail : Bytes) : Prop :=
  9 + minimumBatchRemainder ≤ declaredSize tail ∧ (declaredSize tail : Int) ≤ limit ∧
    (tail.length < declaredSize tail ∨ Overreads (tail.take (declaredSize tail)))

section Round

variable {limit : Int} {tail : Bytes} {expected : Nat}

theorem scanRound_tail (done : Bytes) (header : 9 ≤ tail.length) (magic : tail.take 4 = magicBytes)
    (version : (tail.drop 4).take 1 = [formatVersion1])
    (enough : 9 + minimumBatchRemainder ≤ declaredSize tail)
    (small : (declaredSize tail : Int) ≤ limit) :
    scanRound limit (done ++ tail) done.length expected =
      if tail.length < declaredSize tail then .torn .incompletePayload
      else acceptedBatch (tail.take (declaredSize tail)) expected (declaredSize tail) := by
  obtain ⟨magicField, versionField, lengthField⟩ := prefix_parts tail
  unfold declaredSize at enough small ⊢
  unfold scanRound
  rw [List.length_append, if_pos (by omega), if_neg (by omega), List.drop_left]
  unfold prefixRound
  rw [magicField, versionField, if_neg (not_not.mpr magic), if_neg (not_not.mpr version)]
  simp only [lengthField, List.length_append, List.drop_left]
  rw [if_neg (by omega), if_neg (by omega)]
  by_cases short : tail.length < 9 + get ((tail.drop 5).take 4)
  · rw [if_pos short, if_pos (by omega)]
  · rw [if_neg short, if_neg (by omega)]

/-- Whatever the round does not reject has passed its tests. -/
theorem scanRound_rejects (done : Bytes) (header : 9 ≤ tail.length)
    (failed : ¬ (tail.take 4 = magicBytes ∧ (tail.drop 4).take 1 = [formatVersion1] ∧
      9 + minimumBatchRemainder ≤ declaredSize tail ∧ (declaredSize tail : Int) ≤ limit)) :
    ∃ reason, scanRound limit (done ++ tail) done.length expected = .rejected reason := by
  obtain ⟨magicField, versionField, lengthField⟩ := prefix_parts tail
  unfold declaredSize at failed
  unfold scanRound
  rw [List.length_append, if_pos (by omega), if_neg (by omega), List.drop_left]
  unfold prefixRound
  rw [magicField, versionField]
  simp only [lengthField, List.length_append]
  by_cases magic : tail.take 4 = magicBytes
  case neg => exact ⟨_, if_pos magic⟩
  rw [if_neg (not_not.mpr magic)]
  by_cases version : (tail.drop 4).take 1 = [formatVersion1]
  case neg => exact ⟨_, if_pos version⟩
  rw [if_neg (not_not.mpr version)]
  by_cases enough : get ((tail.drop 5).take 4) < minimumBatchRemainder
  · exact ⟨_, if_pos enough⟩
  rw [if_neg enough]
  exact ⟨_, if_pos (by
    by_contra small
    exact failed ⟨magic, version, by omega, by omega⟩)⟩

theorem acceptedBatch_overreads (overreads : Overreads (tail.take (declaredSize tail))) :
    acceptedBatch (tail.take (declaredSize tail)) expected (declaredSize tail) = .panicked := by
  have same := declaredSize_take tail (show 9 ≤ declaredSize tail from Nat.le_add_right _ _)
  have panicked := (decodeBatch_panics (by rw [same, List.length_take]; omega)).mpr overreads
  simp only [acceptedBatch, panicked]

theorem acceptedBatch_rejects (undecodable : ∀ records,
    decodeBatch (tail.take (declaredSize tail)) ≠ .ok records)
    (guarded : ¬ Overreads (tail.take (declaredSize tail))) :
    ∃ reason, acceptedBatch (tail.take (declaredSize tail)) expected (declaredSize tail) =
      .rejected reason := by
  have same := declaredSize_take tail (show 9 ≤ declaredSize tail from Nat.le_add_right _ _)
  have panics :=
    @decodeBatch_panics (tail.take (declaredSize tail)) (by rw [same, List.length_take]; omega)
  unfold acceptedBatch
  cases decoded : decodeBatch (tail.take (declaredSize tail)) with
  | ok records => exact absurd decoded (undecodable records)
  | error reason =>
    cases reason with
    | panic => exact absurd (panics.mp decoded) guarded
    | _ => exact ⟨_, rfl⟩

end Round

section ChangedRound

variable {limit : Int} {b : Batch} {base i : Nat} {value : UInt8} {after : Bytes} {expected : Nat}

/-- Only a change of the length field escapes. -/
theorem escapes_lengthByte (valid : b.Valid base) (inside : i < b.size)
    (differs : (b.bytes base)[i]? ≠ some value)
    (escapes : Escapes limit (changedTail b base i value after)) : 5 ≤ i ∧ i < 9 := by
  by_contra other
  have elsewhere : i < 5 ∨ 9 ≤ i := by omega
  have length := b.bytes_length valid
  obtain ⟨_, _, short | overreads⟩ := escapes
  · rw [changed_size valid elsewhere, changedTail_length valid i value after] at short
    omega
  · have framed := overreads.toFramed
    rw [changed_size valid elsewhere, changedTail,
      List.take_left' (by rw [List.length_set, length])] at framed
    exact differs (changed_elsewhere valid inside elsewhere framed)

/-- A changed byte that does not escape is reported. -/
theorem scanRound_reports (done : Bytes) (valid : b.Valid base) (inside : i < b.size)
    (differs : (b.bytes base)[i]? ≠ some value)
    (caught : ¬ Escapes limit (changedTail b base i value after)) :
    ∃ reason, scanRound limit (done ++ changedTail b base i value after) done.length expected =
      .rejected reason := by
  have bound := b.size_ge valid
  have length := changedTail_length valid i value after
  have undecodable := @changed_undecodable b base i value after valid inside differs
  generalize changedTail b base i value after = tail at *
  by_cases passed : tail.take 4 = magicBytes ∧ (tail.drop 4).take 1 = [formatVersion1] ∧
      9 + minimumBatchRemainder ≤ declaredSize tail ∧ (declaredSize tail : Int) ≤ limit
  · obtain ⟨magic, version, enough, small⟩ := passed
    have whole : ¬ tail.length < declaredSize tail :=
      fun short => caught ⟨enough, small, Or.inl short⟩
    rw [scanRound_tail done (by omega) magic version enough small, if_neg whole]
    exact acceptedBatch_rejects (undecodable (not_lt.mp whole))
      fun overreads => caught ⟨enough, small, Or.inr overreads⟩
  · exact scanRound_rejects done (by omega) passed

/-- A changed length that escapes is a torn tail or a panic. -/
theorem escapes_cases (done : Bytes) (valid : b.Valid base) (lengthByte : 5 ≤ i ∧ i < 9)
    (escapes : Escapes limit (changedTail b base i value after)) :
    Torn limit (changedTail b base i value after) ∨
      scanRound limit (done ++ changedTail b base i value after) done.length expected =
        .panicked := by
  have bound := b.size_ge valid
  have length := changedTail_length valid i value after
  have known := b.framed valid
  have magic : (changedTail b base i value after).take 4 = magicBytes := by
    have field := @changedTail_field b base i value after valid 0 4 (by omega)
    rw [List.drop_zero] at field
    rw [field, field_before (by omega)]
    exact known.magic
  have version : ((changedTail b base i value after).drop 4).take 1 = [formatVersion1] := by
    rw [changedTail_field valid 4 1 (by omega), field_before (by omega)]
    exact known.version
  generalize changedTail b base i value after = tail at *
  obtain ⟨enough, small, overrun⟩ := escapes
  by_cases short : tail.length < declaredSize tail
  · left
    unfold declaredSize at enough small short
    exact Or.inr ⟨magic, version, by omega, small, short⟩
  · right
    rw [scanRound_tail done (by omega) magic version enough small, if_neg short]
    exact acceptedBatch_overreads (overrun.resolve_left short)

end ChangedRound

end MessageBroker.Storage
