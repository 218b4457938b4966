import MessageBroker.Storage.BatchRoundTrip
import MessageBroker.Storage.Store

namespace MessageBroker.Storage

open BigEndian

/-- What one append adds to the log: its records, all stamped with one clock reading. -/
structure Batch where
  time : Int
  records : List Record
  deriving DecidableEq, Repr

namespace Batch

def stored (b : Batch) (base : Nat) : List StoredRecord := stampRecords base b.time b.records

def bytes (b : Batch) (base : Nat) : Bytes := (encodeBatch (b.stored base)).getD []

def size (b : Batch) : Nat := (b.bytes 0).length

/-- What the broker's limits and the machine's integers ask of a batch at its base offset. -/
structure Valid (b : Batch) (base : Nat) : Prop where
  someRecord : b.records ≠ []
  time : -2 ^ 63 ≤ b.time ∧ b.time < 2 ^ 63
  offsets : base + b.records.length < 2 ^ 64
  small : b.size < 2 ^ 31

/-- The encoder's difference of timestamps wraps for the least `int64`, and the decoder rejects
    it. -/
def Readable (b : Batch) : Prop := b.time ≠ -2 ^ 63

instance (b : Batch) : Decidable b.Readable := inferInstanceAs (Decidable (_ ≠ _))

/-- What every append gives a batch, whatever its size. -/
structure Placed (b : Batch) (base : Nat) : Prop where
  someRecord : b.records ≠ []
  time : -2 ^ 63 ≤ b.time ∧ b.time < 2 ^ 63
  start : base < 2 ^ 64

/-- The format's fields can hold the batch: four bytes its length, `int32` its keys' and values'. -/
structure Exact (b : Batch) : Prop where
  readable : b.Readable
  size : b.size < 2 ^ 32 + 9
  lengths : ∀ r ∈ b.records, optionalLength r.key < 2 ^ 31 ∧ optionalLength r.value < 2 ^ 31

end Batch

/-! ## Batches one behind the other -/

/-- Lays the batches out one behind the other, each at the offset behind the one before. -/
def spread {α : Type} (piece : Batch → Nat → List α) : Nat → List Batch → List α
  | _, [] => []
  | base, b :: rest => piece b base ++ spread piece (base + b.records.length) rest

def span (batches : List Batch) : Nat := (batches.map fun b => b.records.length).sum

def layout : Nat → List Batch → Bytes := spread Batch.bytes

def storedFrom : Nat → List Batch → List StoredRecord := spread Batch.stored

def ValidFrom : Nat → List Batch → Prop
  | _, [] => True
  | base, b :: rest => b.Valid base ∧ ValidFrom (base + b.records.length) rest

section Spread

variable {α : Type} {piece : Batch → Nat → List α}

@[simp] theorem span_nil : span [] = 0 := rfl

@[simp] theorem span_cons (b : Batch) (rest : List Batch) :
    span (b :: rest) = b.records.length + span rest := rfl

@[simp] theorem span_append (left right : List Batch) :
    span (left ++ right) = span left + span right := by
  simp [span]

theorem spread_append (base : Nat) (left right : List Batch) :
    spread piece base (left ++ right) =
      spread piece base left ++ spread piece (base + span left) right := by
  induction left generalizing base with
  | nil => simp [spread]
  | cons b left ih =>
    rw [List.cons_append, spread, ih, spread, List.append_assoc, span_cons, Nat.add_assoc]

theorem validFrom_append (base : Nat) (left right : List Batch) :
    ValidFrom base (left ++ right) ↔ ValidFrom base left ∧ ValidFrom (base + span left) right := by
  induction left generalizing base with
  | nil => simp [ValidFrom]
  | cons b left ih =>
    rw [List.cons_append, ValidFrom, ih, ValidFrom, span_cons, Nat.add_assoc, and_assoc]

theorem ValidFrom.middle {base : Nat} {before after : List Batch} {b : Batch}
    (valid : ValidFrom base (before ++ b :: after)) : b.Valid (base + span before) :=
  ((validFrom_append base before (b :: after)).mp valid).2.1

theorem ValidFrom.filled {base : Nat} {batches : List Batch} (valid : ValidFrom base batches) :
    ∀ b ∈ batches, b.records ≠ [] := by
  induction batches generalizing base with
  | nil => simp
  | cons b batches ih => exact List.forall_mem_cons.mpr ⟨valid.1.someRecord, ih valid.2⟩

theorem ValidFrom.end_lt {base : Nat} {batches : List Batch} (start : base < 2 ^ 64)
    (valid : ValidFrom base batches) : base + span batches < 2 ^ 64 := by
  induction batches generalizing base with
  | nil => simpa using start
  | cons b batches ih =>
    have tail := ih valid.1.offsets valid.2
    rw [span_cons]
    omega

end Spread

/-! ## The bytes of a batch -/

section Bytes

variable {b : Batch} {base : Nat}

@[simp] theorem Batch.stored_length (b : Batch) (base : Nat) :
    (b.stored base).length = b.records.length := by
  simp [Batch.stored, stampRecords]

theorem Batch.stored_get {i : Nat} {r : Record} (found : b.records[i]? = some r) :
    (b.stored base)[i]? = some ⟨uint64 (base + i), b.time, r.key, r.value, r.headers⟩ := by
  simp [Batch.stored, stampRecords, found]

theorem Batch.mem_stored {r : StoredRecord} (member : r ∈ b.stored base) :
    ∃ i, i < b.records.length ∧ r.offset = uint64 (base + i) ∧ r.timestamp = b.time := by
  simp only [Batch.stored, stampRecords, List.mem_mapIdx] at member
  obtain ⟨i, inside, rfl⟩ := member
  exact ⟨i, inside, rfl, rfl⟩

theorem stamped_payload (base : Nat) (time : Int) (records : List Record) :
    (stampRecords base time records).map recordPayloadSize =
      records.map fun r => minimumRecordSize + optionalLength r.key + optionalLength r.value +
        (r.headers.map fun h => 8 + h.key.length + h.value.length).sum := by
  apply List.ext_getElem (by simp [stampRecords])
  intro i _ _
  simp [stampRecords, recordPayloadSize]

theorem encodeBatch_length {records : List StoredRecord} (nonempty : records ≠ []) :
    ∃ bytes, encodeBatch records = Option.some bytes ∧
      bytes.length = batchHeaderSize + (records.map recordPayloadSize).sum := by
  obtain ⟨first, rest, rfl⟩ := List.exists_cons_of_ne_nil nonempty
  refine ⟨_, rfl, ?_⟩
  rw [frameBatch_length, batchBody_length, batchHeaderSize]
  omega

/-- The encoder takes every batch, and its size does not depend on where it stands. -/
theorem Batch.encode_stored (base : Nat) (nonempty : b.records ≠ []) :
    encodeBatch (b.stored base) = Option.some (b.bytes base) ∧ (b.bytes base).length = b.size := by
  have stored : ∀ base, b.stored base ≠ [] := by
    intro base
    rw [← List.length_pos_iff, Batch.stored_length, List.length_pos_iff]
    exact nonempty
  obtain ⟨bytes, encoded, length⟩ := encodeBatch_length (stored base)
  obtain ⟨bytes', encoded', length'⟩ := encodeBatch_length (stored 0)
  rw [Batch.size, Batch.bytes, Batch.bytes, encoded, encoded', Option.getD_some, Option.getD_some,
    length, length', Batch.stored, Batch.stored, stamped_payload, stamped_payload]
  exact ⟨rfl, rfl⟩

theorem Batch.count_le (nonempty : b.records ≠ []) : 33 + 24 * b.records.length ≤ b.size := by
  have stored : b.stored 0 ≠ [] := by
    rw [← List.length_pos_iff, Batch.stored_length, List.length_pos_iff]
    exact nonempty
  obtain ⟨bytes, encoded, length⟩ := encodeBatch_length stored
  have enough := records_count_le 0 0 (b.stored 0)
  rw [encodeRecords_length, Batch.stored_length] at enough
  rw [Batch.size, Batch.bytes, encoded, Option.getD_some, length, batchHeaderSize]
  omega

theorem Batch.bytes_frame (placed : b.Placed base) : ∃ maxTimestamp,
    b.bytes base = frameBatch (b.size - 9) (batchBody base maxTimestamp (b.stored base)) ∧
      maxTimestamp = batchMaxTimestamp (b.stored base) ∧
      13 + (batchBody base maxTimestamp (b.stored base)).length = b.size ∧ 57 ≤ b.size := by
  cases b with
  | mk time records =>
    cases records with
    | nil => exact absurd rfl placed.someRecord
    | cons r rest =>
      have whole : ∀ base, Batch.stored ⟨time, r :: rest⟩ base =
          ⟨uint64 base, time, r.key, r.value, r.headers⟩ ::
            rest.mapIdx fun i r => ⟨uint64 (base + (i + 1)), time, r.key, r.value, r.headers⟩ := by
        intro base
        simp [Batch.stored, stampRecords, List.mapIdx_cons]
      have payload : ∀ base, ((Batch.stored ⟨time, r :: rest⟩ base).map recordPayloadSize).sum =
          ((Batch.stored ⟨time, r :: rest⟩ 0).map recordPayloadSize).sum := by
        intro base
        simp only [Batch.stored, stamped_payload]
      have positive : 24 ≤ ((Batch.stored ⟨time, r :: rest⟩ 0).map recordPayloadSize).sum := by
        simp only [whole, List.map_cons, List.sum_cons, recordPayloadSize, minimumRecordSize]
        omega
      have encoded : ∀ base, Batch.bytes ⟨time, r :: rest⟩ base =
          frameBatch (batchHeaderSize +
            ((Batch.stored ⟨time, r :: rest⟩ base).map recordPayloadSize).sum - 9)
            (batchBody (uint64 base) (batchMaxTimestamp (Batch.stored ⟨time, r :: rest⟩ base))
              (Batch.stored ⟨time, r :: rest⟩ base)) := by
        intro base
        simp only [Batch.bytes, whole, encodeBatch, Option.getD_some]
      have size : Batch.size ⟨time, r :: rest⟩ =
          batchHeaderSize + ((Batch.stored ⟨time, r :: rest⟩ 0).map recordPayloadSize).sum := by
        rw [Batch.size, encoded 0, frameBatch_length, batchBody_length, batchHeaderSize]
        omega
      refine ⟨_, ?_, rfl, ?_, ?_⟩
      · rw [encoded base, payload base, size, uint64_of_nat placed.start]
      · rw [batchBody_length, payload base, size, batchHeaderSize]
        omega
      · rw [size, batchHeaderSize]
        omega

theorem Batch.Valid.placed (valid : b.Valid base) : b.Placed base := by
  have offsets := valid.offsets
  exact ⟨valid.someRecord, valid.time, by omega⟩

theorem Batch.bytes_length (valid : b.Valid base) : (b.bytes base).length = b.size := by
  obtain ⟨_, frame, _, whole, _⟩ := b.bytes_frame valid.placed
  rw [frame, frameBatch_length, whole]

theorem Batch.size_ge (valid : b.Valid base) : 57 ≤ b.size := by
  obtain ⟨_, _, _, _, bound⟩ := b.bytes_frame valid.placed
  exact bound

theorem Batch.count_lt (valid : b.Valid base) : 24 * b.records.length < b.size := by
  have enough := b.count_le valid.someRecord
  omega

theorem Batch.largest_from (placed : b.Placed base) (start : Int) :
    (b.stored base).foldl (fun largest r => if largest < r.timestamp then r.timestamp else largest)
      start =
      max start b.time := by
  obtain ⟨first, rest, records⟩ := List.exists_cons_of_ne_nil placed.someRecord
  have stamped : ⟨uint64 (base + (0 : Nat)), b.time, first.key, first.value, first.headers⟩ ∈
      b.stored base := by
    apply List.mem_of_getElem? (i := 0)
    exact Batch.stored_get (by rw [records]; rfl)
  obtain ⟨above, bound, reached⟩ := batchMaxTimestamp_from (b.stored base) start
  have first := bound _ stamped
  rcases reached with same | ⟨r, member, equal⟩
  · dsimp only at first
    omega
  · obtain ⟨_, _, _, time⟩ := Batch.mem_stored member
    omega

theorem Batch.maxTimestamp_eq (placed : b.Placed base) :
    batchMaxTimestamp (b.stored base) = max 0 b.time :=
  b.largest_from placed 0

theorem Batch.Valid.fits (valid : b.Valid base) : b.size < 2 ^ 32 + 9 := by
  have small := valid.small
  omega

theorem Batch.payload_eq (placed : b.Placed base) :
    33 + ((b.stored base).map recordPayloadSize).sum = b.size := by
  obtain ⟨_, _, _, whole, _⟩ := b.bytes_frame placed
  rw [batchBody_length] at whole
  omega

/-- A batch below two gigabytes has no field that does not fit. -/
theorem Batch.Valid.exact (valid : b.Valid base) (readable : b.Readable) : b.Exact := by
  have small := valid.small
  refine ⟨readable, by omega, ?_⟩
  intro r member
  obtain ⟨i, inside, found⟩ := List.getElem_of_mem member
  have stored :=
    List.mem_of_getElem?
      (@Batch.stored_get b base i r (by rw [List.getElem?_eq_getElem inside, found]))
  have payload := optional_le_payload stored
  have whole := b.payload_eq valid.placed
  dsimp only at payload
  omega

theorem Batch.stored_fits (placed : b.Placed base) (precise : b.Exact) (r : StoredRecord)
    (member : r ∈ b.stored base) : Fits base (batchMaxTimestamp (b.stored base)) r := by
  have count := b.count_le placed.someRecord
  have small := precise.size
  have range := placed.time
  have start := placed.start
  have readable := precise.readable
  unfold Batch.Readable at readable
  rw [Batch.maxTimestamp_eq placed]
  simp only [Batch.stored, stampRecords, List.mem_mapIdx] at member
  obtain ⟨i, inside, rfl⟩ := member
  obtain ⟨key, value⟩ := precise.lengths _ (List.getElem_mem inside)
  have offset := uint64_lt (base + i)
  refine ⟨offset, ?_, range, ?_, key, value⟩
  · unfold uint64
    dsimp only
    omega
  · dsimp only
    rw [int64_of_range (by omega) (by omega)]
    omega

theorem decodeRecord_negative (baseOffset i : Nat) (maxTimestamp : Int) {total offset : Nat}
    {data offsetField deltaField : Bytes} (room : offset + minimumRecordSize ≤ total)
    (offsetSlice : slice data offset (offset + 4) = .ok offsetField)
    (deltaSlice : slice data (offset + 4) (offset + 4 + 8) = .ok deltaField)
    (negative : int64 (get deltaField) < 0) :
    decodeRecord baseOffset maxTimestamp i data total offset = .error .negativeTimestampDelta := by
  unfold decodeRecord
  rw [if_neg (by omega)]
  simp only [offsetSlice, deltaSlice, Bind.bind, Except.bind]
  rw [if_pos negative]

theorem Batch.records_end (placed : b.Placed base) :
    33 + ((b.stored base).flatMap (encodeRecord base (batchMaxTimestamp (b.stored base)))).length =
      b.size := by
  rw [encodeRecords_length]
  exact b.payload_eq placed

section Records

variable {data : Bytes} {total : Nat}

theorem Batch.records_readable (placed : b.Placed base) (precise : b.Exact)
    (recordsAt : Occurs data 33
      ((b.stored base).flatMap (encodeRecord base (batchMaxTimestamp (b.stored base)))))
    (inside : b.size ≤ total) (small : total < 2 ^ 32 + 33) :
    decodeRecords base (batchMaxTimestamp (b.stored base)) data total (b.stored base).length 0
      batchHeaderSize =
      .ok (b.stored base, b.size) := by
  have finish := b.records_end placed
  rw [batchHeaderSize,
    decodeRecords_occurs _ 0 33 (b.stored_fits placed precise) recordsAt (by omega) small, finish]

/-- The wrapped difference is negative: the decoder rejects the batch the encoder wrote. -/
theorem Batch.records_unreadable (valid : b.Valid base) (unreadable : ¬ b.Readable)
    (recordsAt : Occurs data 33
      ((b.stored base).flatMap (encodeRecord base (batchMaxTimestamp (b.stored base)))))
    (inside : 57 ≤ total) :
    decodeRecords base (batchMaxTimestamp (b.stored base)) data total (b.stored base).length 0
      batchHeaderSize =
      .error .negativeTimestampDelta := by
  have least : b.time = -2 ^ 63 := not_not.mp unreadable
  have top : batchMaxTimestamp (b.stored base) = 0 := by
    rw [Batch.maxTimestamp_eq valid.placed, least]
    rfl
  obtain ⟨first, rest, stored⟩ : ∃ first rest, b.stored base = first :: rest := by
    apply List.exists_cons_of_ne_nil
    rw [← List.length_pos_iff, Batch.stored_length, List.length_pos_iff]
    exact valid.someRecord
  have time : first.timestamp = -2 ^ 63 := by
    have member : first ∈ b.stored base := by
      rw [stored]
      exact List.mem_cons_self
    obtain ⟨_, _, _, same⟩ := Batch.mem_stored member
    rw [same, least]
  rw [top] at recordsAt ⊢
  rw [stored, List.flatMap_cons] at recordsAt
  have timestampAt := recordsAt.left_part.left_part.left_part.left_part.left_part.right_part
  have offsetAt := recordsAt.left_part.left_part.left_part.left_part.left_part.left_part
  rw [put_length] at timestampAt
  have negative : int64 (get (put 8 (uint64 (int64 (0 - first.timestamp)))) : Nat) < 0 := by
    rw [get_put_eight (uint64_lt _), int64_uint64, time]
    decide
  have rejected :=
    decodeRecord_negative base 0 0 (show 33 + minimumRecordSize ≤ total from inside)
      (slice_put offsetAt)
    (slice_put timestampAt) negative
  rw [stored, List.length_cons, decodeRecords, batchHeaderSize, rejected]
  rfl

end Records

theorem Batch.stored_ne_nil (placed : b.Placed base) : b.stored base ≠ [] := by
  rw [← List.length_pos_iff, Batch.stored_length, List.length_pos_iff]
  exact placed.someRecord

theorem Batch.decode_bytes (placed : b.Placed base) (small : b.size < 2 ^ 32 + 9) :
    decodeBatch (b.bytes base) = (do
      let (decoded, offset) ← decodeRecords base (batchMaxTimestamp (b.stored base))
        (b.bytes base) b.size (b.stored base).length 0 batchHeaderSize
      if offset ≠ b.size then .error .trailingBytes else .ok decoded) ∧
    Occurs (b.bytes base) 33
      ((b.stored base).flatMap (encodeRecord base (batchMaxTimestamp (b.stored base)))) := by
  obtain ⟨maxTimestamp, frame, largest, whole, bound⟩ := b.bytes_frame placed
  have range := placed.time
  have nonneg := batchMaxTimestamp_nonneg (b.stored base)
  have top := Batch.maxTimestamp_eq placed
  have remainder : minimumBatchRemainder = 24 := rfl
  have total : 9 + (b.size - 9) = b.size := by omega
  subst largest
  have bodyAt : Occurs (b.bytes base) 13
      (batchBody base (batchMaxTimestamp (b.stored base)) (b.stored base)) := by
    rw [frame, ← List.append_nil (frameBatch _ _)]
    exact frame_body
  refine ⟨?_, (body_header bodyAt).2.2.2⟩
  rw [frame, ← List.append_nil (frameBatch _ _), decodeBatch_frame (by omega) (by omega) (by omega),
    decodeBody_occurs frame_body (by omega) (by omega) (b.stored_ne_nil placed) placed.start
      ⟨by omega, by omega⟩, total]

theorem Batch.decode_exact (placed : b.Placed base) (precise : b.Exact) :
    decodeBatch (b.bytes base) = .ok (b.stored base) := by
  obtain ⟨decoded, recordsAt⟩ := b.decode_bytes placed precise.size
  have small := precise.size
  rw [decoded, b.records_readable placed precise recordsAt (le_refl _) (by omega)]
  simp only [Bind.bind, Except.bind]
  rw [if_neg (by simp)]

theorem Batch.decode_readable (valid : b.Valid base) (readable : b.Readable) :
    decodeBatch (b.bytes base) = .ok (b.stored base) :=
  b.decode_exact valid.placed (valid.exact readable)

theorem Batch.decode_unreadable (valid : b.Valid base) (unreadable : ¬ b.Readable) :
    decodeBatch (b.bytes base) = .error .negativeTimestampDelta := by
  obtain ⟨decoded, recordsAt⟩ := b.decode_bytes valid.placed valid.fits
  rw [decoded, b.records_unreadable valid unreadable recordsAt (b.size_ge valid)]
  rfl

/-- The length field keeps four bytes of the length, whatever it is. -/
theorem Batch.length_field_mod {count : Nat} (placed : b.Placed base) (enough : 9 ≤ count) :
    get ((((b.bytes base).take count).drop 5).take 4) = (b.size - 9) % 2 ^ 32 := by
  obtain ⟨_, frame, _, _, _⟩ := b.bytes_frame placed
  have lengthAt : Occurs (b.bytes base) 5 (put 4 (b.size - 9)) := by
    rw [frame, ← List.append_nil (frameBatch _ _)]
    exact frame_batchLength
  have field := lengthAt.extract_take count (by rw [put_length]; exact enough)
  rw [put_length] at field
  rw [field, get_put, show 256 ^ 4 = 2 ^ 32 by decide]

theorem Batch.length_field {count : Nat} (placed : b.Placed base) (small : b.size < 2 ^ 32 + 9)
    (enough : 9 ≤ count) :
    get ((((b.bytes base).take count).drop 5).take 4) = b.size - 9 := by
  rw [b.length_field_mod placed enough, Nat.mod_eq_of_lt (by omega)]

theorem Batch.prefix_fields (placed : b.Placed base) (small : b.size < 2 ^ 32 + 9) :
    ((b.bytes base).take 9).take 4 = magicBytes ∧
      (((b.bytes base).take 9).drop 4).take 1 = [formatVersion1] ∧
      get ((((b.bytes base).take 9).drop 5).take 4) = b.size - 9 := by
  obtain ⟨_, frame, _, _, _⟩ := b.bytes_frame placed
  refine ⟨?_, ?_, b.length_field placed small (le_refl 9)⟩ <;>
    rw [frame, ← List.append_nil (frameBatch _ _)]
  · rw [List.take_take, Nat.min_eq_left (by decide), frame_magic]
  · rw [List.drop_take, List.take_take, Nat.min_eq_left (by decide), frame_version]

theorem Batch.rest_fields (placed : b.Placed base) :
    get ((((b.bytes base).take 33).drop 13).take 8) = base ∧
      int64 (get ((((b.bytes base).take 33).drop 25).take 8) : Nat) = max 0 b.time := by
  obtain ⟨maxTimestamp, frame, largest, _, _⟩ := b.bytes_frame placed
  have range := placed.time
  have bodyAt : Occurs (b.bytes base) 13 (batchBody base maxTimestamp (b.stored base)) := by
    rw [frame, ← List.append_nil (frameBatch _ _)]
    exact frame_body
  have timestampAt := bodyAt.left_part.right_part
  have baseAt := bodyAt.left_part.left_part.left_part
  simp only [List.length_append, put_length, Nat.reduceAdd] at timestampAt
  have baseField := baseAt.extract_take 33 (by rw [put_length]; decide)
  have timestampField := timestampAt.extract_take 33 (by rw [put_length])
  rw [put_length] at baseField timestampField
  constructor
  · rw [baseField, get_put_eight placed.start]
  · rw [timestampField, get_put_eight (uint64_lt _), int64_uint64, largest,
      Batch.maxTimestamp_eq placed, int64_of_range (by omega) (by omega)]

theorem Batch.header_fields (placed : b.Placed base) (small : b.size < 2 ^ 32 + 9) :
    get ((((b.bytes base).take 33).drop 5).take 4) = b.size - 9 ∧
      get ((((b.bytes base).take 33).drop 13).take 8) = base ∧
      int64 (get ((((b.bytes base).take 33).drop 25).take 8) : Nat) = max 0 b.time :=
  ⟨b.length_field placed small (by decide), b.rest_fields placed⟩

end Bytes

end MessageBroker.Storage
