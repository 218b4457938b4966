import MessageBroker.Lib.Crc32
import MessageBroker.Model

namespace MessageBroker.Storage

open BigEndian Crc32

def magicSize : Nat := 4
def versionSize : Nat := 1
def batchLengthSize : Nat := 4
def baseOffsetSize : Nat := 8
def recordCountSize : Nat := 4
def maxTimestampSize : Nat := 8
def batchHeaderSize : Nat := 33
def minimumBatchRemainder : Nat := batchHeaderSize - magicSize - versionSize - batchLengthSize
def minimumRecordSize : Nat := 24

/-- "PGLG". -/
def magicBytes : Bytes := [0x50, 0x47, 0x4C, 0x47]
def formatVersion1 : UInt8 := 1

/-! ## Encoding -/

/-- The largest timestamp of the batch, and at least zero: the source starts from an unset
    variable. -/
def batchMaxTimestamp (records : List StoredRecord) : Int :=
  records.foldl (fun largest r => if largest < r.timestamp then r.timestamp else largest) 0

def optionalLength : Option Bytes → Nat
  | none => 0
  | some bytes => bytes.length

def recordPayloadSize (r : StoredRecord) : Nat :=
  minimumRecordSize + optionalLength r.key + optionalLength r.value +
    (r.headers.map fun h => 8 + h.key.length + h.value.length).sum

def encodeOptional : Option Bytes → Bytes
  | none => put 4 0xFFFFFFFF
  | some bytes => put 4 bytes.length ++ bytes

def encodeHeader (h : Header) : Bytes :=
  put 4 h.key.length ++ h.key ++ put 4 h.value.length ++ h.value

/-- Both deltas are taken in the machine's wrapping arithmetic. -/
def encodeRecord (baseOffset : Nat) (maxTimestamp : Int) (r : StoredRecord) : Bytes :=
  put 4 (uint64 (r.offset - baseOffset)) ++ put 8 (uint64 (int64 (maxTimestamp - r.timestamp))) ++
    encodeOptional r.key ++ encodeOptional r.value ++
    put 4 r.headers.length ++ r.headers.flatMap encodeHeader

def batchBody (baseOffset : Nat) (maxTimestamp : Int) (records : List StoredRecord) : Bytes :=
  put 8 baseOffset ++ put 4 records.length ++ put 8 (uint64 maxTimestamp) ++
    records.flatMap (encodeRecord baseOffset maxTimestamp)

def frameBatch (batchLength : Nat) (body : Bytes) : Bytes :=
  magicBytes ++ [formatVersion1] ++ put 4 batchLength ++ put 4 (checksumIEEE body) ++ body

def encodeBatch : List StoredRecord → Option Bytes
  | [] => none
  | first :: rest =>
    let records := first :: rest
    let totalSize := batchHeaderSize + (records.map recordPayloadSize).sum
    some (frameBatch (totalSize - 9) (batchBody first.offset (batchMaxTimestamp records) records))

/-! ## Decoding -/

/-- `panic` is not an error the source returns: it is Go's own stop on a slice out of range. -/
inductive DecodeError where
  | shorterThanHeader (size : Nat)
  | malformedMagic
  | unsupportedVersion
  | batchLengthTooSmall (batchLength : Nat)
  | expectedAtLeast (total size : Nat)
  | checksumMismatch
  | impossibleRecordCount (count : Nat)
  | recordOutOfBounds (i : Nat)
  | negativeTimestampDelta
  | keyOverflow (i : Nat)
  | invalidKeyLength (length : Int) (i : Nat)
  | valueOverflow (i : Nat)
  | invalidValueLength (length : Int) (i : Nat)
  | impossibleHeaderCount (count : Nat)
  | headerOutOfBounds (i j : Nat)
  | headerKeyOverflow (i j : Nat)
  | headerValueOverflow (i j : Nat)
  | trailingBytes
  | panic
  deriving DecidableEq, Repr

def corruptBatchText : String := "corrupt batch: verification failed"

def DecodeError.text : DecodeError → String
  | .shorterThanHeader size =>
    s!"{corruptBatchText}: byte size {size} smaller than BatchHeaderSize {batchHeaderSize}"
  | .malformedMagic => "malformed magic bytes"
  | .unsupportedVersion => "unsupported format version"
  | .batchLengthTooSmall batchLength => s!"{corruptBatchText}: batch length {batchLength} too small"
  | .expectedAtLeast total size =>
    s!"{corruptBatchText}: expected at least {total} bytes, got {size}"
  | .checksumMismatch => corruptBatchText
  | .impossibleRecordCount count =>
    s!"{corruptBatchText}: record count {count} is impossible for batch size"
  | .recordOutOfBounds i => s!"{corruptBatchText}: out of bounds reading record {i} metadata"
  | .negativeTimestampDelta => s!"{corruptBatchText}: negative timestamp delta not allowed"
  | .keyOverflow i => s!"{corruptBatchText}: key overflow on record {i}"
  | .invalidKeyLength length i => s!"{corruptBatchText}: invalid key length {length} on record {i}"
  | .valueOverflow i => s!"{corruptBatchText}: value overflow on record {i}"
  | .invalidValueLength length i =>
    s!"{corruptBatchText}: invalid value length {length} on record {i}"
  | .impossibleHeaderCount count =>
    s!"{corruptBatchText}: header count {count} exceeds remainder size"
  | .headerOutOfBounds i j =>
    s!"{corruptBatchText}: header boundaries overflow on record {i} header {j}"
  | .headerKeyOverflow i j => s!"{corruptBatchText}: header key overflow on record {i} header {j}"
  | .headerValueOverflow i j =>
    s!"{corruptBatchText}: header value overflow on record {i} header {j}"
  | .trailingBytes => s!"{corruptBatchText}: trailing unexpected bytes inside batch"
  | .panic => "runtime error: slice bounds out of range"

/-- The slice expression `data[low:high]`. -/
def slice (data : Bytes) (low high : Nat) : Except DecodeError Bytes :=
  if low ≤ high ∧ high ≤ data.length then .ok ((data.drop low).take (high - low)) else .error .panic

def decodeSized (overflow : DecodeError) (invalid : Int → DecodeError) (data : Bytes)
    (total offset : Nat) (length : Int) : Except DecodeError (Option Bytes × Nat) :=
  if 0 < length then
    if total < offset + length.toNat then .error overflow
    else do
      let bytes ← slice data offset (offset + length.toNat)
      .ok (some bytes, offset + length.toNat)
  else if length = 0 then .ok (some [], offset)
  else if length < -1 then .error (invalid length)
  else .ok (none, offset)

def decodeOptional (overflow : DecodeError) (invalid : Int → DecodeError) (data : Bytes)
    (total offset : Nat) :
    Except DecodeError (Option Bytes × Nat) := do
  let length ← slice data offset (offset + 4)
  decodeSized overflow invalid data total (offset + 4) (int32 (get length))

def decodeKey (i : Nat) := decodeOptional (.keyOverflow i) (.invalidKeyLength · i)
def decodeValue (i : Nat) := decodeOptional (.valueOverflow i) (.invalidValueLength · i)

def decodeHeader (i j : Nat) (data : Bytes) (total offset : Nat) :
    Except DecodeError (Header × Nat) :=
  if total < offset + 8 then .error (.headerOutOfBounds i j)
  else do
    let keyLength := get (← slice data offset (offset + 4))
    let offset := offset + 4
    if total < offset + keyLength then .error (.headerKeyOverflow i j)
    else do
      let key ← slice data offset (offset + keyLength)
      let offset := offset + keyLength
      let valueLength := get (← slice data offset (offset + 4))
      let offset := offset + 4
      if total < offset + valueLength then .error (.headerValueOverflow i j)
      else do
        let value ← slice data offset (offset + valueLength)
        .ok (⟨key, value⟩, offset + valueLength)

def decodeHeaders (i : Nat) (data : Bytes) (total : Nat) :
    (remaining j offset : Nat) → Except DecodeError (List Header × Nat)
  | 0, _, offset => .ok ([], offset)
  | remaining + 1, j, offset => do
    let (header, offset) ← decodeHeader i j data total offset
    let (headers, offset) ← decodeHeaders i data total remaining (j + 1) offset
    .ok (header :: headers, offset)

def decodeRecord (baseOffset : Nat) (maxTimestamp : Int) (i : Nat) (data : Bytes)
    (total offset : Nat) :
    Except DecodeError (StoredRecord × Nat) :=
  if total < offset + minimumRecordSize then .error (.recordOutOfBounds i)
  else do
    let offsetDelta := get (← slice data offset (offset + 4))
    let offset := offset + 4
    let timestampDelta := int64 (get (← slice data offset (offset + 8)))
    if timestampDelta < 0 then .error .negativeTimestampDelta
    else do
      let offset := offset + 8
      let (key, offset) ← decodeKey i data total offset
      let (value, offset) ← decodeValue i data total offset
      let headerCount := get (← slice data offset (offset + 4))
      let offset := offset + 4
      -- the quotient is negative when the value ended past the batch; its conversion then wraps
      if uint32 (Int.tdiv (total - offset) 8) < headerCount then
        .error (.impossibleHeaderCount headerCount)
      else do
        let (headers, offset) ← decodeHeaders i data total headerCount 0 offset
        .ok (⟨uint64 (baseOffset + offsetDelta), int64 (maxTimestamp - timestampDelta), key, value,
          headers⟩, offset)

def decodeRecords (baseOffset : Nat) (maxTimestamp : Int) (data : Bytes) (total : Nat) :
    (remaining i offset : Nat) → Except DecodeError (List StoredRecord × Nat)
  | 0, _, offset => .ok ([], offset)
  | remaining + 1, i, offset => do
    let (r, offset) ← decodeRecord baseOffset maxTimestamp i data total offset
    let (records, offset) ← decodeRecords baseOffset maxTimestamp data total remaining
      (i + 1) offset
    .ok (r :: records, offset)

def decodeBody (batchLength : Nat) (data : Bytes) : Except DecodeError (List StoredRecord) := do
  let total := 9 + batchLength
  let baseOffset := get (← slice data 13 21)
  let recordCount := get (← slice data 21 25)
  let maxTimestamp := int64 (get (← slice data 25 33))
  let remainderBytes := batchLength - (baseOffsetSize + recordCountSize + maxTimestampSize)
  if remainderBytes / minimumRecordSize % 2 ^ 32 < recordCount then
    .error (.impossibleRecordCount recordCount)
  else if recordCount = 0 then .ok []
  else do
    let (records, offset)
      ← decodeRecords baseOffset maxTimestamp data total recordCount 0 batchHeaderSize
    if offset ≠ total then .error .trailingBytes else .ok records

def decodeBatch (data : Bytes) : Except DecodeError (List StoredRecord) :=
  if data.length < batchHeaderSize then .error (.shorterThanHeader data.length)
  else if data.take 4 ≠ magicBytes then .error .malformedMagic
  else if (data.drop 4).take 1 ≠ [formatVersion1] then .error .unsupportedVersion
  else do
    let batchLength := get (← slice data 5 9)
    if batchLength < minimumBatchRemainder then .error (.batchLengthTooSmall batchLength)
    else if data.length < 9 + batchLength then
      .error (.expectedAtLeast (9 + batchLength) data.length)
    else do
      let expectedChecksum := get (← slice data 9 13)
      let covered ← slice data 13 (9 + batchLength)
      if expectedChecksum ≠ checksumIEEE covered then .error .checksumMismatch
      else decodeBody batchLength data

end MessageBroker.Storage
