import MessageBroker.Lib.BinarySearch
import MessageBroker.Storage.Segment

namespace MessageBroker.Storage

open Faulty Program BigEndian

/-- Any mode but `sync` is acknowledged without a flush. -/
inductive FlushMode where
  | sync
  | async
  deriving DecidableEq, Repr

structure Config where
  segmentMaxBytes : Int
  maxBatchBytes : Int
  indexIntervalBytes : Int
  flushMode : FlushMode
  deriving DecidableEq, Repr

/-- `activeSegment` stands for the pointer of the source: the active segment's place in
    `segments`. -/
structure Store where
  config : Config
  closed : Bool
  writeFailed : Bool
  segments : List Segment
  activeSegment : Nat
  logEndOffset : Nat
  earliestOffset : Nat
  deriving DecidableEq, Repr

def Store.active (s : Store) : Segment := s.segments.getD s.activeSegment default

def Store.setActive (s : Store) (seg : Segment) : Store :=
  { s with segments := s.segments.set s.activeSegment seg }

abbrev StoreProgram := Program Store Directory StoreError

/-! ## Append -/

def stampRecords (base : Nat) (timestamp : Int) (records : List Record) : List StoredRecord :=
  records.mapIdx fun i r => ⟨uint64 (base + i), timestamp, r.key, r.value, r.headers⟩

def poison : StoreProgram Unit := modify fun s => { s with writeFailed := true }

def flushActive : StoreProgram Unit := do
  let s ← memory
  let seg ← s.active.flush
  modify fun s => s.setActive seg

def rollSegment (batchSize : Nat) : StoreProgram Unit := do
  let s ← memory
  if 0 < s.active.size ∧ s.config.segmentMaxBytes < s.active.size + batchSize then do
    onError flushActive poison
    modify fun s => s.setActive { s.active with active := false }
    let newSeg ← onError (newSegment s.logEndOffset true) poison
    modify fun s =>
      { s with segments := s.segments ++ [newSeg], activeSegment := s.segments.length }
  else pure ()

def indexBatch (relative position : Nat) : StoreProgram Unit := do
  let s ← memory
  if s.active.indexEntries = [] ∨
    s.config.indexIntervalBytes ≤ position - s.active.lastIndexedPosition then do
    let seg ← s.active.appendIndexEntry ⟨relative, position⟩
    modify fun s => s.setActive seg
  else pure ()

def Store.advance (s : Store) (seg : Segment) (base count : Nat) (timestamp : Int) : Store :=
  let last := uint64 (base + count - 1)
  let logEndOffset := uint64 (last + 1)
  { s.setActive { seg with
      maxTimestamp := if seg.maxTimestamp < timestamp then timestamp else seg.maxTimestamp
      nextOffset := logEndOffset } with logEndOffset }

/-- Writes the batch to the active segment, which a rollover may just have replaced. -/
def writeEncoded (base count : Nat) (timestamp : Int) (encoded : Bytes) :
    StoreProgram (Nat × Nat) := do
  let s ← memory
  let relative := uint64 (base - s.active.baseOffset)
  if maxUint32 < relative then do
    poison
    throw .indexOffsetOverflow
  else do
    let (seg, position) ← onError (s.active.append encoded) poison
    modify fun s => s.advance seg base count timestamp
    indexBatch relative position
    if s.config.flushMode = .sync then onError flushActive poison else pure ()
    pure (base, uint64 (base + count - 1))

def appendEncoded (base count : Nat) (timestamp : Int) (encoded : Bytes) :
    StoreProgram (Nat × Nat) := do
  rollSegment encoded.length
  writeEncoded base count timestamp encoded

def append (now : Instant) (records : List Record) : StoreProgram (Nat × Nat) :=
  if records = [] then throw .emptyBatch
  else do
    let s ← memory
    if s.closed then throw .storeClosed
    else if s.writeFailed then throw .storeCorrupt
    else
      let timestamp := unixMilli now
      match encodeBatch (stampRecords s.logEndOffset timestamp records) with
      | none => throw .emptyBatch
      | some encoded =>
        if s.config.maxBatchBytes < encoded.length then throw .batchTooLarge
        else appendEncoded s.logEndOffset records.length timestamp encoded

/-! ## Read -/

def recordSize (r : StoredRecord) : Nat :=
  optionalLength r.key + optionalLength r.value +
    (r.headers.map fun h => h.key.length + h.value.length).sum + 16

structure ReadCursor where
  result : List StoredRecord
  accumulatedBytes : Nat
  currOffset : Nat
  deriving DecidableEq, Repr

/-- Takes the batch's records from the cursor's offset on; `true` when the byte limit ended the
    read. -/
def takeRecords (maxBytes : Int) : List StoredRecord → ReadCursor → ReadCursor × Bool
  | [], cursor => (cursor, false)
  | r :: rest, cursor =>
    if r.offset < cursor.currOffset then takeRecords maxBytes rest cursor
    else if cursor.result ≠ [] ∧ maxBytes < cursor.accumulatedBytes + recordSize r then (cursor,
      true)
    else takeRecords maxBytes rest
      ⟨cursor.result ++ [r], cursor.accumulatedBytes + recordSize r, uint64 (r.offset + 1)⟩

section Read

variable {μ : Type}

/-- A panic of the decoder is the end of the process. -/
def decoded (position : Nat) (data : Bytes) : Program μ Directory StoreError (List StoredRecord) :=
  match decodeBatch data with
  | .ok records => pure records
  | .error .panic => die
  | .error reason => throw (.decodeAt position reason)

def readBatches (maxBytes : Int) (seg : Segment) (startPos : Nat) (cursor : ReadCursor) :
    Program μ Directory StoreError (ReadCursor × Bool) :=
  if _inside : startPos < seg.size then
    if seg.size < startPos + 9 then throw (.truncatedHeader startPos)
    else do
      let prefixBuf ← seg.readAt startPos 9
      let totalBatchSize := 9 + get ((prefixBuf.drop 5).take 4)
      if seg.size < startPos + totalBatchSize then throw (.truncatedPayload startPos)
      else do
        let batchBuf ← seg.readAt startPos totalBatchSize
        let records ← decoded startPos batchBuf
        match takeRecords maxBytes records cursor with
        | (cursor, true) => pure (cursor, true)
        | (cursor, false) => readBatches maxBytes seg (startPos + totalBatchSize) cursor
  else pure (cursor, false)
termination_by seg.size - startPos

def Segment.startPosition (seg : Segment) (offset : Nat) : Nat :=
  let idx := BinarySearch.search seg.indexEntries.length fun j =>
    decide (offset < uint64 (seg.baseOffset + (seg.indexEntries.getD j ⟨0, 0⟩).relativeOffset))
  if 0 < idx then (seg.indexEntries.getD (idx - 1) ⟨0, 0⟩).position else 0

def readSegments (maxBytes : Int) :
    List Segment → ReadCursor → Program μ Directory StoreError (List StoredRecord)
  | [], cursor => pure cursor.result
  | seg :: rest, cursor => do
    match ← readBatches maxBytes seg (seg.startPosition cursor.currOffset) cursor with
    | (cursor, true) => pure cursor.result
    | (cursor, false) => readSegments maxBytes rest cursor

end Read

def read (offset : Nat) (maxBytes : Int) : StoreProgram (List StoredRecord) :=
  if maxBytes ≤ 0 then throw (.maxBytesNotPositive maxBytes)
  else do
    let s ← memory
    if s.closed then throw .storeClosed
    else if s.writeFailed then throw .storeCorrupt
    else if offset < s.earliestOffset ∨ s.logEndOffset < offset then throw .offsetOutOfRange
    else if offset = s.logEndOffset then pure []
    else
      let segIdx := BinarySearch.search s.segments.length fun i =>
        decide (offset < (s.segments.getD i default).nextOffset)
      if s.segments.length ≤ segIdx then throw .offsetOutOfRange
      else readSegments maxBytes (s.segments.drop segIdx) ⟨[], 0, offset⟩

/-! ## Close -/

def closeSegments : List Segment → StoreProgram (List Operation)
  | [] => pure []
  | seg :: rest => do
    let result ← attempt seg.close
    let failed ← closeSegments rest
    pure (failures [(.close, result)] ++ failed)

def closeStore : StoreProgram Unit := do
  let s ← memory
  if s.closed then pure ()
  else do
    modify fun s => { s with closed := true }
    let flushed ← attempt flushActive
    let s ← memory
    let failed ← closeSegments s.segments
    modify fun s =>
      { s with segments := s.segments.map fun seg => { seg with handlesClosed := true } }
    match failures [(.sync, flushed)] ++ failed with
    | [] => pure ()
    | failed => throw (.closing failed)

end MessageBroker.Storage
