import MessageBroker.Configuration
import MessageBroker.Lib.Proto
import MessageBroker.Offsets.Store
import MessageBroker.Topics.Manager

namespace MessageBroker.Broker

open Faulty Program Storage Topics
open MessageBroker.Configuration (StorageConfig)

inductive Code where
  | invalidArgument
  | notFound
  | resourceExhausted
  | outOfRange
  | unavailable
  | internal
  deriving DecidableEq, Repr

/-- A partition that could not be resolved is missing, or something went wrong. -/
def resolveCode : TopicError → Code
  | .topicNotFound => .notFound
  | .partitionNotFound => .notFound
  | _ => .internal

def resolveText : TopicError → String
  | .topicNotFound => "topic or partition not found: topic not found"
  | .partitionNotFound => "topic or partition not found: partition not found"
  | _ => "failed to resolve partition"

/-! ## Produce -/

structure ProduceResponse where
  baseOffset : Nat
  lastOffset : Nat
  recordCount : Nat
  deriving DecidableEq, Repr

inductive ProduceError where
  | emptyBatch
  | notResolved (reason : TopicError)
  | recordTooLarge (i size : Nat) (maxRecordBytes : Int)
  | batchTooLarge
  | appendFailed (reason : TopicError)
  deriving Repr

def ProduceError.code : ProduceError → Code
  | .emptyBatch => .invalidArgument
  | .notResolved reason => resolveCode reason
  | .recordTooLarge _ _ _ => .resourceExhausted
  | .batchTooLarge => .resourceExhausted
  | .appendFailed _ => .internal

/-- The texts, up to the error that the last one wraps. -/
def ProduceError.text : ProduceError → String
  | .emptyBatch => "cannot produce empty record batch"
  | .notResolved reason => resolveText reason
  | .recordTooLarge i size maxRecordBytes =>
    s!"record {i} payload size ({size}) exceeds max_record_bytes ({maxRecordBytes})"
  | .batchTooLarge => "batch payload exceeds maxBatchBytes"
  | .appendFailed _ => "failed to append records to log"

def recordPayloadSize (r : Record) : Nat :=
  optionalLength r.key + optionalLength r.value +
    (r.headers.map fun h => h.key.length + h.value.length).sum

def checkRecords (maxRecordBytes : Int) : (i : Nat) → List Record → Except ProduceError Unit
  | _, [] => .ok ()
  | i, r :: rest =>
    if maxRecordBytes < recordPayloadSize r then
      .error (.recordTooLarge i (recordPayloadSize r) maxRecordBytes)
    else checkRecords maxRecordBytes (i + 1) rest

def appendError : TopicError → ProduceError
  | .storage .batchTooLarge => .batchTooLarge
  | reason => .appendFailed reason

def produce (cfg : StorageConfig) (now : Instant) (topic : Bytes) (partition : Nat)
    (records : List Record) :
    Program Manager Tree ProduceError ProduceResponse :=
  if records = [] then throw .emptyBatch
  else do
    let m ← memory
    match m.getPartition topic partition with
    | .error reason => throw (.notResolved reason)
    | .ok _ =>
      match checkRecords cfg.maxRecordBytes 0 records with
      | .error reason => throw reason
      | .ok () => do
        let (baseOffset,
          lastOffset) ← mapError appendError (onStore topic partition (append now records))
        pure ⟨baseOffset, lastOffset, records.length % 2 ^ 32⟩

/-! ## Fetch -/

structure FetchResponse where
  records : List StoredRecord
  earliestOffset : Nat
  logEndOffset : Nat
  deriving DecidableEq, Repr

inductive FetchError where
  | zeroMaxBytes
  | notResolved (reason : TopicError)
  | offsetOutOfRange (offset : Nat)
  | readFailed (reason : TopicError)
  deriving Repr

def FetchError.code : FetchError → Code
  | .zeroMaxBytes => .invalidArgument
  | .notResolved reason => resolveCode reason
  | .offsetOutOfRange _ => .outOfRange
  | .readFailed _ => .internal

def FetchError.text : FetchError → String
  | .zeroMaxBytes => "max_bytes must be greater than zero"
  | .notResolved reason => resolveText reason
  | .offsetOutOfRange offset => s!"requested offset {offset} is out of range for partition"
  | .readFailed _ => "failed to read records"

def readError (offset : Nat) : TopicError → FetchError
  | .storage .offsetOutOfRange => .offsetOutOfRange offset
  | reason => .readFailed reason

/-- Resolves the partition and reads its records. -/
def readRecords (topic : Bytes) (partition offset maxBytes : Nat) :
    Program Manager Tree FetchError (List StoredRecord) :=
  if maxBytes = 0 then throw .zeroMaxBytes
  else do
    let m ← memory
    match m.getPartition topic partition with
    | .error reason => throw (.notResolved reason)
    | .ok _ => mapError (readError offset) (onStore topic partition (read offset maxBytes))

/-- A request that no other one comes between: the offsets are read behind the records. -/
def fetch (topic : Bytes) (partition offset maxBytes : Nat) :
    Program Manager Tree FetchError FetchResponse := do
  let stored ← readRecords topic partition offset maxBytes
  let m ← memory
  match m.getPartition topic partition with
  | .error reason => throw (.notResolved reason)
  | .ok s => pure ⟨stored, s.earliestOffset, s.logEndOffset⟩

structure FetchRequest where
  topic : Bytes
  partition : UInt32
  offset : UInt64
  maxBytes : UInt32
  deriving DecidableEq, Repr

/-- `Read`, `EarliestOffset` and `LogEndOffset` lock the store one after the other; between them
    other handlers run. -/
inductive FetchStage where
  | read (stored : List StoredRecord)
  | readEarliest (stored : List StoredRecord) (earliest : Nat)
  deriving DecidableEq, Repr

/-- The two reads of offsets behind the records. -/
def readOffsets (s : Store) : FetchStage → FetchStage ⊕ FetchResponse
  | .read stored => .inl (.readEarliest stored s.earliestOffset)
  | .readEarliest stored earliest => .inr ⟨stored, earliest, s.logEndOffset⟩

/-! ## CommitOffset -/

structure CommitRequest where
  consumerGroup : Bytes
  topic : Bytes
  partition : UInt32
  nextOffset : UInt64
  deriving DecidableEq, Repr

def CommitRequest.key (req : CommitRequest) :
    Offsets.Key := ⟨req.consumerGroup, req.topic, req.partition⟩

inductive CommitError where
  | emptyGroup
  | notResolved (reason : TopicError)
  | outOfRange (nextOffset earliest final : Nat)
  | storeUnavailable (reason : Offsets.OffsetError)
  | invalidArgument (reason : Offsets.OffsetError)
  | commitFailed (reason : Offsets.OffsetError)
  deriving Repr

def CommitError.code : CommitError → Code
  | .emptyGroup => .invalidArgument
  | .notResolved reason => resolveCode reason
  | .outOfRange _ _ _ => .outOfRange
  | .storeUnavailable _ => .unavailable
  | .invalidArgument _ => .invalidArgument
  | .commitFailed _ => .internal

def CommitError.text : CommitError → String
  | .emptyGroup => "consumer_group cannot be empty"
  | .notResolved reason => resolveText reason
  | .outOfRange nextOffset earliest final =>
    s!"committed offset {nextOffset} is out of range [{earliest}, {final}]"
  | .storeUnavailable _ => "offset store is currently unavailable"
  | .invalidArgument _ => "invalid argument for commit"
  | .commitFailed _ => "failed to commit offset"

def commitError : Offsets.OffsetError → CommitError
  | .storeUnavailable => .storeUnavailable .storeUnavailable
  | .storeClosed => .storeUnavailable .storeClosed
  | .invalidGroup => .invalidArgument .invalidGroup
  | .invalidTopic => .invalidArgument .invalidTopic
  | reason => .commitFailed reason

/-- The handler locks the partition's store and the offset store one after the other; between these
    steps other handlers run. -/
inductive CommitStage where
  | resolved
  | readEarliest (earliest : Nat)
  | checked
  deriving DecidableEq, Repr

def resolveCommit (req : CommitRequest) (m : Manager) : Except CommitError CommitStage :=
  if req.consumerGroup = [] then .error .emptyGroup
  else
    match m.getPartition req.topic req.partition.toNat with
    | .error reason => .error (.notResolved reason)
    | .ok _ => .ok .resolved

/-- The two reads, and the check of the boundaries behind the second. -/
def validateCommit (req : CommitRequest) (s : Store) : CommitStage → Except CommitError CommitStage
  | .resolved => .ok (.readEarliest s.earliestOffset)
  | .readEarliest earliest =>
    if req.nextOffset.toNat < earliest ∨ s.logEndOffset < req.nextOffset.toNat then
      .error (.outOfRange req.nextOffset.toNat earliest s.logEndOffset)
    else .ok .checked
  | .checked => .ok .checked

/-! ## The response on the wire -/

open Proto

def headerSize (h : Header) : Nat := bytesField h.key.length + bytesField h.value.length

def storedRecordSize (r : StoredRecord) : Nat :=
  scalarField r.offset + scalarField (uint64 r.timestamp) + bytesField (optionalLength r.key) +
    bytesField (optionalLength r.value) + (r.headers.map fun h => messageField (headerSize h)).sum

def recordsSize (records : List StoredRecord) : Nat :=
  (records.map fun r => messageField (storedRecordSize r)).sum

def FetchResponse.wireSize (response : FetchResponse) : Nat :=
  recordsSize response.records + scalarField response.earliestOffset +
    scalarField response.logEndOffset

/-- What the server is told it may send. -/
def maxMsgSize (cfg : StorageConfig) : Int := cfg.maxBatchBytes + 65536

end MessageBroker.Broker
