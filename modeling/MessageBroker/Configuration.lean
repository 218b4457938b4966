import MessageBroker.Storage.Store

namespace MessageBroker.Configuration

open Storage (FlushMode)

/-- The storage section as the YAML file and the environment give it. `int` and `int64` are 64 bits
    wide. -/
structure StorageConfig where
  dataDirectory : String
  maxRecordBytes : Int
  maxBatchBytes : Int
  segmentMaxBytes : Int
  indexIntervalBytes : Int
  flushMode : String
  deriving DecidableEq, Repr

def defaultStorage : StorageConfig := ⟨"./data", 1048576, 5242880, 134217728, 4096, "sync"⟩

inductive ConfigError where
  | emptyDataDirectory
  | maxRecordBytesNotPositive (got : Int)
  | maxBatchBytesBelowRecord (maxBatchBytes maxRecordBytes : Int)
  | segmentMaxBytesNotPositive (got : Int)
  | segmentMaxBytesBelowBatch (segmentMaxBytes maxBatchBytes : Int)
  | indexIntervalBytesNotPositive (got : Int)
  | indexIntervalBytesAboveSegment (indexIntervalBytes segmentMaxBytes : Int)
  | invalidFlushMode (mode : String)
  deriving DecidableEq, Repr

def ConfigError.message : ConfigError → String
  | .emptyDataDirectory => "storage.data_directory cannot be empty"
  | .maxRecordBytesNotPositive got => s!"storage.max_record_bytes must be positive, got {got}"
  | .maxBatchBytesBelowRecord maxBatchBytes maxRecordBytes =>
    s!"storage.max_batch_bytes ({maxBatchBytes}) cannot be less than storage.max_record_bytes ({maxRecordBytes})"
  | .segmentMaxBytesNotPositive got => s!"storage.segment_max_bytes must be positive, got {got}"
  | .segmentMaxBytesBelowBatch segmentMaxBytes maxBatchBytes =>
    s!"storage.segment_max_bytes ({segmentMaxBytes}) cannot be less than storage.max_batch_bytes ({maxBatchBytes})"
  | .indexIntervalBytesNotPositive got =>
    s!"storage.index_interval_bytes must be positive, got {got}"
  | .indexIntervalBytesAboveSegment indexIntervalBytes segmentMaxBytes =>
    s!"storage.index_interval_bytes ({indexIntervalBytes}) cannot be greater than storage.segment_max_bytes ({segmentMaxBytes})"
  | .invalidFlushMode mode => s!"invalid storage.flush_mode {mode.quote} (must be sync, async)"

/-- The modes after `strings.ToLower`. No letter outside ASCII becomes one of theirs. -/
def parseFlushMode (mode : String) : Option FlushMode :=
  if mode.toLower = "sync" then some .sync
  else if mode.toLower = "async" then some .async
  else none

/-- The storage checks of `Load`, in its order, and what the topic manager is given behind them. -/
def loadStorage (cfg : StorageConfig) : Except ConfigError Storage.Config :=
  if cfg.dataDirectory = "" then .error .emptyDataDirectory
  else if cfg.maxRecordBytes ≤ 0 then .error (.maxRecordBytesNotPositive cfg.maxRecordBytes)
  else if cfg.maxBatchBytes < cfg.maxRecordBytes then
    .error (.maxBatchBytesBelowRecord cfg.maxBatchBytes cfg.maxRecordBytes)
  else if cfg.segmentMaxBytes ≤ 0 then .error (.segmentMaxBytesNotPositive cfg.segmentMaxBytes)
  else if cfg.segmentMaxBytes < cfg.maxBatchBytes then
    .error (.segmentMaxBytesBelowBatch cfg.segmentMaxBytes cfg.maxBatchBytes)
  else if cfg.indexIntervalBytes ≤ 0 then
    .error (.indexIntervalBytesNotPositive cfg.indexIntervalBytes)
  else if cfg.segmentMaxBytes < cfg.indexIntervalBytes then
    .error (.indexIntervalBytesAboveSegment cfg.indexIntervalBytes cfg.segmentMaxBytes)
  else
    match parseFlushMode cfg.flushMode with
    | none => .error (.invalidFlushMode cfg.flushMode)
    | some mode => .ok ⟨cfg.segmentMaxBytes, cfg.maxBatchBytes, cfg.indexIntervalBytes, mode⟩

theorem loadStorage_ok {cfg : StorageConfig} {config : Storage.Config}
    (loaded : loadStorage cfg = .ok config) :
    config.segmentMaxBytes = cfg.segmentMaxBytes ∧ config.maxBatchBytes = cfg.maxBatchBytes ∧
      0 < cfg.maxRecordBytes ∧ cfg.maxRecordBytes ≤ cfg.maxBatchBytes ∧
      cfg.maxBatchBytes ≤ cfg.segmentMaxBytes ∧
      0 < config.indexIntervalBytes ∧ config.indexIntervalBytes ≤ cfg.segmentMaxBytes := by
  unfold loadStorage at loaded
  split_ifs at loaded
  split at loaded
  · cases loaded
  · cases loaded
    dsimp only
    omega

/-- The defaults pass their own checks. -/
theorem loadStorage_default :
    loadStorage defaultStorage = .ok ⟨134217728, 5242880, 4096, .sync⟩ := by
  decide +kernel

end MessageBroker.Configuration
