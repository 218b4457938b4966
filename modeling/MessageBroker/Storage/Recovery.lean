import Mathlib.Data.List.Sort
import MessageBroker.Storage.Store

namespace MessageBroker.Storage

open Faulty Program BigEndian

section Recovery

variable {μ : Type}

def truncateLog (seg : Segment) (validSize : Nat) : Program μ Directory StoreError Segment := do
  truncate seg.path validSize
  pure { seg with size := validSize }

/-! ## The log scan -/

def checkContinuity (expected : Nat) : (j : Nat) → List StoredRecord → Except StoreError Unit
  | _, [] => .ok ()
  | j, r :: rest =>
    if r.offset ≠ uint64 (expected + j) then
      .error (.offsetGapInside (uint64 (expected + j)) r.offset)
    else checkContinuity expected (j + 1) rest

def checkBatch (expected : Nat) : List StoredRecord → Except StoreError Unit
  | [] => .error .emptyRecordBatch
  | r :: rest =>
    if r.offset ≠ expected then .error (.offsetGap expected r.offset)
    else checkContinuity expected 0 (r :: rest)

def raiseTimestamp (start : Int) (records : List StoredRecord) : Int :=
  records.foldl (fun largest r => if largest < r.timestamp then r.timestamp else largest) start

def tornTail (active : Bool) (seg : Segment) (expectedOffset validSize : Nat)
    (closedError : StoreError) :
    Program μ Directory StoreError (Segment × Nat × Nat) :=
  if active then do
    let seg ← truncateLog seg validSize
    pure (seg, expectedOffset, validSize)
  else throw closedError

def acceptBatch (data : Bytes) (expectedOffset : Nat) :
    Program μ Directory StoreError (List StoredRecord) :=
  match decodeBatch data with
  | .error .panic => die
  | .error reason => throw (.corruptBatch reason)
  | .ok records =>
    match checkBatch expectedOffset records with
    | .error reason => throw reason
    | .ok () => pure records

def scanBatches (maxBatchBytes : Int) (active : Bool) (seg : Segment)
    (currentPos expectedOffset validSize : Nat) :
    Program μ Directory StoreError (Segment × Nat × Nat) :=
  if _inside : currentPos < seg.size then
    if seg.size < currentPos + 9 then tornTail active seg expectedOffset validSize .incompleteHeader
    else do
      let prefixBuf ← seg.readAt currentPos 9
      if prefixBuf.take 4 ≠ magicBytes then throw .magicMismatch
      else if (prefixBuf.drop 4).take 1 ≠ [formatVersion1] then throw .unsupportedVersion
      else
        let batchLength := get ((prefixBuf.drop 5).take 4)
        if batchLength < minimumBatchRemainder then throw (.batchLengthTooSmall batchLength)
        else
          let totalBatchSize := 9 + batchLength
          if maxBatchBytes < totalBatchSize then
            throw (.batchExceedsLimit totalBatchSize maxBatchBytes)
          else if seg.size < currentPos + totalBatchSize then
            tornTail active seg expectedOffset validSize .incompletePayload
          else do
            let batchBuf ← seg.readAt currentPos totalBatchSize
            let records ← acceptBatch batchBuf expectedOffset
            scanBatches maxBatchBytes active
              { seg with maxTimestamp := raiseTimestamp seg.maxTimestamp records }
              (currentPos + totalBatchSize) (uint64 (expectedOffset + records.length))
              (currentPos + totalBatchSize)
  else pure (seg, expectedOffset, validSize)
termination_by seg.size - currentPos

/-! ## The index -/

def validateEntry (seg : Segment) (validLogSize : Nat) (entry : IndexEntry) :
    Program μ Directory StoreError Bool := do
  if validLogSize ≤ entry.position then pure false
  else
    match ← attempt (seg.readAt entry.position 9) with
    | .error _ => pure false
    | .ok prefixBuf =>
      if prefixBuf.take 4 ≠ magicBytes then pure false
      else if validLogSize < entry.position + 33 then pure false
      else
        match ← attempt (seg.readAt entry.position 33) with
        | .error _ => pure false
        | .ok headerBuf =>
          pure (get ((headerBuf.drop 13).take 8) == uint64 (seg.baseOffset + entry.relativeOffset))

def validateEntries (seg : Segment) (validLogSize : Nat) :
    Option IndexEntry → List IndexEntry → Program μ Directory StoreError Bool
  | _, [] => pure true
  | last, entry :: rest =>
    if last.any fun last =>
      entry.relativeOffset ≤ last.relativeOffset ∨ entry.position ≤ last.position then pure false
    else do
      if ← validateEntry seg validLogSize entry then
        validateEntries seg validLogSize (some entry) rest
      else pure false

def validateIndexEntries (seg : Segment) (entries : List IndexEntry) (validLogSize : Nat) :
    Program μ Directory StoreError Bool :=
  match entries with
  | [] => pure (validLogSize == 0)
  | first :: _ =>
    if first.relativeOffset ≠ 0 ∨ first.position ≠ 0 then pure false
    else validateEntries seg validLogSize none entries

structure RebuildState where
  indexEntries : List IndexEntry
  lastIndexedPosition : Int
  maxTimestamp : Int
  deriving DecidableEq, Repr

/-- The rebuild loop over the batch headers of the log; entries go to the temporary file. -/
def rebuildEntries (interval : Int) (seg : Segment) (validLogSize currentPos : Nat)
    (state : RebuildState) :
    Program μ Directory StoreError RebuildState :=
  if _inside : currentPos < validLogSize then do
    let headerBuf ← seg.readAt currentPos 33
    let batchBaseOffset := get ((headerBuf.drop 13).take 8)
    let batchLength := get ((headerBuf.drop 5).take 4)
    let totalBatchSize := 9 + batchLength
    let batchMaxTimestamp := int64 (get ((headerBuf.drop 25).take 8))
    let state := { state with
      maxTimestamp :=
        if state.maxTimestamp < batchMaxTimestamp then batchMaxTimestamp else state.maxTimestamp }
    let relative := uint64 (batchBaseOffset - seg.baseOffset)
    if maxUint32 < relative then throw .indexOffsetOverflow
    else if state.indexEntries = [] ∨ interval ≤ currentPos - state.lastIndexedPosition then do
      let entry : IndexEntry := ⟨relative, currentPos⟩
      writeAt (.indexTmp seg.baseOffset) (state.indexEntries.length * 12) entry.encode
      rebuildEntries interval seg validLogSize (currentPos + totalBatchSize)
        { state with
          indexEntries := state.indexEntries ++ [entry]
          lastIndexedPosition := currentPos }
    else rebuildEntries interval seg validLogSize (currentPos + totalBatchSize) state
  else pure state
termination_by validLogSize - currentPos

/-- Rewrites the index through a temporary file. Every error before the rename removes that file. -/
def rebuildIndex (interval : Int) (seg : Segment) (validLogSize : Nat) :
    Program μ Directory StoreError Segment := do
  let tmpPath := FileName.indexTmp seg.baseOffset
  openTruncate tmpPath
  let closeAndRemove : Program μ Directory StoreError Unit := do
    ignore (close tmpPath)
    remove tmpPath
  let state ← onError (rebuildEntries interval seg validLogSize 0 ⟨[], -1, seg.maxTimestamp⟩)
    closeAndRemove
  onError (sync tmpPath) closeAndRemove
  onError (close tmpPath) (remove tmpPath)
  ignore (close seg.indexPath)
  onError (rename tmpPath seg.indexPath) (remove tmpPath)
  openExisting seg.indexPath
  let seg := { seg with
    indexEntries := state.indexEntries
    lastIndexedPosition := state.lastIndexedPosition
    indexDirty := false
    indexSize := state.indexEntries.length * 12
    maxTimestamp := state.maxTimestamp }
  syncDirectory
  pure seg

/-- Keeps the index file's entries when they pass validation and rebuilds them otherwise. -/
def recoverIndex (interval : Int) (seg : Segment) (validSize : Nat) :
    Program μ Directory StoreError Segment := do
  match ← attempt seg.readIndexEntries with
  | .error _ => rebuildIndex interval seg validSize
  | .ok entries =>
    if ← validateIndexEntries seg entries validSize then
      pure { seg with
        indexEntries := entries
        lastIndexedPosition := match entries.getLast? with
          | some entry => entry.position
          | none => seg.lastIndexedPosition }
    else rebuildIndex interval seg validSize

def recoverSegment (config : Config) (seg : Segment) (active : Bool) :
    Program μ Directory StoreError (Segment × Nat) := do
  let (seg, nextOffset, validSize) ← scanBatches config.maxBatchBytes active seg 0 seg.baseOffset 0
  let seg ← recoverIndex config.indexIntervalBytes seg validSize
  pure (seg, nextOffset)

/-! ## OpenStore -/

def closeAllOpenSegments : List Segment → Program μ Directory StoreError Unit
  | [] => pure ()
  | seg :: rest => do
    ignore seg.close
    closeAllOpenSegments rest

def removeTemps : List FileName → Program μ Directory StoreError Unit
  | [] => pure ()
  | .indexTmp base :: rest => do
    ignore (remove (.indexTmp base))
    removeTemps rest
  | _ :: rest => removeTemps rest

def logBases (files : List FileName) : List Nat :=
  (files.filterMap fun
    | .log base => some base
    | _ => none).insertionSort (· ≤ ·)

def loadSegments (config : Config) :
    List Nat → Nat → List Segment → Program μ Directory StoreError (List Segment × Nat)
  | [], expected, segments => pure (segments, expected)
  | base :: rest, expected, segments =>
    if base ≠ expected then do
      closeAllOpenSegments segments
      throw (.segmentGap expected base)
    else do
      let seg ← onError (newSegment base rest.isEmpty) (closeAllOpenSegments segments)
      let (seg, nextOffset) ← onError (recoverSegment config seg rest.isEmpty)
        (closeAllOpenSegments (segments ++ [seg]))
      loadSegments config rest nextOffset (segments ++ [{ seg with nextOffset }])

def openStore (config : Config) : Program μ Directory StoreError Store := do
  mkdirAll
  let files ← readDir
  removeTemps files
  match logBases files with
  | [] => do
    let seg ← newSegment 0 true
    pure ⟨config, false, false, [seg], 0, 0, 0⟩
  | base :: rest => do
    let (segments, logEndOffset) ← loadSegments config (base :: rest) base []
    pure ⟨config, false, false, segments, segments.length - 1, logEndOffset, base⟩

end Recovery

end MessageBroker.Storage
