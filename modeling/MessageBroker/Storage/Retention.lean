import MessageBroker.Storage.Store

namespace MessageBroker.Storage

open Faulty Program

/-- Takes the segment at `idx` out of the slice; `activeSegment` keeps naming the same segment. -/
def Store.dropSegment (s : Store) (idx : Nat) : Store :=
  let segments := s.segments.eraseIdx idx
  { s with
    segments
    activeSegment := if idx < s.activeSegment then s.activeSegment - 1 else s.activeSegment
    earliestOffset := match segments with
      | [] => s.earliestOffset
      | first :: _ => first.baseOffset }

/-- A missing index file is not an error here. -/
def removeIndex (name : FileName) : StoreProgram Unit := do
  match ← attempt (remove name) with
  | .ok () => pure ()
  | .error .notExist => pure ()
  | .error reason => throw reason

def deleteSegmentAtIndex (idx : Nat) : StoreProgram Unit := do
  let s ← memory
  match s.segments[idx]? with
  | none => die
  | some seg => do
    remove seg.path
    modify fun s => s.dropSegment idx
    let index ← attempt (removeIndex seg.indexPath)
    let handles ← attempt seg.close
    let directory ← attempt syncDirectory
    match failures [(.remove, index), (.close, handles), (.syncDirectory, directory)] with
    | [] => pure ()
    | failed => throw (.cleanup failed)

/-- Deletes the oldest segment and goes on, unless that fails. -/
def deleteOldestThen (next : StoreProgram (List StoreError)) : StoreProgram (List StoreError) := do
  match ← attempt (deleteSegmentAtIndex 0) with
  | .error reason => pure [reason]
  | .ok () => next

/-- The age loop. It ends after at most one round for each segment, so their number bounds it. -/
def retainByAge (cutoff : Int) : Nat → StoreProgram (List StoreError)
  | 0 => pure []
  | rounds + 1 => do
    let s ← memory
    match s.segments with
    | oldest :: _ :: _ =>
      if s.activeSegment = 0 then pure []
      else if oldest.maxTimestamp ≤ cutoff then deleteOldestThen (retainByAge cutoff rounds)
      else pure []
    | _ => pure []

def totalBytes : List Segment → StoreProgram Nat
  | [] => pure 0
  | seg :: rest => do
    let log ← stat seg.path
    let index ← stat seg.indexPath
    let others ← totalBytes rest
    pure ((log + index + others) % 2 ^ 64)

def calculateTotalBytes : StoreProgram Nat := do
  let s ← memory
  totalBytes s.segments

/-- The size loop, bounded like the age loop. -/
def retainBySize (maxPartitionBytes : Nat) : Nat → StoreProgram (List StoreError)
  | 0 => pure []
  | rounds + 1 => do
    let s ← memory
    match s.segments with
    | _ :: _ :: _ => do
      match ← attempt calculateTotalBytes with
      | .error reason => pure [reason]
      | .ok total =>
        if total ≤ maxPartitionBytes then pure []
        else if s.activeSegment = 0 then pure []
        else deleteOldestThen (retainBySize maxPartitionBytes rounds)
    | _ => pure []

/-- `maxAge` is a `time.Duration` in nanoseconds; its negation wraps. -/
def retentionCutoff (now : Instant) (maxAge : Int) : Int := unixMilli (now + int64 (-maxAge))

def applyRetention (now : Instant) (maxAge : Int) (maxPartitionBytes : Nat) : StoreProgram Unit :=
  do
  let s ← memory
  if s.closed || s.writeFailed then pure ()
  else do
    let aged ← retainByAge (retentionCutoff now maxAge) s.segments.length
    let s ← memory
    let sized ← retainBySize maxPartitionBytes s.segments.length
    match aged ++ sized with
    | [] => pure ()
    | errors => throw (.retention errors.length)

end MessageBroker.Storage
