import MessageBroker.Storage.Files

namespace MessageBroker.Storage

open Faulty Program BigEndian

def maxUint32 : Nat := 2 ^ 32 - 1
def maxInt64 : Nat := 2 ^ 63 - 1

structure IndexEntry where
  relativeOffset : Nat
  position : Nat
  deriving DecidableEq, Repr

/-- The paths and handles of a segment are those of its base offset. Sizes and positions are `int64`
    in the source and never leave its range: a file does not grow past it. -/
structure Segment where
  baseOffset : Nat
  nextOffset : Nat
  size : Nat
  indexEntries : List IndexEntry
  lastIndexedPosition : Int
  indexSize : Nat
  indexDirty : Bool
  active : Bool
  maxTimestamp : Int
  handlesClosed : Bool
  deriving DecidableEq, Repr, Inhabited

def Segment.path (seg : Segment) : FileName := .log seg.baseOffset
def Segment.indexPath (seg : Segment) : FileName := .index seg.baseOffset

def IndexEntry.encode (entry : IndexEntry) : Bytes :=
  put 4 entry.relativeOffset ++ put 8 entry.position

section Segment

variable {μ : Type}

def newSegment (baseOffset : Nat) (active : Bool) : Program μ Directory StoreError Segment := do
  openCreate (.log baseOffset)
  let size ← onError (stat (.log baseOffset)) (close (.log baseOffset))
  onError (openCreate (.index baseOffset)) (close (.log baseOffset))
  let indexSize ← onError (stat (.index baseOffset)) do
    ignore (close (.log baseOffset))
    close (.index baseOffset)
  pure
    { baseOffset, nextOffset := baseOffset, size, indexEntries := [], lastIndexedPosition := -1,
      indexSize, indexDirty := false, active, maxTimestamp := 0, handlesClosed := false }

def Segment.readAt (seg : Segment) (position count : Nat) : Program μ Directory StoreError Bytes :=
  Storage.readAt seg.path position count

def Segment.append (seg : Segment) (data : Bytes) :
    Program μ Directory StoreError (Segment × Nat) := do
  writeAt seg.path seg.size data
  pure ({ seg with size := seg.size + data.length }, seg.size)

/-- The entry loop over the index buffer, with the ordering tests against the entry before. -/
def readEntries (buffer : Bytes) :
    (remaining i lastRel lastPos : Nat) → Except StoreError (List IndexEntry)
  | 0, _, _, _ => .ok []
  | remaining + 1, i, lastRel, lastPos =>
    let rel := get ((buffer.drop (i * 12)).take 4)
    let pos := get ((buffer.drop (i * 12 + 4)).take 8)
    if 0 < i ∧ rel ≤ lastRel then .error (.indexOffsetNotIncreasing rel lastRel)
    else if 0 < i ∧ pos ≤ lastPos then .error (.indexPositionNotIncreasing pos lastPos)
    else if i = 0 ∧ (rel ≠ 0 ∨ pos ≠ 0) then .error (.indexFirstEntry rel pos)
    else if maxInt64 < pos then .error (.indexPositionOverflow pos)
    else do
      let entries ← readEntries buffer remaining (i + 1) rel pos
      .ok (⟨rel, pos⟩ :: entries)

def Segment.readIndexEntries (seg : Segment) : Program μ Directory StoreError (List IndexEntry) :=
  if seg.indexSize = 0 then pure []
  else if seg.indexSize % 12 ≠ 0 then throw (.indexSizeNotMultiple seg.indexSize)
  else if 64 * 1024 * 1024 < seg.indexSize then throw (.indexTooLarge seg.indexSize)
  else do
    let buffer ← readUpTo seg.indexPath seg.indexSize
    match readEntries buffer (seg.indexSize / 12) 0 0 0 with
    | .error reason => throw reason
    | .ok entries => pure entries

/-- The entry counts in memory even when its write fails; the caller drops that error. -/
def Segment.appendIndexEntry (seg : Segment) (entry : IndexEntry) :
    Program μ Directory StoreError Segment := do
  let seg := { seg with
    indexEntries := seg.indexEntries ++ [entry]
    lastIndexedPosition := entry.position
    indexDirty := true }
  match ← attempt (writeAt seg.indexPath seg.indexSize entry.encode) with
  | .ok () => pure { seg with indexSize := seg.indexSize + 12 }
  | .error _ => pure seg

def Segment.flushIndex (seg : Segment) : Program μ Directory StoreError Segment :=
  if seg.indexDirty then do
    sync seg.indexPath
    pure { seg with indexDirty := false }
  else pure seg

def Segment.flush (seg : Segment) : Program μ Directory StoreError Segment := do
  sync seg.path
  seg.flushIndex

def failures (steps : List (Operation × Except StoreError Unit)) : List Operation :=
  steps.filterMap fun (operation, result) => match result with
    | .ok () => none
    | .error _ => some operation

def Segment.close (seg : Segment) : Program μ Directory StoreError Unit :=
  if seg.handlesClosed then pure ()
  else do
    let file ← attempt (Storage.close seg.path)
    let indexFile ← attempt (Storage.close seg.indexPath)
    match failures [(.close, file), (.close, indexFile)] with
    | [] => pure ()
    | failed => throw (.closing failed)

end Segment

end MessageBroker.Storage
