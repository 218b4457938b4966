import MessageBroker.Lib.Runs
import MessageBroker.Model

namespace MessageBroker.Bench

open Runs

/-- The flags that the benchmark's accounting depends on. `count` is an `int64`, `duration` one of
    nanoseconds. -/
structure ConsumerFlags where
  topicName : String
  partition : Int
  allPartitions : Bool
  count : Int
  duration : Int
  maxFetchBytes : Int
  concurrency : Int
  offset : Nat
  deriving DecidableEq, Repr

structure ConsumerBench where
  topic : String
  partition : Int
  target : Int
  duration : Int
  maxFetchBytes : Int
  concurrency : Int
  offset : Nat
  deriving DecidableEq, Repr

/-- The checks of `main`, and the benchmark it makes behind them. -/
def newConsumerBench (flags : ConsumerFlags) : Except String ConsumerBench :=
  if flags.topicName = "" then .error "Error: -topic must not be empty"
  else if flags.duration ≤ 0 ∧ flags.count ≤ 0 then
    .error "Error: either -count or -duration must be greater than 0"
  else if flags.maxFetchBytes ≤ 0 then .error "Error: -max-fetch-bytes must be greater than 0"
  else if flags.concurrency ≤ 0 then .error "Error: -concurrency must be greater than 0"
  else if flags.partition = -1 ∧ flags.allPartitions = false then
    .error "Error: Must specify either a valid -partition or enable -all-partitions"
  else .ok ⟨flags.topicName, flags.partition, flags.count, flags.duration, flags.maxFetchBytes,
    flags.concurrency, flags.offset⟩

inductive ConsumerError where
  | noPartitions
  | partitionOutOfBounds (partition : Int) (partitionCount : Nat)
  | idleTimeout (partID : Nat)
  | rpc (code : Nat)
  | continuity (partID expected got : Nat)
  | exhausted (counted target : Int)
  deriving DecidableEq, Repr

def ConsumerBench.partitionsToConsume (c : ConsumerBench) (partitionCount : Nat) :
    Except ConsumerError (List Nat) :=
  if partitionCount = 0 then .error .noPartitions
  else if c.partition ≠ -1 then
    if c.partition < 0 ∨ partitionCount ≤ uint32 c.partition then
      .error (.partitionOutOfBounds c.partition partitionCount)
    else .ok [uint32 c.partition]
  else .ok (List.range partitionCount)

def ConsumerBench.numWorkers (c : ConsumerBench) (partitions : Nat) : Nat :=
  if partitions < c.concurrency then if partitions = 0 then 1 else partitions
  else if c.concurrency ≤ 0 then 1 else c.concurrency.toNat

structure FetchedRecord where
  offset : Nat
  payload : Nat
  deriving DecidableEq, Repr

/-- A response that passed the continuity check, with the request it answers. -/
structure FetchedBatch where
  partID : Nat
  currentOffset : Nat
  records : List FetchedRecord
  logEndOffset : Nat
  deriving DecidableEq, Repr

def FetchedBatch.numRecords (b : FetchedBatch) : Int := int64 b.records.length

/-- What the workers share: the atomic counters, the channel of partitions and the cancellation. -/
structure Shared where
  observedRecords : Int
  countedRecords : Int
  overshootRecords : Int
  countedBytes : Int
  rpcCount : Int
  failedRequests : Int
  canceledRequests : Int
  partitionChan : List Nat
  canceled : Bool
  firstErr : Option ConsumerError
  deriving DecidableEq, Repr

/-- Where a worker stands between two of its steps. A step has at most one access to the counters of
    records. -/
inductive Stage where
  | waiting
  | checking (partID currentOffset : Nat)
  | fetching (partID currentOffset : Nat)
  | polling (partID currentOffset : Nat)
  | claiming (b : FetchedBatch)
  | swapping (b : FetchedBatch) (current : Int)
  | observing (b : FetchedBatch) (accepted : Int)
  | overshooting (b : FetchedBatch) (accepted : Int)
  | weighing (b : FetchedBatch) (accepted : Int)
  | returned
  deriving DecidableEq, Repr

inductive Reply where
  | response (records : List FetchedRecord) (logEndOffset : Nat)
  | failed (code : Nat) (isCanceled : Bool)
  deriving DecidableEq, Repr

inductive Act where
  | takePartition
  | check (expired idle : Bool)
  | reply (r : Reply)
  | load
  | compareAndSwap
  | addObserved
  | addOvershoot
  | addBytes
  | timer
  | done
  deriving DecidableEq, Repr

/-- What is worth noting of a step: records went to `claimConsumed`, and how many it accepted of
    them. -/
inductive Note where
  | nothing
  | fetched (records : Nat)
  | claimed (records : Nat) (accepted : Int)
  deriving DecidableEq, Repr

/-- Only the first error is kept. The run is cancelled either way. -/
def Shared.crash (sh : Shared) (reason : ConsumerError) : Shared :=
  { sh with firstErr := sh.firstErr.or (some reason), canceled := true }

def discontinuous : (expected : Nat) → List FetchedRecord → Option (Nat × Nat)
  | _, [] => none
  | expected, r :: rest =>
    if r.offset ≠ expected then some (expected, r.offset)
    else discontinuous (uint64 (expected + 1)) rest

/-- What `claimConsumed` takes of `recordsReturned` when it has read `current`. -/
def accepts (target recordsReturned current : Int) : Int :=
  if target < int64 (current + recordsReturned) then int64 (target - current) else recordsReturned

/-- The end of the inner loop's body. A fetch that found nothing waits for the poll interval. -/
def ConsumerBench.afterFetch (c : ConsumerBench) (partID currentOffset : Nat)
    (records : List FetchedRecord) (logEndOffset : Nat) : Stage :=
  let next := match records.getLast? with
    | some r => uint64 (r.offset + 1)
    | none => currentOffset
  if logEndOffset ≤ next then
    if 0 < c.duration then if records = [] then .polling partID c.offset
    else .checking partID c.offset
    else .waiting
  else if records = [] then .polling partID next
  else .checking partID next

def ConsumerBench.afterBatch (c : ConsumerBench) (b : FetchedBatch) : Stage :=
  c.afterFetch b.partID b.currentOffset b.records b.logEndOffset

/-- The records of the batch that count for the payload throughput. -/
def FetchedBatch.countedBytes (b : FetchedBatch) (accepted : Int) : Int :=
  ((b.records.take accepted.toNat).map FetchedRecord.payload).sum

def ConsumerBench.onReply (c : ConsumerBench) (sh : Shared) (partID currentOffset : Nat) :
    Reply → Note × Shared × Stage
  | .failed code isCanceled =>
    let sh := { sh with rpcCount := int64 (sh.rpcCount + 1) }
    if isCanceled ∧ sh.canceled then
      (.nothing, { sh with canceledRequests := int64 (sh.canceledRequests + 1) }, .returned)
    else
      (.nothing, { sh with failedRequests := int64 (sh.failedRequests + 1) }.crash (.rpc code),
        .returned)
  | .response records logEndOffset =>
    let sh := { sh with rpcCount := int64 (sh.rpcCount + 1) }
    if records = [] then (.nothing, sh, c.afterFetch partID currentOffset [] logEndOffset)
    else
      match discontinuous currentOffset records with
      | some (expected, got) => (.nothing, sh.crash (.continuity partID expected got), .returned)
      | none =>
        (.fetched records.length, sh, .claiming ⟨partID, currentOffset, records, logEndOffset⟩)

/-- One step of a worker; none where the step is not its next one. -/
def ConsumerBench.advance (c : ConsumerBench) (sh : Shared) :
    Stage → Act → Option (Note × Shared × Stage)
  -- a cancellation may come between the two selects of the source, so a partition may still be
  -- taken
  | .waiting, .takePartition =>
    match sh.partitionChan with
    | [] => some (.nothing, sh, .returned)
    | partID :: rest =>
      some (.nothing, { sh with partitionChan := rest }, .checking partID c.offset)
  | .waiting, .done => if sh.canceled then some (.nothing, sh, .returned) else none
  | .checking partID currentOffset, .check expired idle =>
    if 0 < c.duration ∧ expired then some (.nothing, sh, .returned)
    else if ¬ 0 < c.duration ∧ c.target ≤ sh.countedRecords then some (.nothing, sh, .returned)
    else if idle then some (.nothing, sh.crash (.idleTimeout partID), .returned)
    else some (.nothing, sh, .fetching partID currentOffset)
  | .fetching partID currentOffset, .reply r => some (c.onReply sh partID currentOffset r)
  | .polling partID currentOffset, .timer => some (.nothing, sh, .checking partID currentOffset)
  | .polling _ _, .done => if sh.canceled then some (.nothing, sh, .returned) else none
  | .claiming b, .load =>
    if c.target ≤ sh.countedRecords then some (.claimed b.records.length 0, sh, .observing b 0)
    else some (.nothing, sh, .swapping b sh.countedRecords)
  | .swapping b current, .compareAndSwap =>
    if sh.countedRecords = current then
      let accepted := accepts c.target b.numRecords current
      some (.claimed b.records.length accepted,
        { sh with countedRecords := int64 (current + accepted) }, .observing b accepted)
    else some (.nothing, sh, .claiming b)
  | .observing b accepted, .addObserved =>
    some (.nothing, { sh with observedRecords := int64 (sh.observedRecords + b.numRecords) },
      .overshooting b accepted)
  | .overshooting b accepted, .addOvershoot =>
    some (.nothing,
      { sh with overshootRecords := int64 (sh.overshootRecords + int64 (b.numRecords - accepted)) },
      .weighing b accepted)
  | .weighing b accepted, .addBytes =>
    some (.nothing, { sh with countedBytes := int64 (sh.countedBytes + b.countedBytes accepted) },
      c.afterBatch b)
  | _, _ => none

structure Workers where
  shared : Shared
  stages : List Stage
  deriving DecidableEq, Repr

def ConsumerBench.start (c : ConsumerBench) (partitions : List Nat) : Workers :=
  ⟨⟨0, 0, 0, 0, 0, 0, 0, partitions, false, none⟩,
    List.replicate (c.numWorkers partitions.length) .waiting⟩

structure WorkerStep where
  worker : Nat
  act : Act
  deriving DecidableEq, Repr

/-- The chosen worker takes its step; any other choice changes nothing. -/
def ConsumerBench.perform (c : ConsumerBench) (s : Workers) (step : WorkerStep) : Note × Workers :=
  match s.stages[step.worker]? with
  | none => (.nothing, s)
  | some stage =>
    match c.advance s.shared stage step.act with
    | none => (.nothing, s)
    | some (note, shared, next) => (note, ⟨shared, s.stages.set step.worker next⟩)

/-- A worker that is not in the middle of accounting for a fetch. -/
def Stage.Idle : Stage → Bool
  | .waiting | .checking _ _ | .fetching _ _ | .polling _ _ | .returned => true
  | _ => false

structure ConsumerResult where
  targetRecords : Int
  observedRecords : Int
  countedRecords : Int
  overshootRecords : Int
  rpcCount : Int
  deriving DecidableEq, Repr

def ConsumerBench.result (c : ConsumerBench) (sh : Shared) : Except ConsumerError ConsumerResult :=
  if c.duration = 0 ∧ sh.countedRecords < c.target then
    .error (.exhausted sh.countedRecords c.target)
  else
    match sh.firstErr with
    | some reason => .error reason
    | none =>
      .ok ⟨c.target, sh.observedRecords, sh.countedRecords, sh.overshootRecords, sh.rpcCount⟩

abbrev BenchEvent := Event Workers WorkerStep Note

end MessageBroker.Bench
