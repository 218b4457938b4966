import MessageBroker.Broker.Handler
import MessageBroker.Lib.Runs

namespace MessageBroker.Broker

open Faulty Program Storage Topics
open MessageBroker.Configuration (StorageConfig loadStorage ConfigError)

structure Server where
  topicManager : Manager
  offsets : Offsets.Store
  storageCfg : StorageConfig

structure Handler where
  req : CommitRequest
  stage : CommitStage
  deriving DecidableEq, Repr

structure Fetching where
  req : FetchRequest
  stage : FetchStage
  deriving DecidableEq, Repr

/-- The data directory with the offset log, the running process and its handlers. Fetches are
    numbered in the order in which they come, over all processes; those that have answered or are
    gone with their process leave an empty place. -/
structure Node where
  server : Option Server
  tree : Tree
  offsetLog : Offsets.Disk
  handlers : List Handler
  fetches : List (Option Fetching)

def Node.new : Node := ⟨none, Tree.empty, ⟨none⟩, [], []⟩

inductive Call where
  | start (order : MapOrder) (cfg : StorageConfig) (maxAgeSeconds maxBytes : UInt64)
  | kill
  | createTopic (name : Bytes) (partitionCount : Int) (retention : RetentionPolicy)
  | produce (now : Instant) (topic : Bytes) (partition : UInt32) (records : List Record)
  | fetch (topic : Bytes) (partition : UInt32) (offset : UInt64) (maxBytes : UInt32)
  | readOffset (i : Nat)
  | retain (now : Instant) (target : Target)
  | resolve (req : CommitRequest)
  | validate (i : Nat)
  | commit (i : Nat) (now : Instant)

structure Turn where
  call : Call
  faults : List Fault

inductive Answer where
  | started
  | badConfig (reason : ConfigError)
  | notOpened (reason : TopicError)
  | offsetsNotOpened (reason : Offsets.OffsetError)
  | created (topic : Topic)
  | notCreated (reason : TopicError)
  | produced (response : ProduceResponse)
  | notProduced (reason : ProduceError)
  | fetched (req : FetchRequest) (response : FetchResponse)
  | notFetched (reason : FetchError)
  | retained
  | notRetained (reason : TopicError)
  | waits
  | committed
  | notCommitted (reason : CommitError)
  | died
  | nobody

def Node.stopped (n : Node) (tree : Tree) (offsetLog : Offsets.Disk) : Node :=
  ⟨none, tree, offsetLog, [], n.fetches.map fun _ => none⟩

/-- `broker.New`: the topics, then the offsets. Without the offsets the topics are closed again. -/
def Node.start (n : Node) (order : MapOrder) (cfg : StorageConfig) (maxAgeSeconds maxBytes : UInt64)
    (faults : List Fault) : Answer × Node :=
  match loadStorage cfg with
  | .error reason => (.badConfig reason, n.stopped n.tree n.offsetLog)
  | .ok config =>
    match newManager order config ⟨(), n.tree, faults⟩ with
    | (.error reason, after) => (.notOpened reason, n.stopped after.disk n.offsetLog)
    | (.died, after) => (.died, n.stopped after.disk n.offsetLog)
    | (.ok m, after) =>
      match Offsets.openStore ⟨(), n.offsetLog, after.faults⟩ with
      | (.ok store, last) =>
        (.started, ⟨some
          ⟨{ m with defaultMaxAgeSeconds := maxAgeSeconds, defaultMaxBytes := maxBytes }, store,
            cfg⟩,
          after.disk, last.disk, [], n.fetches.map fun _ => none⟩)
      | (.error reason, last) =>
        (.offsetsNotOpened reason,
          n.stopped (Manager.close order ⟨m, after.disk, last.faults⟩).2.disk last.disk)
      | (.died, last) => (.died, n.stopped after.disk last.disk)

section Calls

variable {α ε : Type}

def Node.settleTopics (n : Node) (sv : Server) (report : α → Answer) (failure : ε → Answer) :
    Exit ε α × World Manager Tree → Answer × Node
  | (.ok value, after) =>
    (report value,
      { n with server := some { sv with topicManager := after.memory }, tree := after.disk })
  | (.error reason, after) =>
    (failure reason,
      { n with server := some { sv with topicManager := after.memory }, tree := after.disk })
  | (.died, after) => (.died, n.stopped after.disk n.offsetLog)

def Node.settleCommit (n : Node) (sv : Server) (i : Nat) :
    Exit Offsets.OffsetError Unit × World Offsets.Store Offsets.Disk → Answer × Node
  | (.ok _, after) => (.committed, { n with
      server := some { sv with offsets := after.memory }
      offsetLog := after.disk
      handlers := n.handlers.eraseIdx i })
  | (.error reason, after) => (.notCommitted (commitError reason), { n with
      server := some { sv with offsets := after.memory }
      offsetLog := after.disk
      handlers := n.handlers.eraseIdx i })
  | (.died, after) => (.died, n.stopped n.tree after.disk)

end Calls

/-- The handler goes on if it has got its records. -/
def fetchingOf (req : FetchRequest) : Exit FetchError (List StoredRecord) → Option Fetching
  | .ok stored => some ⟨req, .read stored⟩
  | _ => none

/-- A Fetch comes and reads its records. -/
def Node.read (n : Node) (sv : Server) (req : FetchRequest) (faults : List Fault) : Answer × Node :=
  let result := readRecords req.topic req.partition.toNat req.offset.toNat req.maxBytes.toNat
    ⟨sv.topicManager, n.tree, faults⟩
  let settled := n.settleTopics sv (fun _ => .waits) .notFetched result
  (settled.1, { settled.2 with fetches := settled.2.fetches ++ [fetchingOf req result.1] })

/-- The handler reads one more offset of its partition, and answers when it has both. -/
def Node.readOffset (n : Node) (sv : Server) (i : Nat) (f : Fetching) : Answer × Node :=
  match sv.topicManager.getPartition f.req.topic f.req.partition.toNat with
  | .error reason => (.notFetched (.notResolved reason), { n with fetches := n.fetches.set i none })
  | .ok s =>
    match readOffsets s f.stage with
    | .inl stage => (.waits, { n with fetches := n.fetches.set i (some { f with stage }) })
    | .inr response => (.fetched f.req response, { n with fetches := n.fetches.set i none })

def Node.validate (n : Node) (sv : Server) (i : Nat) (h : Handler) : Answer × Node :=
  match sv.topicManager.getPartition h.req.topic h.req.partition.toNat with
  | .error reason =>
    (.notCommitted (.notResolved reason), { n with handlers := n.handlers.eraseIdx i })
  | .ok s =>
    match validateCommit h.req s h.stage with
    | .error reason => (.notCommitted reason, { n with handlers := n.handlers.eraseIdx i })
    | .ok stage => (.waits, { n with handlers := n.handlers.set i { h with stage } })

/-- A call on a store holds the store's lock, so it is a single step. Fetch and CommitOffset make
    several such calls, and a retention pass visits its targets one after the other. -/
def Node.perform (n : Node) (turn : Turn) : Answer × Node :=
  match turn.call, n.server with
  | .start order cfg maxAgeSeconds maxBytes, _ =>
    n.start order cfg maxAgeSeconds maxBytes turn.faults
  | .kill, _ => (.died, n.stopped n.tree n.offsetLog)
  | .createTopic name partitionCount retention, some sv =>
    n.settleTopics sv .created .notCreated
      (Topics.createTopic name partitionCount retention ⟨sv.topicManager, n.tree, turn.faults⟩)
  | .produce now topic partition records, some sv =>
    n.settleTopics sv .produced .notProduced
      (Broker.produce sv.storageCfg now topic partition.toNat records ⟨sv.topicManager, n.tree,
        turn.faults⟩)
  | .fetch topic partition offset maxBytes, some sv =>
    n.read sv ⟨topic, partition, offset, maxBytes⟩ turn.faults
  | .readOffset i, some sv =>
    match n.fetches[i]? with
    | some (some f) => n.readOffset sv i f
    | _ => (.nobody, n)
  | .retain now target, some sv =>
    n.settleTopics sv (fun _ => .retained) .notRetained (onStore target.name target.id
      (applyRetention now target.maxAge target.maxBytes.toNat) ⟨sv.topicManager, n.tree,
        turn.faults⟩)
  | .resolve req, some sv =>
    match resolveCommit req sv.topicManager with
    | .error reason => (.notCommitted reason, n)
    | .ok stage => (.waits, { n with handlers := n.handlers ++ [⟨req, stage⟩] })
  | .validate i, some sv =>
    match n.handlers[i]? with
    | none => (.nobody, n)
    | some h => n.validate sv i h
  | .commit i now, some sv =>
    match n.handlers[i]? with
    | some ⟨req, .checked⟩ =>
      n.settleCommit sv i
        (Offsets.commit now req.key req.nextOffset ⟨sv.offsets, n.offsetLog, turn.faults⟩)
    | _ => (.nobody, n)
  | _, none => (.nobody, n)

abbrev NodeEvent := Runs.Event Node Turn Answer

def goOn (i : Nat) : Answer × Node → Answer × Node
  | (.waits, n) => n.perform ⟨.readOffset i, []⟩
  | answered => answered

def Node.fetch (n : Node) (topic : Bytes) (partition : UInt32) (offset : UInt64) (maxBytes : UInt32)
    (faults : List Fault) :
    Answer × Node :=
  goOn n.fetches.length
    (goOn n.fetches.length (n.perform ⟨.fetch topic partition offset maxBytes, faults⟩))

end MessageBroker.Broker
