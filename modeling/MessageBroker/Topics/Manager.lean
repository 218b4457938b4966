import MessageBroker.Storage.Recovery
import MessageBroker.Storage.Retention

namespace MessageBroker.Topics

open Faulty Program Storage

def maxPartitionsPerTopic : Nat := 1024

structure RetentionPolicy where
  maxAgeSeconds : UInt64
  maxBytes : UInt64
  deriving DecidableEq, Repr

structure Topic where
  name : Bytes
  partitions : List Store
  retention : RetentionPolicy
  deriving DecidableEq, Repr

structure DiskTopic where
  name : Bytes
  partitionCount : Int
  retention : RetentionPolicy
  deriving DecidableEq, Repr

abbrev TopicsMetadata := AList (fun _ : Bytes => DiskTopic)

/-- The text of a metadata file. The JSON encoder's texts are taken by what they encode, and a text
    that was cut short is not JSON. -/
inductive MetadataText where
  | encoded (topics : TopicsMetadata)
  | cut
  deriving DecidableEq

/-- The data directory: the metadata file, its temporary sibling and the partitions' directories. -/
structure Tree where
  metadataDir : Bool
  metadata : Option MetadataText
  metadataTmp : Option MetadataText
  partitions : Bytes → Nat → Directory

def Tree.empty : Tree := ⟨false, none, none, fun _ _ => Directory.empty⟩

def Tree.setPartition (tree : Tree) (name : Bytes) (id : Nat) (d : Directory) : Tree :=
  { tree with
    partitions := fun name' id' =>
      if name' = name ∧ id' = id then d else tree.partitions name' id' }

structure Manager where
  topics : AList (fun _ : Bytes => Topic)
  config : Config
  defaultMaxAgeSeconds : UInt64
  defaultMaxBytes : UInt64

def Manager.store? (m : Manager) (name : Bytes) (id : Nat) : Option Store :=
  (m.topics.lookup name).bind fun t => t.partitions[id]?

def Manager.setStore (m : Manager) (name : Bytes) (id : Nat) (s : Store) : Manager :=
  match m.topics.lookup name with
  | none => m
  | some t =>
    { m with topics := m.topics.insert name { t with partitions := t.partitions.set id s } }

inductive TopicError where
  | topicExists
  | topicNotFound
  | partitionNotFound
  | invalidTopicName (name : Bytes)
  | partitionCountNotPositive (count : Int)
  | tooManyPartitions (count : Int)
  | initializeStores (reason : TopicError)
  | persistMetadata (reason : TopicError)
  | io (operation : Operation)
  | notExist
  | notEmpty
  | malformedMetadata
  | keyMismatch (key name : Bytes)
  | corruptName (name : Bytes)
  | corruptPartitionCount (name : Bytes) (count : Int)
  | missingDirectory (name : Bytes) (id : Nat)
  | openPartition (name : Bytes) (id : Nat) (reason : TopicError)
  | storage (reason : StoreError)
  | closing (failed : List TopicError)
  deriving Repr

/-- The order in which a `range` over a map visits its keys, which Go leaves open. -/
structure MapOrder where
  visit : List Bytes → List Bytes
  perm : ∀ keys, (visit keys).Perm keys

def MapOrder.inOrder : MapOrder := ⟨id, fun _ => .refl _⟩

def isAlphanumeric (c : UInt8) : Bool :=
  (97 ≤ c && c ≤ 122) || (65 ≤ c && c ≤ 90) || (48 ≤ c && c ≤ 57)

/-- The pattern `^[a-zA-Z0-9][a-zA-Z0-9._-]{0,254}$`. -/
def topicNameMatches : Bytes → Bool
  | [] => false
  | first :: rest => isAlphanumeric first && rest.length ≤ 254 &&
      rest.all fun c => isAlphanumeric c || c == 46 || c == 95 || c == 45

/-! ## Operations on the data directory -/

section Operations

variable {μ α : Type}

def treeOperation (operation : Operation) (action : Tree → Except TopicError α × Tree) :
    Program μ Tree TopicError α :=
  Program.operate action (fun _ tree => tree) (fun _ tree => tree) (.io operation)

def statMetadata : Program μ Tree TopicError Unit :=
  treeOperation .stat fun tree =>
    match tree.metadata with
    | none => (.error .notExist, tree)
    | some _ => (.ok (), tree)

def readMetadata : Program μ Tree TopicError MetadataText :=
  treeOperation .readAt fun tree =>
    match tree.metadata with
    | none => (.error .notExist, tree)
    | some text => (.ok text, tree)

def unmarshal : MetadataText → Program μ Tree TopicError TopicsMetadata
  | .encoded topics => pure topics
  | .cut => throw .malformedMetadata

def mkdirMetadata : Program μ Tree TopicError Unit :=
  treeOperation .mkdirAll fun tree => (.ok (), { tree with metadataDir := true })

def openTmp : Program μ Tree TopicError Unit :=
  treeOperation .open_ fun tree => (.ok (), { tree with metadataTmp := some .cut })

/-- The whole text or, when the write is interrupted, a part of it. -/
def writeTmp (topics : TopicsMetadata) : Program μ Tree TopicError Unit :=
  Program.operate (fun tree => (.ok (), { tree with metadataTmp := some (.encoded topics) }))
    (fun _ tree => { tree with metadataTmp := some .cut })
    (fun _ tree => { tree with metadataTmp := some .cut }) (.io .writeAt)

def syncTmp : Program μ Tree TopicError Unit := treeOperation .sync fun tree => (.ok (), tree)

def closeTmp : Program μ Tree TopicError Unit := treeOperation .close fun tree => (.ok (), tree)

def removeTmp : Program μ Tree TopicError Unit :=
  treeOperation .remove fun tree =>
    match tree.metadataTmp with
    | none => (.error .notExist, tree)
    | some _ => (.ok (), { tree with metadataTmp := none })

def renameTmp : Program μ Tree TopicError Unit :=
  treeOperation .rename fun tree =>
    match tree.metadataTmp with
    | none => (.error .notExist, tree)
    | some text => (.ok (), { tree with metadata := some text, metadataTmp := none })

def syncMetadataDir : Program μ Tree TopicError Unit := do
  treeOperation .openDirectory fun tree => (.ok (), tree)
  treeOperation .syncDirectory fun tree => (.ok (), tree)

def statPartition (name : Bytes) (id : Nat) : Program μ Tree TopicError Unit :=
  treeOperation .stat fun tree =>
    if (tree.partitions name id).present then (.ok (), tree) else (.error .notExist, tree)

/-- Runs a program on one partition's directory with a memory of its own. -/
def inPartition {ν : Type} (name : Bytes) (id : Nat) (inner : ν)
    (p : Program ν Directory StoreError α) :
    Program μ Tree TopicError α :=
  mapError .storage
    (focus (fun _ => inner) (fun outer _ => outer) (fun tree => tree.partitions name id)
    (fun tree d => tree.setPartition name id d) p)

def removeDirectory (name : Bytes) (id : Nat) : Program μ Tree TopicError Unit :=
  treeOperation .remove fun tree =>
    let d := tree.partitions name id
    if d.files.keys = [] then (.ok (), tree.setPartition name id { d with present := false })
    else (.error .notEmpty, tree)

def removeFiles (name : Bytes) (id : Nat) : List FileName → Program μ Tree TopicError Unit
  | [] => pure ()
  | file :: rest => do
    ignore (inPartition name id () (remove file))
    removeFiles name id rest

/-- `os.RemoveAll`: every file it can remove and then the directory. -/
def removeAll (name : Bytes) (id : Nat) : Program μ Tree TopicError Unit := do
  let files ← inPartition name id () readDir
  removeFiles name id files
  removeDirectory name id

/-- Removes the topic's own directory when it is empty. Nothing else depends on it. -/
def removeTopicDirectory : Program μ Tree TopicError Unit :=
  treeOperation .remove fun tree => (.ok (), tree)

def newLog (config : Config) (name : Bytes) (id : Nat) : Program μ Tree TopicError Store :=
  inPartition name id () (openStore config)

end Operations

/-! ## Closing -/

def onStore {α : Type} (name : Bytes) (id : Nat) (call : StoreProgram α) :
    Program Manager Tree TopicError α := do
  let m ← memory
  match m.store? name id with
  | none => die
  | some s =>
    mapError .storage
      (focus (fun _ => s) (fun m s' => m.setStore name id s') (fun tree => tree.partitions name id)
      (fun tree d => tree.setPartition name id d) call)

def Manager.partitionIds (m : Manager) (order : MapOrder) : List (Bytes × Nat) :=
  (order.visit m.topics.keys).flatMap fun name =>
    (m.topics.lookup name).elim []
      fun t => (List.range t.partitions.length).map fun id => (name, id)

def closePartitions : List (Bytes × Nat) → Program Manager Tree TopicError (List TopicError)
  | [] => pure []
  | (name, id) :: rest => do
    let result ← attempt (onStore name id closeStore)
    let failed ← closePartitions rest
    match result with
    | .ok () => pure failed
    | .error reason => pure (reason :: failed)

def Manager.close (order : MapOrder) : Program Manager Tree TopicError Unit := do
  let m ← memory
  match ← closePartitions (m.partitionIds order) with
  | [] => pure ()
  | failed => throw (.closing failed)

/-- Closes stores that no manager holds; errors are dropped. -/
def closeStores {μ : Type} (name : Bytes) : Nat → List Store → Program μ Tree TopicError Unit
  | _, [] => pure ()
  | id, s :: rest => do
    ignore (inPartition name id s closeStore)
    closeStores name (id + 1) rest

/-! ## Starting -/

/-- A failed start closes what it has opened. -/
def abandon {μ α : Type} (order : MapOrder) (m : Manager) (reason : TopicError) :
    Program μ Tree TopicError α := do
  ignore (focus (fun _ => m) (fun outer _ => outer) (fun tree => tree) (fun _ tree => tree)
    (Manager.close order))
  throw reason

section Start

variable {μ : Type}

def loadPartitions (order : MapOrder) (m : Manager) (name : Bytes) : List Nat → List Store →
    Program μ Tree TopicError (List Store)
  | [], opened => pure opened
  | id :: rest, opened => do
    match ← attempt (statPartition name id) with
    | .error .notExist => do
      closeStores name 0 opened
      abandon order m (.missingDirectory name id)
    | _ => do
      match ← attempt (newLog m.config name id) with
      | .ok s => loadPartitions order m name rest (opened ++ [s])
      | .error reason => do
        closeStores name 0 opened
        abandon order m (.openPartition name id reason)

def loadTopic (order : MapOrder) (m : Manager) (name : Bytes) (dt : DiskTopic) :
    Program μ Tree TopicError Manager :=
  if name ≠ dt.name then abandon order m (.keyMismatch name dt.name)
  else if ¬ topicNameMatches dt.name then abandon order m (.corruptName dt.name)
  else if dt.partitionCount < 1 ∨ (maxPartitionsPerTopic : Int) < dt.partitionCount then
    abandon order m (.corruptPartitionCount dt.name dt.partitionCount)
  else do
    let partitions ← loadPartitions order m name (List.range dt.partitionCount.toNat) []
    pure { m with topics := m.topics.insert name ⟨dt.name, partitions, dt.retention⟩ }

def loadTopics (order : MapOrder) (topics : TopicsMetadata) :
    List Bytes → Manager → Program μ Tree TopicError Manager
  | [], m => pure m
  | name :: rest, m =>
    match topics.lookup name with
    | none => loadTopics order topics rest m
    | some dt => do
      let m ← loadTopic order m name dt
      loadTopics order topics rest m

/-- Any error of the first `Stat` is taken for a missing file. -/
def newManager (order : MapOrder) (config : Config) : Program μ Tree TopicError Manager := do
  match ← attempt statMetadata with
  | .error _ => pure ⟨∅, config, 0, 0⟩
  | .ok () => do
    let text ← readMetadata
    let topics ← unmarshal text
    loadTopics order topics (order.visit topics.keys) ⟨∅, config, 0, 0⟩

end Start

def setRetentionDefaults (maxAgeSeconds maxBytes : UInt64) : Program Manager Tree TopicError Unit :=
  modify fun m => { m with defaultMaxAgeSeconds := maxAgeSeconds, defaultMaxBytes := maxBytes }

/-! ## Creating a topic -/

section Create

variable {μ : Type}

def existingMetadata : Program μ Tree TopicError TopicsMetadata := do
  match ← attempt statMetadata with
  | .ok () => do
    let text ← readMetadata
    unmarshal text
  | .error .notExist => pure ∅
  | .error reason => throw reason

/-- Everything up to the rename that makes the new metadata file the valid one. -/
def replaceMetadata (newName : Bytes) (newTopic : DiskTopic) : Program μ Tree TopicError Unit := do
  mkdirMetadata
  let topics ← existingMetadata
  openTmp
  onError (writeTmp (topics.insert newName newTopic)) (do ignore closeTmp; removeTmp)
  onError syncTmp (do ignore closeTmp; removeTmp)
  onError closeTmp removeTmp
  onError renameTmp removeTmp

/-- Whether the new metadata is in place, and the error. -/
def saveMetadata (newName : Bytes) (newTopic : DiskTopic) :
    Program μ Tree TopicError (Bool × Option TopicError) := do
  match ← attempt (replaceMetadata newName newTopic) with
  | .error reason => pure (false, some reason)
  | .ok () => do
    match ← attempt syncMetadataDir with
    | .error reason => pure (true, some reason)
    | .ok () => pure (true, none)

def removeDirectories (name : Bytes) : List Nat → Program μ Tree TopicError Unit
  | [] => pure ()
  | id :: rest => do
    ignore (removeAll name id)
    removeDirectories name rest

/-- Closes the stores and removes the first `created` partition directories. -/
def rollBack (name : Bytes) (opened : List Store) (created : Nat) :
    Program μ Tree TopicError Unit := do
  closeStores name 0 opened
  removeDirectories name (List.range created)
  ignore removeTopicDirectory

def createPartitions (config : Config) (name : Bytes) :
    List Nat → List Store → Program μ Tree TopicError (List Store)
  | [], opened => pure opened
  | id :: rest, opened => do
    match ← attempt (newLog config name id) with
    | .ok s => createPartitions config name rest (opened ++ [s])
    | .error reason => do
      rollBack name opened (id + 1)
      throw (.initializeStores reason)

end Create

/-- Zero fields of a policy stand for the defaults. -/
def Manager.resolve (m : Manager) (retention : RetentionPolicy) : RetentionPolicy where
  maxAgeSeconds := if retention.maxAgeSeconds = 0 then m.defaultMaxAgeSeconds
    else retention.maxAgeSeconds
  maxBytes := if retention.maxBytes = 0 then m.defaultMaxBytes else retention.maxBytes

def createTopic (name : Bytes) (partitionCount : Int) (retention : RetentionPolicy) :
    Program Manager Tree TopicError Topic :=
  if ¬ topicNameMatches name then throw (.invalidTopicName name)
  else if partitionCount ≤ 0 then throw (.partitionCountNotPositive partitionCount)
  else if (maxPartitionsPerTopic : Int) < partitionCount then
    throw (.tooManyPartitions partitionCount)
  else do
    let m ← memory
    if (m.topics.lookup name).isSome then throw .topicExists
    else do
      let retention := m.resolve retention
      let partitions ← createPartitions m.config name (List.range partitionCount.toNat) []
      let topic : Topic := ⟨name, partitions, retention⟩
      match ← saveMetadata name ⟨name, partitionCount, retention⟩ with
      | (false, some reason) => do
        rollBack name partitions partitionCount.toNat
        throw (.persistMetadata reason)
      | _ => do
        -- a failed sync of the directory is only logged: the rename is done
        modify fun m => { m with topics := m.topics.insert name topic }
        pure topic

/-! ## Lookup -/

def Manager.getTopic (m : Manager) (name : Bytes) : Except TopicError Topic :=
  match m.topics.lookup name with
  | none => .error .topicNotFound
  | some t => .ok t

def Topic.partition (t : Topic) (id : Nat) : Except TopicError Store :=
  match t.partitions[id]? with
  | none => .error .partitionNotFound
  | some s => .ok s

def Manager.getPartition (m : Manager) (name : Bytes) (id : Nat) : Except TopicError Store :=
  match m.topics.lookup name with
  | none => .error .topicNotFound
  | some t => t.partition id

/-! ## Retention -/

/-- `time.Duration(seconds) * time.Second`: the conversion and the product both wrap. -/
def retentionAge (seconds : UInt64) : Int := int64 (int64 seconds.toNat * 1000000000)

structure Target where
  name : Bytes
  id : Nat
  maxAge : Int
  maxBytes : UInt64

def Topic.targets (t : Topic) (name : Bytes) : List Target :=
  (List.range t.partitions.length).map fun id =>
    ⟨name, id, retentionAge t.retention.maxAgeSeconds, t.retention.maxBytes⟩

def Manager.targets (m : Manager) (order : MapOrder) : List Target :=
  (order.visit m.topics.keys).flatMap
    fun name => (m.topics.lookup name).elim [] fun t => t.targets name

/-- `clock` is what each partition's store reads when its turn comes. -/
def retainTargets (clock : Bytes → Nat → Instant) :
    List Target → Program Manager Tree TopicError Unit
  | [] => pure ()
  | target :: rest => do
    ignore (onStore target.name target.id
      (Storage.applyRetention (clock target.name target.id) target.maxAge target.maxBytes.toNat))
    retainTargets clock rest

/-- The context is cancelled after `visits` partitions. -/
def Manager.applyRetention (order : MapOrder) (clock : Bytes → Nat → Instant) (visits : Nat) :
    Program Manager Tree TopicError Unit := do
  let m ← memory
  retainTargets clock ((m.targets order).take visits)

end MessageBroker.Topics
