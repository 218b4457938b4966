import MessageBroker.Broker.Delivery
import MessageBroker.Broker.Server
import MessageBroker.Lib.Reports

namespace MessageBroker.Broker

open Faulty Program Storage Topics Runs
open MessageBroker.Configuration (StorageConfig loadStorage loadStorage_ok)

/-! ## What an append reports behind its size check -/

section Past

variable {μ α : Type}

def PastLimit (reason : StoreError) : Prop := reason ≠ .batchTooLarge

theorem reports_unitary {operation : Operation}
    {action : Directory → Except StoreError α × Directory}
    (passes : ∀ d reason d', action d = (.error reason, d') → PastLimit reason) :
    Reports PastLimit (unitary operation action : Program μ Directory StoreError α) :=
  Reports.operate passes nofun

theorem reports_found {operation : Operation} {name : FileName}
    {act : File → Directory → Except StoreError α × Directory}
    (passes : ∀ file d reason d', act file d = (.error reason, d') → PastLimit reason) :
    Reports PastLimit (unitary operation fun d => match d.file? name with
      | none => (.error .notExist, d)
      | some file => act file d : Program μ Directory StoreError α) := by
  apply reports_unitary
  intro d reason d' acted
  split at acted
  · cases acted
    exact nofun
  · exact passes _ _ _ _ acted

theorem reports_openCreate (name : FileName) :
    Reports PastLimit (openCreate name : Program μ Directory StoreError Unit) := by
  apply reports_unitary
  intro d reason d' acted
  split at acted <;> cases acted

theorem reports_stat (name : FileName) :
    Reports PastLimit (stat name : Program μ Directory StoreError Nat) :=
  reports_found nofun

theorem reports_sync (name : FileName) :
    Reports PastLimit (sync name : Program μ Directory StoreError Unit) :=
  reports_found nofun

theorem reports_writeAt (name : FileName) (position : Nat) (bytes : Bytes) :
    Reports PastLimit (writeAt name position bytes : Program μ Directory StoreError Unit) := by
  refine Reports.operate ?_ nofun
  intro d reason d' acted
  split at acted <;> cases acted
  exact nofun

theorem reports_newSegment (base : Nat) (active : Bool) :
    Reports PastLimit (newSegment base active : Program μ Directory StoreError Segment) := by
  refine (reports_openCreate _).bind fun _ => ?_
  refine (reports_stat _).onError.bind fun size => ?_
  refine (reports_openCreate _).onError.bind fun _ => ?_
  exact (reports_stat _).onError.bind fun _ => Reports.pure _

theorem reports_flush (seg : Segment) :
    Reports PastLimit (seg.flush : Program μ Directory StoreError Segment) := by
  refine (reports_sync _).bind fun _ => ?_
  unfold Segment.flushIndex
  split
  · exact (reports_sync _).bind fun _ => Reports.pure _
  · exact Reports.pure _

theorem reports_flushActive : Reports PastLimit flushActive :=
  Reports.memory.bind fun _ => (reports_flush _).bind fun _ => Reports.modify _

theorem reports_rollSegment (size : Nat) : Reports PastLimit (rollSegment size) := by
  refine Reports.memory.bind fun s => ?_
  split
  · refine reports_flushActive.onError.bind fun _ => (Reports.modify _).bind fun _ => ?_
    exact (reports_newSegment _ _).onError.bind fun _ => Reports.modify _
  · exact Reports.pure _

theorem reports_appendIndexEntry (seg : Segment) (entry : IndexEntry) :
    Reports PastLimit (seg.appendIndexEntry entry : Program μ Directory StoreError Segment) := by
  refine (Reports.attempt _).bind fun written => ?_
  cases written <;> exact Reports.pure _

theorem reports_indexBatch (relative position : Nat) :
    Reports PastLimit (indexBatch relative position) := by
  refine Reports.memory.bind fun s => ?_
  split
  · exact (reports_appendIndexEntry _ _).bind fun _ => Reports.modify _
  · exact Reports.pure _

theorem reports_writeEncoded (base count : Nat) (timestamp : Int) (encoded : Bytes) :
    Reports PastLimit (writeEncoded base count timestamp encoded) := by
  refine Reports.memory.bind fun s => ?_
  extract_lets relative
  by_cases overflow : maxUint32 < relative
  · rw [if_pos overflow]
    exact (Reports.modify _).bind fun _ => Reports.throw nofun
  · rw [if_neg overflow]
    refine ((reports_writeAt _ _ _).bind fun _ => Reports.pure _).onError.bind fun written => ?_
    refine (Reports.modify _).bind fun _ => (reports_indexBatch _ _).bind fun _ => ?_
    split
    · exact reports_flushActive.onError.bind fun _ => Reports.pure _
    · exact Reports.pure _

theorem reports_appendEncoded (base count : Nat) (timestamp : Int) (encoded : Bytes) :
    Reports PastLimit (appendEncoded base count timestamp encoded) :=
  (reports_rollSegment _).bind fun _ => reports_writeEncoded _ _ _ _

/-- The size check alone decides whether a batch is too large. -/
theorem append_tooLarge_iff {now : Instant} {records : List Record} {s : Store} {d : Directory}
    {faults : List Fault} (nonempty : records ≠ []) (opened : s.closed = false)
    (healthy : s.writeFailed = false) :
    (append now records ⟨s, d, faults⟩).1 = .error .batchTooLarge ↔
      s.config.maxBatchBytes < Batch.size ⟨unixMilli now, records⟩ := by
  obtain ⟨encoded, length⟩ := @Batch.encode_stored ⟨unixMilli now, records⟩ s.logEndOffset nonempty
  rw [Batch.stored] at encoded
  dsimp only at encoded
  have ran : append now records ⟨s, d, faults⟩ =
      if s.config.maxBatchBytes < Batch.size ⟨unixMilli now, records⟩ then (.error .batchTooLarge,
        ⟨s, d, faults⟩)
      else appendEncoded s.logEndOffset records.length (unixMilli now)
        (Batch.bytes ⟨unixMilli now, records⟩ s.logEndOffset) ⟨s, d, faults⟩ := by
    simp only [append, nonempty, if_false, Bind.bind, Program.bind, memory, opened, healthy,
      encoded, length, Bool.false_eq_true]
    split_ifs <;> rfl
  rw [ran]
  split_ifs with large
  · exact iff_of_true rfl large
  · refine iff_of_false (fun same => ?_) large
    exact reports_appendEncoded _ _ _ _ _ _ _ (Prod.ext same rfl) rfl

end Past

/-! ## One record against the two limits -/

section Fits

variable {cfg : StorageConfig} {config : Config} {r : Record} {m : Manager} {tree : Tree}
  {topic : Bytes} {id : Nat} {s : Store} {now : Instant} {faults : List Fault}

/-- A record without headers is encoded in 57 bytes beyond what the handler counts. -/
theorem plain_size (time : Int) (plain : r.headers = []) :
    Batch.size ⟨time, [r]⟩ = recordPayloadSize r + 57 := by
  rw [batch_size (by simp)]
  simp only [List.map_cons, List.map_nil, List.sum_cons, List.sum_nil, recordPayloadSize, plain,
    minimumRecordSize]
  omega

theorem appendError_tooLarge {reason : StoreError} :
    appendError (.storage reason) = .batchTooLarge ↔ reason = .batchTooLarge := by
  cases reason <;> simp [appendError]

theorem checkRecords_one (small : recordPayloadSize r ≤ cfg.maxRecordBytes) :
    checkRecords cfg.maxRecordBytes 0 [r] = .ok () := by
  rw [checkRecords, if_neg (not_lt.mpr small)]
  rfl

/-- Whatever the disk does, a single record that passed the handler's check is too large for the
    store exactly when the 57 bytes around it are. -/
theorem record_fits_batch (loaded : loadStorage cfg = .ok config) (plain : r.headers = [])
    (checked : recordPayloadSize r ≤ cfg.maxRecordBytes) (found : m.store? topic id = some s)
    (setting : s.config = config) (opened : s.closed = false) (healthy : s.writeFailed = false) :
    (produce cfg now topic id [r] ⟨m, tree, faults⟩).1 ≠ .error .batchTooLarge ↔
      recordPayloadSize r + 57 ≤ cfg.maxBatchBytes := by
  have limit := @append_tooLarge_iff now [r] s (tree.partitions topic id) faults
    (by simp) opened healthy
  rw [setting, (loadStorage_ok loaded).2.1, plain_size _ plain] at limit
  have same : (produce cfg now topic id [r] ⟨m, tree, faults⟩).1 = .error .batchTooLarge ↔
      (append now [r] ⟨s, tree.partitions topic id, faults⟩).1 = .error .batchTooLarge := by
    rw [produce_appends (by simp) found (checkRecords_one checked)]
    rcases append now [r] ⟨s, tree.partitions topic id, faults⟩ with ⟨_ | reason | _, after⟩
    · exact iff_of_false nofun nofun
    · simp only [Exit.error.injEq]
      exact appendError_tooLarge
    · exact iff_of_false nofun nofun
  rw [ne_eq, same, limit, not_lt]
  push_cast
  exact Iff.rfl

/-- A broker with one topic and a record of 43 bytes, which fill a batch of 100. -/
theorem record_fits_batch_full :
    let cfg : StorageConfig := ⟨"./data", 100, 100, 1000, 10, "sync"⟩
    let node := (execute Node.perform [] Node.new
      [⟨.start .inOrder cfg 0 0, []⟩, ⟨.createTopic [97] 1 ⟨0, 0⟩, []⟩]).2
    let r : Record := ⟨none, some (List.replicate 43 120), [], 0⟩
    ∃ sv, node.server = some sv ∧
      (produce cfg 5000000 [97] 0 [r] ⟨sv.topicManager, node.tree, []⟩).1 ≠
        .error .batchTooLarge := by
  intro cfg node r
  have partition : ∃ sv ∈ node.server, ∃ s ∈ sv.topicManager.store? [97] 0,
      s.config = ⟨1000, 100, 10, .sync⟩ ∧ s.closed = false ∧ s.writeFailed = false := by
        decide +kernel
  obtain ⟨sv, running, s, found, setting, opened, healthy⟩ := partition
  refine ⟨sv, running, ?_⟩
  exact (record_fits_batch (by decide +kernel) rfl (by decide) found setting opened healthy).mpr
    (by decide)

/-- Under limits of 100 bytes each, a record of 100 bytes passes the handler's check and is refused
    by the store of a partition that was just created. -/
theorem record_exceeds_batch :
    let cfg : StorageConfig := ⟨"./data", 100, 100, 1000, 10, "sync"⟩
    let node := (execute Node.perform [] Node.new
      [⟨.start .inOrder cfg 0 0, []⟩, ⟨.createTopic [97] 1 ⟨0, 0⟩, []⟩]).2
    let r : Record := ⟨none, some (List.replicate 100 120), [], 0⟩
    loadStorage cfg = .ok ⟨1000, 100, 10, .sync⟩ ∧ checkRecords cfg.maxRecordBytes 0 [r] = .ok () ∧
      (node.perform ⟨.produce 5000000 [97] 0 [r], []⟩).1 = .notProduced .batchTooLarge := by
  intro cfg node r
  refine ⟨by decide +kernel, by rfl, ?_⟩
  have told : (match (node.perform ⟨.produce 5000000 [97] 0 [r], []⟩).1 with
    | .notProduced .batchTooLarge => true
    | _ => false) = true := by decide +kernel
  split at told
  · assumption
  · cases told

end Fits

end MessageBroker.Broker
