import Mathlib
import MessageBroker.Bench.Accounting
import MessageBroker.Bench.Producer

namespace MessageBroker.Bench.Production

open Runs

/-! ## The producer benchmark -/

structure ProducerFlags where
  topicName : Bytes
  msgSize : Int
  count : Int
  duration : Int
  concurrency : Int
  batchSize : Int
  partition : Int
  failFast : Bool
  deriving DecidableEq, Repr

structure ProducerBench where
  topic : Bytes
  msgSize : Int
  total : Int
  duration : Int
  concurrency : Int
  batchSize : Int
  partition : Int
  failFast : Bool
  deriving DecidableEq, Repr

def newProducerBench (flags : ProducerFlags) : Except String ProducerBench :=
  if flags.topicName = [] then .error "Error: -topic must not be empty"
  else if flags.msgSize ≤ 0 then .error "Error: -msg-size must be greater than 0"
  else if flags.duration ≤ 0 ∧ flags.count ≤ 0 then
    .error "Error: either -count or -duration must be greater than 0"
  else if flags.concurrency ≤ 0 then .error "Error: -concurrency must be greater than 0"
  else if flags.batchSize ≤ 0 then .error "Error: -batch-size must be greater than 0"
  else .ok ⟨flags.topicName, flags.msgSize, flags.count, flags.duration, flags.concurrency,
    flags.batchSize, flags.partition, flags.failFast⟩

inductive ProducerError where
  | noPartitions
  | partitionOutOfBounds (partition : Int) (partitionCount : Nat)
  | failFast (code : Nat)
  | verification (reason : VerificationError)
  deriving DecidableEq, Repr

def ProducerBench.checkTarget (p : ProducerBench) (partitionCount : Nat) :
    Except ProducerError Unit :=
  if partitionCount = 0 then .error .noPartitions
  else if p.partition ≠ -1 ∧ (p.partition < 0 ∨ partitionCount ≤ uint32 p.partition) then
    .error (.partitionOutOfBounds p.partition partitionCount)
  else .ok ()

inductive Reply where
  | acknowledged (base last : UInt64)
  | failed (code : Nat) (isCanceled : Bool)
  deriving DecidableEq, Repr

/-- The atomic counters, what the mutex guards and the cancellation. `firstErr` is there once
    `crashed` is set. -/
structure Shared where
  nextRecord : Int
  acknowledged : Int
  failed : Int
  rpcCount : Int
  canceledRequests : Int
  partitionCounter : Nat
  ranges : List AcknowledgedRange
  errMap : Nat → Int
  firstErr : Option Nat
  canceled : Bool

inductive Stage where
  | checking
  | claiming
  | routing (size : Int)
  | sending (size : Int) (partition : Nat)
  | counting (size : Int) (partition : Nat) (reply : Reply)
  | judging (size : Int) (code : Nat) (isCanceled : Bool)
  | failing (size : Int) (code : Nat)
  | recording (code : Nat)
  | canceling
  | acknowledging (size : Int) (range : AcknowledgedRange)
  | appending (range : AcknowledgedRange)
  | returned
  deriving DecidableEq, Repr

inductive Act where
  | go (expired : Bool)
  | reply (r : Reply)
  deriving DecidableEq, Repr

inductive Note where
  | nothing
  | routed (partition : Nat)
  | dropped (size : Int)
  deriving DecidableEq, Repr

/-- The records that a worker takes from the counter: in duration mode as many as fit a batch, in
    count mode what is left of the total. -/
def ProducerBench.claim (p : ProducerBench) (sh : Shared) (expired : Bool) : Shared × Stage :=
  if 0 < p.duration then
    if expired then (sh, .returned)
    else ({ sh with nextRecord := int64 (sh.nextRecord + p.batchSize) }, .routing p.batchSize)
  else
    let nextRecord := int64 (sh.nextRecord + p.batchSize)
    let startIdx := int64 (nextRecord - p.batchSize)
    if p.total ≤ startIdx then ({ sh with nextRecord }, .returned)
    else
      let remaining := int64 (p.total - startIdx)
      ({ sh with nextRecord },
        .routing (if remaining < p.batchSize then remaining else p.batchSize))

def ProducerBench.route (p : ProducerBench) (partitionCount : Nat) (sh : Shared) : Nat × Shared :=
  if p.partition ≠ -1 then (uint32 p.partition, sh)
  else (sh.partitionCounter % partitionCount,
    { sh with partitionCounter := uint64 (sh.partitionCounter + 1) })

/-- One step of a worker; none where it has to wait for something else. -/
def ProducerBench.advance (p : ProducerBench) (partitionCount : Nat) (sh : Shared) :
    Stage → Act → Option (Note × Shared × Stage)
  | .checking, .go _ => some (.nothing, sh, if sh.canceled then .returned else .claiming)
  | .claiming, .go expired => some (.nothing, p.claim sh expired)
  | .routing size, .go _ =>
    let (partition, sh) := p.route partitionCount sh
    some (.routed partition, sh, .sending size partition)
  | .sending size partition, .reply r => some (.nothing, sh, .counting size partition r)
  | .counting size partition r, .go _ =>
    let sh := { sh with rpcCount := int64 (sh.rpcCount + 1) }
    match r with
    | .acknowledged base last =>
      some (.nothing, sh, .acknowledging size ⟨UInt32.ofNat partition, base, last⟩)
    | .failed code isCanceled => some (.nothing, sh, .judging size code isCanceled)
  -- a request that another worker's failure has cancelled is not a failure of its own
  | .judging size code isCanceled, .go _ =>
    if isCanceled ∧ sh.canceled then
      some (.dropped size, { sh with canceledRequests := int64 (sh.canceledRequests + 1) },
        .checking)
    else some (.nothing, sh, .failing size code)
  | .failing size code, .go _ =>
    some (.nothing, { sh with failed := int64 (sh.failed + size) }, .recording code)
  | .recording code, .go _ =>
    some (.nothing, { sh with
        errMap := Function.update sh.errMap code (int64 (sh.errMap code + 1))
        firstErr := sh.firstErr.or (some code) },
      if p.failFast then .canceling else .checking)
  | .canceling, .go _ => some (.nothing, { sh with canceled := true }, .returned)
  | .acknowledging size range, .go _ =>
    some (.nothing, { sh with acknowledged := int64 (sh.acknowledged + size) }, .appending range)
  | .appending range, .go _ =>
    some (.nothing, { sh with ranges := sh.ranges ++ [range] }, .checking)
  | _, _ => none

structure Workers where
  shared : Shared
  stages : List Stage

def ProducerBench.start (p : ProducerBench) : Workers :=
  ⟨⟨0, 0, 0, 0, 0, 0, [], fun _ => 0, none, false⟩, List.replicate p.concurrency.toNat .checking⟩

structure WorkerStep where
  worker : Nat
  act : Act
  deriving DecidableEq, Repr

def ProducerBench.perform (p : ProducerBench) (partitionCount : Nat) (s : Workers)
    (step : WorkerStep) : Note × Workers :=
  match s.stages[step.worker]? with
  | none => (.nothing, s)
  | some stage =>
    match p.advance partitionCount s.shared stage step.act with
    | none => (.nothing, s)
    | some (note, shared, next) => (note, ⟨shared, s.stages.set step.worker next⟩)

structure ProducerResult where
  requestedRecords : Int
  acknowledgedRecords : Int
  failedRecords : Int
  rpcCount : Int
  deriving DecidableEq, Repr

def ProducerBench.result (p : ProducerBench) (sh : Shared) (advance continuity : PartitionOrder)
    (initial final : List PartitionMetadata) : Except ProducerError ProducerResult :=
  match p.failFast, sh.firstErr with
  | true, some code => .error (.failFast code)
  | _, _ =>
    match verify advance continuity initial final sh.ranges with
    | .error reason => .error (.verification reason)
    | .ok () => .ok ⟨p.total, sh.acknowledged, sh.failed, sh.rpcCount⟩

abbrev ProducerEvent := Event Workers WorkerStep Note

/-! ## Where the records are -/

/-- The records that a worker has taken and not accounted for. -/
@[simp] def Stage.pending : Stage → Int
  | .routing size | .sending size _ | .counting size _ _ | .judging size _ _ | .failing size _
    | .acknowledging size _ => size
  | _ => 0

@[simp] def Stage.gone : Stage → Int
  | .returned => 1
  | _ => 0

@[simp] def Note.droppedRecords : Note → Int
  | .dropped size => size
  | _ => 0

/-- What one step of a worker does in count mode. -/
structure Moves (p : ProducerBench) (sh sh' : Shared) (stage stage' : Stage) (note : Note) :
    Prop where
  balance : sh'.acknowledged + sh'.failed + note.droppedRecords + stage'.pending +
    min p.total sh.nextRecord =
    sh.acknowledged + sh.failed + stage.pending + min p.total sh'.nextRecord
  counters : sh.acknowledged ≤ sh'.acknowledged ∧
    sh.failed ≤ sh'.failed ∧ sh.nextRecord ≤ sh'.nextRecord
  sizes : 0 ≤ note.droppedRecords ∧ 0 ≤ stage'.pending
  next : sh'.nextRecord ≤ max sh.nextRecord (p.total + p.batchSize) ∨
    stage'.gone = stage.gone + 1 ∧ sh'.nextRecord = sh.nextRecord + p.batchSize
  gone : stage.gone ≤ stage'.gone
  finished : stage' = .returned → p.total ≤ sh'.nextRecord ∨ sh'.canceled = true
  dropped : note.droppedRecords ≠ 0 → sh.canceled = true
  cancels : sh'.canceled = true → sh.canceled = true ∨ stage = .canceling
  canceled : sh.canceled = true → sh'.canceled = true
  errs : sh.firstErr ≠ none → sh'.firstErr ≠ none
  canceling : stage' = .canceling → p.failFast = true ∧ sh'.firstErr ≠ none
  failed : sh'.failed = sh.failed ∨ ∃ code, stage' = .recording code
  recorded : (∃ code, stage = .recording code) → sh'.firstErr ≠ none

section Step

variable {p : ProducerBench} {partitionCount : Nat} {sh sh' : Shared} {stage stage' : Stage}
  {note : Note} {act : Act}

theorem Moves.quiet (same : sh'.acknowledged = sh.acknowledged ∧
    sh'.failed = sh.failed ∧ sh'.nextRecord = sh.nextRecord)
    (pending : stage'.pending = stage.pending) (positive : 0 ≤ stage.pending)
    (gone : stage.gone = 0) (finished : stage' = .returned → sh'.canceled = true)
    (cancels : sh'.canceled = true → sh.canceled = true ∨ stage = .canceling)
    (canceled : sh.canceled = true → sh'.canceled = true)
    (errs : sh.firstErr ≠ none → sh'.firstErr ≠ none)
    (canceling : stage' = .canceling → p.failFast = true ∧ sh'.firstErr ≠ none)
    (recorded : (∃ code, stage = .recording code) → sh'.firstErr ≠ none)
    (still : note.droppedRecords = 0) :
    Moves p sh sh' stage stage' note := by
  obtain ⟨acknowledged, failed, next⟩ := same
  refine ⟨?_, ⟨acknowledged.ge, failed.ge, next.ge⟩, ⟨still.ge, pending ▸ positive⟩,
    Or.inl (by rw [next]; exact le_max_left _ _), ?_, fun done => Or.inr (finished done),
    fun nonempty => absurd still nonempty, cancels, canceled, errs, canceling, Or.inl failed,
    recorded⟩
  · rw [acknowledged, failed, next, pending, still]
    ring
  · rw [gone]
    cases stage' <;> simp

theorem Moves.onward (same : sh'.acknowledged = sh.acknowledged ∧
    sh'.failed = sh.failed ∧ sh'.nextRecord = sh.nextRecord)
    (flags : sh'.canceled = sh.canceled ∧ sh'.firstErr = sh.firstErr)
    (pending : stage'.pending = stage.pending) (positive : 0 ≤ stage.pending)
    (working : stage.gone = 0) (fresh : ∀ code, stage ≠ .recording code)
    (goes : stage' ≠ .returned ∧ stage' ≠ .canceling) (still : note.droppedRecords = 0) :
    Moves p sh sh' stage stage' note := by
  refine Moves.quiet same pending positive working (fun stops => absurd stops goes.1)
    (fun on => Or.inl (flags.1 ▸ on)) (fun on => flags.1.trans on) (fun told => flags.2.symm ▸ told)
    (fun stops => absurd stops goes.2) ?_ still
  rintro ⟨code, recording⟩
  exact absurd recording (fresh code)

theorem Moves.settles
    (balance : sh'.acknowledged + sh'.failed + note.droppedRecords =
      sh.acknowledged + sh.failed + stage.pending)
    (grows : sh.acknowledged ≤ sh'.acknowledged ∧ sh.failed ≤ sh'.failed ∧ 0 ≤ note.droppedRecords)
    (next : sh'.nextRecord = sh.nextRecord)
    (flags : sh'.canceled = sh.canceled ∧ sh'.firstErr = sh.firstErr)
    (free : stage'.pending = 0) (working : stage.gone = 0) (fresh : ∀ code, stage ≠ .recording code)
    (goes : stage' ≠ .returned ∧ stage' ≠ .canceling)
    (dropped : note.droppedRecords ≠ 0 → sh.canceled = true)
    (failed : sh'.failed = sh.failed ∨ ∃ code, stage' = .recording code) :
    Moves p sh sh' stage stage' note := by
  refine ⟨by rw [free, next]; omega, ⟨grows.1, grows.2.1, next.ge⟩, ⟨grows.2.2, free.ge⟩,
    Or.inl (next ▸ le_max_left _ _), ?_, fun stops => absurd stops goes.1, dropped,
    fun on => Or.inl (flags.1 ▸ on), fun on => flags.1.trans on,
    fun told => flags.2.symm ▸ told, fun stops => absurd stops goes.2, failed, ?_⟩
  · rw [working]
    cases stage' <;> simp
  · rintro ⟨code, recording⟩
    exact absurd recording (fresh code)

/-- What `claim` does in count mode, as long as the counter does not overflow. -/
theorem claim_counting {expired : Bool} (counting : ¬ 0 < p.duration) (batch : 0 < p.batchSize)
    (start : 0 ≤ sh.nextRecord) (room : sh.nextRecord + p.batchSize < 2 ^ 63)
    (total : p.total < 2 ^ 63) :
    p.claim sh expired = ({ sh with nextRecord := sh.nextRecord + p.batchSize },
      if p.total ≤ sh.nextRecord then .returned
      else .routing (min (p.total - sh.nextRecord) p.batchSize)) := by
  have next : int64 (sh.nextRecord + p.batchSize) = sh.nextRecord + p.batchSize :=
    int64_of_range (by omega) (by omega)
  have back : int64 (sh.nextRecord + p.batchSize - p.batchSize) = sh.nextRecord := by
    rw [add_sub_cancel_right]
    exact int64_of_range (by omega) (by omega)
  simp only [ProducerBench.claim, if_neg counting, next, back]
  by_cases done : p.total ≤ sh.nextRecord
  · rw [if_pos done, if_pos done]
  · have rest : int64 (p.total - sh.nextRecord) = p.total - sh.nextRecord :=
      int64_of_range (by omega) (by omega)
    have size : (if p.total - sh.nextRecord < p.batchSize then p.total - sh.nextRecord
        else p.batchSize) =
        min (p.total - sh.nextRecord) p.batchSize := by
      split_ifs <;> omega
    rw [if_neg done, if_neg done, rest, size]

theorem claim_moves {expired : Bool} (counting : ¬ 0 < p.duration) (batch : 0 < p.batchSize)
    (start : 0 ≤ sh.nextRecord) (room : sh.nextRecord + p.batchSize < 2 ^ 63)
    (total : p.total < 2 ^ 63) :
    Moves p sh (p.claim sh expired).1 .claiming (p.claim sh expired).2 .nothing := by
  rw [claim_counting counting batch start room total]
  split_ifs with done
  · refine ⟨?_, ⟨le_rfl, le_rfl, ?_⟩, by simp, Or.inr ⟨rfl, rfl⟩, by simp, fun _ => Or.inl ?_,
      by simp, Or.inl, fun on => on, fun told => told, by simp, Or.inl rfl, by simp⟩
    · simp only [Note.droppedRecords, Stage.pending]
      omega
    · dsimp only
      omega
    · dsimp only
      omega
  · refine ⟨?_, ⟨le_rfl, le_rfl, ?_⟩, ⟨le_rfl, ?_⟩, Or.inl ?_, le_rfl, by simp, by simp, Or.inl,
      fun on => on, fun told => told, by simp, Or.inl rfl, by simp⟩
    · simp only [Note.droppedRecords, Stage.pending]
      omega
    · dsimp only
      omega
    · simp only [Stage.pending]
      omega
    · dsimp only
      omega

theorem route_shared :
    ∃ counter, (p.route partitionCount sh).2 = { sh with partitionCounter := counter } := by
  unfold ProducerBench.route
  split
  · exact ⟨sh.partitionCounter, rfl⟩
  · exact ⟨_, rfl⟩

theorem advance_moves (counting : ¬ 0 < p.duration) (batch : 0 < p.batchSize)
    (nonneg : 0 ≤ sh.acknowledged ∧ 0 ≤ sh.failed) (start : 0 ≤ sh.nextRecord)
    (positive : 0 ≤ stage.pending) (room : sh.nextRecord + p.batchSize < 2 ^ 63)
    (total : p.total < 2 ^ 63) (fits : sh.acknowledged + sh.failed + stage.pending ≤ p.total)
    (advanced : p.advance partitionCount sh stage act = some (note, sh', stage')) :
    Moves p sh sh' stage stage' note := by
  obtain ⟨acknowledged, failed⟩ := nonneg
  unfold ProducerBench.advance at advanced
  split at advanced
  · cases advanced
    refine Moves.quiet ⟨rfl, rfl, rfl⟩ ?_ positive rfl ?_ Or.inl (fun on => on)
      (fun told => told) ?_ (by simp) rfl
    · split <;> rfl
    · split <;> simp_all
    · split <;> simp
  next expired =>
    have moves := @claim_moves p sh expired counting batch start room total
    rw [Option.some.injEq, Prod.mk.injEq] at advanced
    obtain ⟨rfl, claimed⟩ := advanced
    rw [claimed] at moves
    exact moves
  · obtain ⟨counter, same⟩ := @route_shared p partitionCount sh
    generalize p.route partitionCount sh = routed at same advanced
    obtain ⟨partition, _⟩ := routed
    cases same
    cases advanced
    exact Moves.onward ⟨rfl, rfl, rfl⟩ ⟨rfl, rfl⟩ rfl positive rfl (by simp) (by simp) rfl
  · cases advanced
    exact Moves.onward ⟨rfl, rfl, rfl⟩ ⟨rfl, rfl⟩ rfl positive rfl (by simp) (by simp) rfl
  · dsimp only at advanced
    split at advanced <;> cases advanced <;>
      exact Moves.onward ⟨rfl, rfl, rfl⟩ ⟨rfl, rfl⟩ rfl positive rfl (by simp) (by simp) rfl
  · split_ifs at advanced with dropped <;> cases advanced
    · exact Moves.settles rfl ⟨le_rfl, le_rfl, positive⟩ rfl ⟨rfl, rfl⟩ rfl rfl (by simp) (by simp)
        (fun _ => dropped.2) (Or.inl rfl)
    · exact Moves.onward ⟨rfl, rfl, rfl⟩ ⟨rfl, rfl⟩ rfl positive rfl (by simp) (by simp) rfl
  next size code _ =>
    simp only [Stage.pending] at positive fits
    have sum : int64 (sh.failed + size) = sh.failed + size := int64_of_range (by omega) (by omega)
    rw [sum] at advanced
    cases advanced
    refine Moves.settles ?_ ⟨le_rfl, by dsimp only; omega, le_rfl⟩ rfl ⟨rfl, rfl⟩ rfl rfl (by simp)
      (by simp) (by simp) (Or.inr ⟨code, rfl⟩)
    simp only [Note.droppedRecords, Stage.pending]
    omega
  next code _ =>
    have told : sh.firstErr.or (some code) ≠ none := by cases sh.firstErr <;> simp
    cases advanced
    refine Moves.quiet ⟨rfl, rfl, rfl⟩ ?_ positive rfl ?_ Or.inl (fun on => on) (fun _ => told) ?_
      (fun _ => told) rfl
    · split <;> rfl
    · split <;> simp
    · split <;> simp_all
  · cases advanced
    exact Moves.quiet ⟨rfl, rfl, rfl⟩ rfl positive rfl (fun _ => rfl) (fun _ => Or.inr rfl)
      (fun _ => rfl) (fun told => told) (by simp) (by simp) rfl
  next size range _ =>
    simp only [Stage.pending] at positive fits
    have sum : int64 (sh.acknowledged + size) = sh.acknowledged + size :=
      int64_of_range (by omega) (by omega)
    rw [sum] at advanced
    cases advanced
    refine Moves.settles ?_ ⟨by dsimp only; omega, le_rfl, le_rfl⟩ rfl ⟨rfl, rfl⟩ rfl rfl (by simp)
      (by simp) (by simp) (Or.inl rfl)
    simp only [Note.droppedRecords, Stage.pending]
    omega
  · cases advanced
    exact Moves.onward ⟨rfl, rfl, rfl⟩ ⟨rfl, rfl⟩ rfl positive rfl (by simp) (by simp) rfl
  · cases advanced

end Step

/-! ## Whole runs -/

section Run

variable {p : ProducerBench} {partitionCount : Nat} {past : List ProducerEvent} {s : Workers}

abbrev ProducerRun (p : ProducerBench) (partitionCount : Nat) (past : List ProducerEvent)
    (s : Workers) : Prop :=
  Run (p.perform partitionCount) (fun _ _ _ => True) p.start past s

def droppedTotal (past : List ProducerEvent) : Int :=
  (past.map fun event => event.outcome.droppedRecords).sum

/-- Count mode, with room for the batch that every worker takes in vain before it returns. -/
structure CountMode (p : ProducerBench) : Prop where
  counting : p.duration ≤ 0
  total : 0 < p.total
  batch : 0 < p.batchSize
  concurrency : 0 < p.concurrency
  room : p.total + p.batchSize * (p.concurrency + 1) < 2 ^ 63

structure Balanced (p : ProducerBench) (past : List ProducerEvent) (s : Workers) : Prop where
  workers : s.stages.length = p.concurrency.toNat
  positive : ∀ stage ∈ s.stages, 0 ≤ stage.pending
  nonneg : 0 ≤ s.shared.acknowledged ∧
    0 ≤ s.shared.failed ∧ 0 ≤ s.shared.nextRecord ∧ 0 ≤ droppedTotal past
  balance : s.shared.acknowledged + s.shared.failed + droppedTotal past +
    (s.stages.map Stage.pending).sum =
    min p.total s.shared.nextRecord
  bound : s.shared.nextRecord ≤ p.total + p.batchSize * (1 + (s.stages.map Stage.gone).sum)
  finished : .returned ∈ s.stages → p.total ≤ s.shared.nextRecord ∨ s.shared.canceled = true
  dropped : droppedTotal past ≠ 0 → s.shared.canceled = true
  canceled : s.shared.canceled = true → p.failFast = true ∧ s.shared.firstErr ≠ none
  canceling : .canceling ∈ s.stages → p.failFast = true ∧ s.shared.firstErr ≠ none
  failures : s.shared.failed ≠ 0 → s.shared.firstErr ≠ none ∨ ∃ code, .recording code ∈ s.stages

theorem balanced_start (mode : CountMode p) : Balanced p [] p.start := by
  have checking : ∀ stage ∈ p.start.stages, stage = .checking :=
    fun stage => List.eq_of_mem_replicate
  have total := mode.total
  have batch := mode.batch
  refine ⟨List.length_replicate, fun stage member => by rw [checking stage member]; rfl,
    by simp [ProducerBench.start, droppedTotal],
    ?_, ?_, fun member => ?_, by simp [droppedTotal], by simp [ProducerBench.start],
    fun member => ?_, by simp [ProducerBench.start]⟩
  · simp [ProducerBench.start, droppedTotal]
    omega
  · simp [ProducerBench.start]
    omega
  · cases checking _ member
  · cases checking _ member

theorem gone_sum_range (stages : List Stage) :
    0 ≤ (stages.map Stage.gone).sum ∧ (stages.map Stage.gone).sum ≤ stages.length := by
  induction stages with
  | nil => simp
  | cons stage rest ih =>
    have one : 0 ≤ stage.gone ∧ stage.gone ≤ 1 := by cases stage <;> simp
    simp only [List.map_cons, List.sum_cons, List.length_cons]
    omega

theorem Balanced.room {i : Nat} {stage : Stage} (mode : CountMode p) (balanced : Balanced p past s)
    (here : s.stages[i]? = some stage) (working : stage.gone = 0) :
    s.shared.nextRecord + p.batchSize < 2 ^ 63 := by
  have out := sum_map_set Stage.gone .returned here
  have most := (gone_sum_range (s.stages.set i .returned)).2
  have concurrency := mode.concurrency
  rw [List.length_set, balanced.workers] at most
  rw [working, show Stage.returned.gone = 1 from rfl] at out
  have scaled : p.batchSize * (1 + (s.stages.map Stage.gone).sum) ≤ p.batchSize * p.concurrency :=
    mul_le_mul_of_nonneg_left (by omega) mode.batch.le
  have room := mode.room
  have bound := balanced.bound
  rw [mul_add, mul_one] at room
  omega

theorem pending_sum_le {stages : List Stage} {i : Nat} {stage : Stage}
    (positive : ∀ stage ∈ stages, 0 ≤ stage.pending) (here : stages[i]? = some stage) :
    stage.pending ≤ (stages.map Stage.pending).sum := by
  apply List.single_le_sum
  · intro size made
    obtain ⟨stage, member, rfl⟩ := List.mem_map.mp made
    exact positive stage member
  · exact List.mem_map_of_mem (List.mem_of_getElem? here)

theorem mem_set_of_mem {α : Type} {items : List α} {i : Nat} {item old : α} (new : α)
    (here : items[i]? = some old) (member : item ∈ items) :
    item = old ∨ item ∈ items.set i new := by
  obtain ⟨j, there⟩ := List.mem_iff_getElem?.mp member
  by_cases same : i = j
  · subst same
    exact Or.inl (Option.some.inj (there.symm.trans here))
  · refine Or.inr (List.mem_of_getElem? (i := j) ?_)
    rw [List.getElem?_set_ne same, there]

theorem Balanced.moved {i : Nat} {stage stage' : Stage} {sh' : Shared} {event : ProducerEvent}
    (mode : CountMode p) (balanced : Balanced p past s) (here : s.stages[i]? = some stage)
    (moves : Moves p s.shared sh' stage stage' event.outcome) :
    Balanced p (past ++ [event]) ⟨sh', s.stages.set i stage'⟩ := by
  have pending := sum_map_set Stage.pending stage' here
  have gone := sum_map_set Stage.gone stage' here
  have dropped :
      droppedTotal (past ++ [event]) = droppedTotal past + event.outcome.droppedRecords := by
    simp [droppedTotal]
  obtain ⟨acknowledged, failed, nextRecord⟩ := moves.counters
  obtain ⟨notes, size⟩ := moves.sizes
  have nonneg := balanced.nonneg
  have changed :
      ∀ {stage''}, stage'' ∈ s.stages.set i stage' → stage'' ∈ s.stages ∨ stage'' = stage' :=
    fun member => List.mem_or_eq_of_mem_set member
  refine ⟨?_, ?_, ?_, ?_, ?_, ?_, ?_, ?_, ?_, ?_⟩
  · rw [List.length_set, balanced.workers]
  · intro stage'' member
    rcases changed member with old | rfl
    · exact balanced.positive _ old
    · exact size
  · rw [dropped]
    dsimp only
    omega
  · have before := balanced.balance
    have step := moves.balance
    rw [dropped]
    dsimp only
    omega
  · have before := balanced.bound
    have batch := mode.batch
    have more := moves.gone
    have few := (gone_sum_range (s.stages.set i stage')).1
    dsimp only
    rw [mul_add, mul_one] at before ⊢
    rcases moves.next with still | ⟨left, taken⟩
    · have grown :
        p.batchSize * (s.stages.map Stage.gone).sum ≤
          p.batchSize * ((s.stages.set i stage').map Stage.gone).sum :=
        mul_le_mul_of_nonneg_left (by omega) batch.le
      have nonneg := mul_nonneg batch.le few
      omega
    · have sum : ((s.stages.set i stage').map Stage.gone).sum =
        (s.stages.map Stage.gone).sum + 1 := by omega
      rw [sum, mul_add, mul_one]
      omega
  · intro member
    rcases changed member with old | rfl
    · rcases balanced.finished old with all | off
      · exact Or.inl (all.trans nextRecord)
      · exact Or.inr (moves.canceled off)
    · exact moves.finished rfl
  · intro nonempty
    rw [dropped] at nonempty
    apply moves.canceled
    by_cases before : droppedTotal past = 0
    · exact moves.dropped fun nothing => nonempty (by rw [before, nothing]; rfl)
    · exact balanced.dropped before
  · intro off
    rcases moves.cancels off with before | rfl
    · exact ⟨(balanced.canceled before).1, moves.errs (balanced.canceled before).2⟩
    · have ready := balanced.canceling (List.mem_of_getElem? here)
      exact ⟨ready.1, moves.errs ready.2⟩
  · intro member
    rcases changed member with old | rfl
    · exact ⟨(balanced.canceling old).1, moves.errs (balanced.canceling old).2⟩
    · exact moves.canceling rfl
  · intro nonempty
    rcases moves.failed with same | ⟨code, rfl⟩
    · rw [same] at nonempty
      rcases balanced.failures nonempty with told | ⟨code, telling⟩
      · exact Or.inl (moves.errs told)
      · rcases mem_set_of_mem stage' here telling with rfl | later
        · exact Or.inl (moves.recorded ⟨code, rfl⟩)
        · exact Or.inr ⟨code, later⟩
    · exact Or.inr ⟨code, List.mem_set (List.getElem?_eq_some_iff.mp here).1 _⟩

theorem Balanced.quiet {event : ProducerEvent} (balanced : Balanced p past s)
    (nothing : event.outcome = .nothing) :
    Balanced p (past ++ [event]) s := by
  have dropped : droppedTotal (past ++ [event]) = droppedTotal past := by
    simp [droppedTotal, nothing]
  exact ⟨balanced.workers, balanced.positive, by rw [dropped]; exact balanced.nonneg,
    by rw [dropped]; exact balanced.balance,
    balanced.bound, balanced.finished, by rw [dropped]; exact balanced.dropped, balanced.canceled,
    balanced.canceling, balanced.failures⟩

theorem balanced_run (mode : CountMode p) (run : ProducerRun p partitionCount past s) :
    Balanced p past s := by
  apply run.invariant (balanced_start mode)
  intro past s step balanced _
  unfold happen ProducerBench.perform
  cases here : s.stages[step.worker]? with
  | none => exact balanced.quiet rfl
  | some stage =>
    dsimp only
    cases advanced : p.advance partitionCount s.shared stage step.act with
    | none => exact balanced.quiet rfl
    | some result =>
      obtain ⟨note, sh', stage'⟩ := result
      have member := List.mem_of_getElem? here
      have working : stage.gone = 0 := by
        cases stage with
        | returned => cases advanced
        | _ => rfl
      have taken := pending_sum_le balanced.positive here
      have balance := balanced.balance
      have nonneg := balanced.nonneg
      have total : p.total < 2 ^ 63 := by
        have most := mode.room
        have wide : 0 ≤ p.batchSize * (p.concurrency + 1) :=
          mul_nonneg mode.batch.le (by have := mode.concurrency; omega)
        omega
      exact balanced.moved mode here
        (advance_moves (not_lt.mpr mode.counting) mode.batch ⟨nonneg.1, nonneg.2.1⟩ nonneg.2.2.1
        (balanced.positive _ member) (balanced.room mode here working) total (by omega) advanced)

theorem newProducerBench_countMode {flags : ProducerFlags} (made : newProducerBench flags = .ok p)
    (counting : p.duration ≤ 0) (room : p.total + p.batchSize * (p.concurrency + 1) < 2 ^ 63) :
    CountMode p := by
  unfold newProducerBench at made
  split_ifs at made
  cases made
  exact ⟨counting, by dsimp only at counting ⊢; omega, by dsimp only; omega, by dsimp only; omega,
    room⟩

/-- Behind the last worker no record is missing from the counters of a run that was not cut
    short. -/
theorem Balanced.done (mode : CountMode p) (balanced : Balanced p past s)
    (done : ∀ stage ∈ s.stages, stage = .returned)
    (whole : ¬ (p.failFast = true ∧ s.shared.firstErr ≠ none)) :
    s.shared.acknowledged + s.shared.failed = p.total := by
  have going : s.shared.canceled ≠ true := fun off => whole (balanced.canceled off)
  have worker : .returned ∈ s.stages := by
    have nonempty : s.stages ≠ [] := by
      have workers := balanced.workers
      have concurrency := mode.concurrency
      rintro nothing
      rw [nothing, List.length_nil] at workers
      omega
    obtain ⟨stage, rest, listed⟩ := List.exists_cons_of_ne_nil nonempty
    rw [← done stage (by simp [listed])]
    simp [listed]
  have all := (balanced.finished worker).resolve_right going
  have dropped : droppedTotal past = 0 := by
    by_contra nonempty
    exact going (balanced.dropped nonempty)
  have pending : (s.stages.map Stage.pending).sum = 0 := by
    apply List.sum_eq_zero
    intro size made
    obtain ⟨stage, member, rfl⟩ := List.mem_map.mp made
    rw [done stage member]
    rfl
  have balance := balanced.balance
  omega

theorem Balanced.failed_zero (balanced : Balanced p past s)
    (done : ∀ stage ∈ s.stages, stage = .returned) (clean : s.shared.firstErr = none) :
    s.shared.failed = 0 := by
  by_contra nonempty
  rcases balanced.failures nonempty with told | ⟨code, telling⟩
  · exact told clean
  · cases done _ telling

theorem result_ok {sh : Shared} {advance continuity : PartitionOrder}
    {initial final : List PartitionMetadata} {result : ProducerResult}
    (reported : p.result sh advance continuity initial final = .ok result) :
    ¬ (p.failFast = true ∧ sh.firstErr ≠ none) ∧
      verify advance continuity initial final sh.ranges = .ok () ∧
      result = ⟨p.total, sh.acknowledged, sh.failed, sh.rpcCount⟩ := by
  unfold ProducerBench.result at reported
  split at reported
  · cases reported
  next other =>
    split at reported
    · cases reported
    next passed =>
      refine ⟨?_, passed, (Except.ok.inj reported).symm⟩
      rintro ⟨fast, told⟩
      obtain ⟨code, told⟩ := Option.ne_none_iff_exists'.mp told
      exact other code fast told

/-- However the workers interleave and whatever the broker answers, a report in count mode accounts
    for every record that was asked for, and it shows no failure where the run stops at the first
    one. -/
theorem production_complete {flags : ProducerFlags} {advance continuity : PartitionOrder}
    {initial final : List PartitionMetadata} {result : ProducerResult}
    (made : newProducerBench flags = .ok p) (counting : p.duration ≤ 0)
    (room : p.total + p.batchSize * (p.concurrency + 1) < 2 ^ 63)
    (run : ProducerRun p partitionCount past s) (done : ∀ stage ∈ s.stages, stage = .returned)
    (reported : p.result s.shared advance continuity initial final = .ok result) :
    result.acknowledgedRecords + result.failedRecords = result.requestedRecords ∧
      (s.shared.firstErr = none → result.acknowledgedRecords = flags.count) ∧
        (flags.failFast = true → result.failedRecords = 0) := by
  have mode := newProducerBench_countMode made counting room
  have balanced := balanced_run mode run
  obtain ⟨whole, _, rfl⟩ := result_ok reported
  have sum := balanced.done mode done whole
  have same : p.total = flags.count ∧ p.failFast = flags.failFast := by
    unfold newProducerBench at made
    split_ifs at made
    cases made
    exact ⟨rfl, rfl⟩
  refine ⟨sum, fun clean => ?_, fun fast => balanced.failed_zero done ?_⟩
  · have nothing := balanced.failed_zero done clean
    dsimp only
    omega
  · by_contra told
    exact whole ⟨same.2.trans fast, told⟩

def acknowledgedBatch (worker : Nat) (base last : UInt64) : List WorkerStep :=
  [⟨worker, .reply (.acknowledged base last)⟩, ⟨worker, .go false⟩, ⟨worker, .go false⟩,
    ⟨worker, .go false⟩]

/-- Two workers share three records. One request is acknowledged, the other fails, and both workers
    ask once more. -/
theorem production_complete_shared :
    let p : ProducerBench := ⟨[116], 1, 3, 0, 2, 2, -1, false⟩
    let go (worker : Nat) : WorkerStep := ⟨worker, .go false⟩
    let history := execute (p.perform 2) [] p.start
      ([go 0, go 1, go 1, go 0, go 1, go 0] ++ acknowledgedBatch 1 7 8 ++
        [⟨0, .reply (.failed 14 false)⟩, go 0, go 0, go 0, go 0] ++
        [go 0, go 1, go 1, go 0])
    p.result history.2.shared .inOrder .inOrder [⟨0, 7⟩, ⟨1, 3⟩] [⟨0, 9⟩, ⟨1, 3⟩] =
      .ok ⟨3, 2, 1, 2⟩ ∧ (2 : Int) + 1 = 3 := by
  intro p go history
  have run : ProducerRun p 2 history.1 history.2 := run_execute .start (by decide)
  have reported : p.result history.2.shared .inOrder .inOrder [⟨0, 7⟩, ⟨1, 3⟩] [⟨0, 9⟩, ⟨1, 3⟩] =
      .ok ⟨3, 2, 1, 2⟩ := by
    decide +kernel
  have made : newProducerBench ⟨[116], 1, 3, 0, 2, 2, -1, false⟩ = .ok p := rfl
  exact ⟨reported,
    (production_complete made (by decide) (by decide +kernel) run (by decide +kernel) reported).1⟩

end Run

/-! ## Where the requests go -/

section Routes

variable {p : ProducerBench} {partitionCount : Nat} {past : List ProducerEvent} {s : Workers}

def Note.route? : Note → Option Nat
  | .routed partition => some partition
  | _ => none

def routes (past : List ProducerEvent) : List Nat :=
  past.filterMap fun event => event.outcome.route?

theorem advance_routes {sh sh' : Shared} {stage stage' : Stage} {note : Note} {act : Act}
    (advanced : p.advance partitionCount sh stage act = some (note, sh', stage')) :
    (∃ partition, note.route? = some partition ∧ p.route partitionCount sh = (partition, sh')) ∨
      (note.route? = none ∧ sh'.partitionCounter = sh.partitionCounter) := by
  unfold ProducerBench.advance at advanced
  split at advanced
  · cases advanced
    exact Or.inr ⟨rfl, rfl⟩
  · unfold ProducerBench.claim at advanced
    dsimp only at advanced
    split_ifs at advanced <;> cases advanced <;> exact Or.inr ⟨rfl, rfl⟩
  · cases advanced
    exact Or.inl ⟨_, rfl, rfl⟩
  · cases advanced
    exact Or.inr ⟨rfl, rfl⟩
  · dsimp only at advanced
    split at advanced <;> cases advanced <;> exact Or.inr ⟨rfl, rfl⟩
  · split_ifs at advanced <;> cases advanced <;> exact Or.inr ⟨rfl, rfl⟩
  all_goals cases advanced
  all_goals exact Or.inr ⟨rfl, rfl⟩

/-- The requests follow the counter, which wraps. -/
structure Rotates (p : ProducerBench) (partitionCount : Nat) (past : List ProducerEvent)
    (s : Workers) : Prop where
  counter : p.partition = -1 → s.shared.partitionCounter = (routes past).length % 2 ^ 64
  rotation : p.partition = -1 →
    routes past = (List.range (routes past).length).map fun turn => turn % 2 ^ 64 % partitionCount
  target : p.partition ≠ -1 → ∀ partition ∈ routes past, partition = uint32 p.partition

theorem Rotates.quiet {event : ProducerEvent} {s' : Workers}
    (rotates : Rotates p partitionCount past s) (nothing : event.outcome.route? = none)
    (same : s'.shared.partitionCounter = s.shared.partitionCounter) :
    Rotates p partitionCount (past ++ [event]) s' := by
  have still : routes (past ++ [event]) = routes past := by simp [routes, nothing]
  exact ⟨by rw [still, same]; exact rotates.counter, by rw [still]; exact rotates.rotation,
    by rw [still]; exact rotates.target⟩

theorem Rotates.routed {event : ProducerEvent} {s' : Workers} {partition : Nat}
    (rotates : Rotates p partitionCount past s) (noted : event.outcome.route? = some partition)
    (routed : p.route partitionCount s.shared = (partition, s'.shared)) :
    Rotates p partitionCount (past ++ [event]) s' := by
  have more : routes (past ++ [event]) = routes past ++ [partition] := by simp [routes, noted]
  have length : (routes past ++ [partition]).length = (routes past).length + 1 := by simp
  unfold ProducerBench.route at routed
  refine ⟨fun turning => ?_, fun turning => ?_, fun fixed => ?_⟩
  · rw [if_neg (not_not.mpr turning)] at routed
    have counter := rotates.counter turning
    rw [more, length, ← (Prod.mk.inj routed).2]
    dsimp only
    rw [counter, uint64]
    omega
  · rw [if_neg (not_not.mpr turning)] at routed
    rw [more, length, List.range_succ, List.map_append, ← rotates.rotation turning,
      ← (Prod.mk.inj routed).1, rotates.counter turning]
    rfl
  · rw [if_pos fixed] at routed
    intro partition' member
    rw [more] at member
    rcases List.mem_append.mp member with old | new
    · exact rotates.target fixed _ old
    · rw [List.mem_singleton.mp new, ← (Prod.mk.inj routed).1]

theorem rotates_run (run : ProducerRun p partitionCount past s) :
    Rotates p partitionCount past s := by
  apply @Run.invariant _ _ _ _ _ _ _ _ (fun past s => Rotates p partitionCount past s) run
  · exact ⟨fun _ => rfl, fun _ => rfl, by simp [routes]⟩
  intro past s step rotates _
  unfold happen ProducerBench.perform
  cases here : s.stages[step.worker]? with
  | none => exact rotates.quiet rfl rfl
  | some stage =>
    dsimp only
    cases advanced : p.advance partitionCount s.shared stage step.act with
    | none => exact rotates.quiet rfl rfl
    | some result =>
      obtain ⟨note, sh', stage'⟩ := result
      rcases advance_routes advanced with ⟨partition, noted, routed⟩ | ⟨nothing, same⟩
      · exact rotates.routed noted routed
      · exact rotates.quiet nothing same

theorem count_rotation {turns partitionCount partition : Nat} (valid : partition < partitionCount)
    (few : turns ≤ 2 ^ 64) :
    ((List.range turns).map fun turn => turn % 2 ^ 64 % partitionCount).count partition =
      turns / partitionCount + if partition < turns % partitionCount then 1 else 0 := by
  have counted := Nat.count_modEq_card turns (Nat.zero_lt_of_lt valid) partition
  rw [Nat.mod_eq_of_lt valid] at counted
  rw [← counted, Nat.count, List.count_eq_countP, List.countP_map]
  apply List.countP_congr
  intro turn member
  have small : turn % 2 ^ 64 = turn :=
    Nat.mod_eq_of_lt (Nat.lt_of_lt_of_le (List.mem_range.mp member) few)
  simp only [Function.comp_apply, small, Nat.ModEq, Nat.mod_eq_of_lt valid, beq_iff_eq,
    decide_eq_true_eq]

/-- Requests only go to partitions of the topic. Where none was named they are spread evenly, down
    to the one request that the current round has already sent or not. -/
theorem requests_spread (checked : p.checkTarget partitionCount = .ok ())
    (run : ProducerRun p partitionCount past s) (few : (routes past).length ≤ 2 ^ 64) :
    (∀ partition ∈ routes past, partition < partitionCount) ∧
      (p.partition ≠ -1 → ∀ partition ∈ routes past, (partition : Int) = p.partition % 2 ^ 32) ∧
      (p.partition = -1 → ∀ a b, a < partitionCount → b < partitionCount →
        (routes past).count a ≤ (routes past).count b + 1) := by
  have rotates := rotates_run run
  unfold ProducerBench.checkTarget at checked
  split_ifs at checked with nothing valid
  refine ⟨fun partition member => ?_, fun fixed partition member => ?_,
    fun turning a b first second => ?_⟩
  · by_cases turning : p.partition = -1
    · rw [rotates.rotation turning] at member
      obtain ⟨turn, _, rfl⟩ := List.mem_map.mp member
      exact Nat.mod_lt _ (Nat.pos_of_ne_zero nothing)
    · rw [rotates.target turning partition member]
      by_contra outside
      exact valid ⟨turning, Or.inr (not_lt.mp outside)⟩
  · rw [rotates.target fixed partition member, uint32]
    omega
  · rw [rotates.rotation turning, count_rotation first few, count_rotation second few]
    split_ifs <;> omega

theorem requests_spread_shared :
    let p : ProducerBench := ⟨[116], 1, 9, 0, 2, 2, -1, false⟩
    let go (worker : Nat) : WorkerStep := ⟨worker, .go false⟩
    let history := execute (p.perform 2) [] p.start
      ([go 0, go 1, go 1, go 0, go 1, go 0] ++ acknowledgedBatch 1 7 8 ++ [go 1, go 1, go 1])
    routes history.1 = [0, 1, 0] ∧
      ∀ a b, a < 2 → b < 2 → (routes history.1).count a ≤ (routes history.1).count b + 1 := by
  intro p go history
  have run : ProducerRun p 2 history.1 history.2 := run_execute .start (by decide)
  exact ⟨by decide +kernel, (requests_spread (by decide +kernel) run (by decide +kernel)).2.2 rfl⟩

end Routes

end MessageBroker.Bench.Production
