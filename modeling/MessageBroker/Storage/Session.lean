import MessageBroker.Lib.Runs
import MessageBroker.Storage.Extent
import MessageBroker.Storage.Recovery
import MessageBroker.Storage.Retention

namespace MessageBroker.Storage

open Faulty

structure Partition where
  store : Option Store
  directory : Directory

def Partition.new : Partition := ⟨none, Directory.empty⟩

inductive Action where
  | openStore (config : Config)
  | append (now : Instant) (records : List Record)
  | read (offset : Nat) (maxBytes : Int)
  | applyRetention (now : Instant) (maxAge : Int) (maxPartitionBytes : Nat)
  | closeStore
  deriving DecidableEq, Repr

def Action.stamp : Action → Option Int
  | .append now _ => some (unixMilli now)
  | _ => none

structure Step where
  action : Action
  faults : List Fault
  deriving DecidableEq, Repr

inductive Outcome where
  | opened
  | appended (base last : Nat)
  | found (records : List StoredRecord)
  | done
  | failed (reason : StoreError)
  | died
  | noStore
  deriving DecidableEq, Repr

def settle {α : Type} (report : α → Outcome) :
    Exit StoreError α × World Store Directory → Outcome × Partition
  | (.ok value, after) => (report value, ⟨some after.memory, after.disk⟩)
  | (.error reason, after) => (.failed reason, ⟨some after.memory, after.disk⟩)
  | (.died, after) => (.died, ⟨none, after.disk⟩)

def settleOpen : Exit StoreError Store × World Unit Directory → Outcome × Partition
  | (.ok s, after) => (.opened, ⟨some s, after.disk⟩)
  | (.error reason, after) => (.failed reason, ⟨none, after.disk⟩)
  | (.died, after) => (.died, ⟨none, after.disk⟩)

/-- `OpenStore` is the start of a process: whatever store was open before is gone with its
    process. -/
def Partition.perform (p : Partition) (step : Step) : Outcome × Partition :=
  match step.action, p.store with
  | .openStore config, _ => settleOpen (openStore config ⟨(), p.directory, step.faults⟩)
  | .append now records, some s =>
    settle (fun (base, last) => .appended base last)
      (append now records ⟨s, p.directory, step.faults⟩)
  | .read offset maxBytes, some s =>
    settle .found (read offset maxBytes ⟨s, p.directory, step.faults⟩)
  | .applyRetention now maxAge maxPartitionBytes, some s =>
    settle (fun _ => .done)
      (applyRetention now maxAge maxPartitionBytes ⟨s, p.directory, step.faults⟩)
  | .closeStore, some s => settle (fun _ => .done) (closeStore ⟨s, p.directory, step.faults⟩)
  | _, none => (.noStore, p)

abbrev Event := Runs.Event Partition Step Outcome

def acknowledgedBy (event : Event) : List StoredRecord :=
  match event.input.action, event.outcome with
  | .append now records, .appended base _ => stampRecords base (unixMilli now) records
  | _, _ => []

def acknowledged (history : List Event) : List StoredRecord := history.flatMap acknowledgedBy

def writtenOf : Action → Outcome → Option Batch
  | .append now records, .appended _ _ => some ⟨unixMilli now, records⟩
  | _, _ => none

def pendingOf : Action → Outcome → Option Batch
  | .append now records, .died => some ⟨unixMilli now, records⟩
  | .append now records, .failed (.io _) => some ⟨unixMilli now, records⟩
  | _, _ => none

def writtenBy (event : Event) : Option Batch := writtenOf event.input.action event.outcome

def pendingBy (event : Event) : Option Batch := pendingOf event.input.action event.outcome

def written (history : List Event) : List Batch := history.filterMap writtenBy

end MessageBroker.Storage
