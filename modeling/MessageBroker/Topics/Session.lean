import MessageBroker.Lib.Runs
import MessageBroker.Topics.Manager

namespace MessageBroker.Topics

open Faulty Program Storage

structure Host where
  manager : Option Manager
  tree : Tree

def Host.new : Host := ⟨none, Tree.empty⟩

inductive Request where
  | newManager (order : MapOrder) (config : Config)
  | setRetentionDefaults (maxAgeSeconds maxBytes : UInt64)
  | createTopic (name : Bytes) (partitionCount : Int) (retention : RetentionPolicy)
  | append (name : Bytes) (id : Nat) (now : Instant) (records : List Record)

structure HostStep where
  request : Request
  faults : List Fault

inductive Reply where
  | started
  | done
  | created (topic : Topic)
  | appended (base last : Nat)
  | failed (reason : TopicError)
  | died
  | noManager

/-- A request to the running manager ended; a process that died has lost it. -/
def reply {α : Type} (report : α → Reply) : Exit TopicError α × World Manager Tree → Reply × Host
  | (.ok value, after) => (report value, ⟨some after.memory, after.disk⟩)
  | (.error reason, after) => (.failed reason, ⟨some after.memory, after.disk⟩)
  | (.died, after) => (.died, ⟨none, after.disk⟩)

def replyStart : Exit TopicError Manager × World Unit Tree → Reply × Host
  | (.ok m, after) => (.started, ⟨some m, after.disk⟩)
  | (.error reason, after) => (.failed reason, ⟨none, after.disk⟩)
  | (.died, after) => (.died, ⟨none, after.disk⟩)

def appendTo (name : Bytes) (id : Nat) (now : Instant) (records : List Record) :
    Program Manager Tree TopicError (Nat × Nat) := do
  let m ← memory
  match m.getPartition name id with
  | .error reason => throw reason
  | .ok _ => onStore name id (Storage.append now records)

/-- `NewManager` is the start of a process: whatever manager there was is gone with its process. -/
def Host.perform (h : Host) (step : HostStep) : Reply × Host :=
  match step.request, h.manager with
  | .newManager order config, _ =>
    replyStart (Topics.newManager order config ⟨(), h.tree, step.faults⟩)
  | .setRetentionDefaults maxAgeSeconds maxBytes, some m =>
    reply (fun _ => .done)
      (Topics.setRetentionDefaults maxAgeSeconds maxBytes ⟨m, h.tree, step.faults⟩)
  | .createTopic name partitionCount retention, some m =>
    reply .created (Topics.createTopic name partitionCount retention ⟨m, h.tree, step.faults⟩)
  | .append name id now records, some m =>
    reply (fun (base, last) => .appended base last)
      (appendTo name id now records ⟨m, h.tree, step.faults⟩)
  | _, none => (.noManager, h)

abbrev HostEvent := Runs.Event Host HostStep Reply

section Replies

variable {α : Type} {allowed : Fault → Prop} {m : Manager} {tree : Tree} {faults : List Fault}

theorem replied {p : Program Manager Tree TopicError α} {report : α → Reply}
    (holds : Reply → Host → Prop)
    (met : Post.met ⟨fun value m' tree' => holds (report value) ⟨some m', tree'⟩,
      fun reason m' tree' => holds (.failed reason) ⟨some m', tree'⟩,
      fun tree' => holds .died ⟨none, tree'⟩⟩
      (p ⟨m, tree, faults⟩)) :
    holds (reply report (p ⟨m, tree, faults⟩)).1 (reply report (p ⟨m, tree, faults⟩)).2 := by
  rcases ran : p ⟨m, tree, faults⟩ with ⟨_ | _ | _, after⟩ <;> rw [ran] at met <;> exact met

theorem repliedStart {p : Program Unit Tree TopicError Manager} (holds : Reply → Host → Prop)
    (met : Post.met ⟨fun m' _ tree' => holds .started ⟨some m', tree'⟩,
      fun reason _ tree' => holds (.failed reason) ⟨none, tree'⟩,
      fun tree' => holds .died ⟨none, tree'⟩⟩
      (p ⟨(), tree, faults⟩)) :
    holds (replyStart (p ⟨(), tree, faults⟩)).1 (replyStart (p ⟨(), tree, faults⟩)).2 := by
  rcases ran : p ⟨(), tree, faults⟩ with ⟨_ | _ | _, after⟩ <;> rw [ran] at met <;> exact met

end Replies

end MessageBroker.Topics
