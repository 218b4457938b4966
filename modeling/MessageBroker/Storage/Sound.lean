import Mathlib.Data.List.MinMax
import MessageBroker.Storage.Crashes

namespace MessageBroker.Storage

open Faulty Runs Lifetimes

/-! ## A larger limit -/

section Relax

variable {limit limit' : Int} {J : Journal} {s : Store} {d : Directory} {p : Partition}
  {allowed : Fault → Prop} {settings : Config → Prop}

theorem Torn.relax {tail : Bytes} (torn : Torn limit tail) (le : limit ≤ limit') :
    Torn limit' tail := by
  rcases torn with short | ⟨magic, version, remainder, small, whole⟩
  · exact Or.inl short
  · exact Or.inr ⟨magic, version, remainder, by omega, whole⟩

theorem Laid.relax (laid : Laid (crashPolicy limit) J d) (le : limit ≤ limit') :
    Laid (crashPolicy limit') J d := by
  obtain ⟨file, left, found, content, torn⟩ := laid.active.log
  exact { laid with
    limit := fun b member => (laid.limit b member).trans le
    active := ⟨⟨file, left, found, content, torn.relax le⟩, laid.active.index⟩ }

theorem Holds.relax (holds : Holds (crashPolicy limit) J d) (le : limit ≤ limit') :
    Holds (crashPolicy limit') J d :=
  holds.imp (fun laid => laid.relax le) id

theorem Represents.relax (represents : Represents limit J s d) (le : limit ≤ limit') :
    Represents limit' J s d :=
  { represents with limit := fun b member => (represents.limit b member).trans le }

theorem Tracks.relax (tracks : Tracks allowed (crashPolicy limit) settings J p)
    (le : limit ≤ limit') :
    Tracks allowed (crashPolicy limit') settings J p := by
  cases tracks with
  | stopped holds => exact .stopped (holds.relax le)
  | running setting represents => exact .running setting (represents.relax le)
  | broken setting shaky broken =>
    exact .broken setting shaky { broken with disk := broken.disk.relax le }

end Relax

/-! ## Batches a store took -/

def attemptedBy (event : Event) : Option Batch :=
  match event.input.action, event.before.store with
  | .append now records, some s =>
    if s.Takes ⟨unixMilli now, records⟩ then some ⟨unixMilli now, records⟩ else none
  | _, _ => none

def attempted (history : List Event) : List Batch := history.filterMap attemptedBy

def largest (history : List Event) : Nat := ((attempted history).map Batch.size).foldr max 0

section Attempted

variable {past : List Event} {event : Event} {b : Batch}

theorem attempted_append (past : List Event) (event : Event) :
    attempted (past ++ [event]) = attempted past ++ (attemptedBy event).toList := by
  unfold attempted
  rw [List.filterMap_append]
  cases found : attemptedBy event <;> simp [found]

theorem size_le_largest (member : b ∈ attempted past) : b.size ≤ largest past :=
  List.le_max_of_le' 0 (List.mem_map_of_mem member) (le_refl _)

theorem largest_le {bound : Nat} (small : ∀ b ∈ attempted past, b.size ≤ bound) :
    largest past ≤ bound := by
  refine List.max_le_of_forall_le _ _ fun size member => ?_
  obtain ⟨b, present, rfl⟩ := List.mem_map.mp member
  exact small b present

theorem largest_mono (past : List Event) (event : Event) :
    largest past ≤ largest (past ++ [event]) := by
  refine largest_le fun b member => size_le_largest ?_
  rw [attempted_append]
  exact List.mem_append_left _ member

end Attempted

/-! ## Runs whose batches can all be read back -/

/-- The next call of a run whose batches can all be read back, whatever fails. A process is started
    with a limit that admits every batch a store took before. -/
def SoundCall (past : List Event) (p : Partition) (step : Step) : Prop :=
  match step.action with
  | .openStore config =>
    0 < config.maxBatchBytes ∧ ∀ b ∈ attempted past, (b.size : Int) ≤ config.maxBatchBytes
  | .append now records =>
    unixMilli now ≠ -2 ^ 63 ∧ ∀ s ∈ p.store, s.logEndOffset + records.length < 2 ^ 64 ∧
      (s.Takes ⟨unixMilli now, records⟩ → Batch.size ⟨unixMilli now, records⟩ < 2 ^ 31)
  | _ => True

instance (past : List Event) (p : Partition) : ∀ step, Decidable (SoundCall past p step)
  | ⟨.openStore config, _⟩ => inferInstanceAs (Decidable (0 < config.maxBatchBytes ∧
      ∀ b ∈ attempted past, (b.size : Int) ≤ config.maxBatchBytes))
  | ⟨.append now records, _⟩ => inferInstanceAs (Decidable (unixMilli now ≠ -2 ^ 63 ∧
      ∀ s ∈ p.store, s.logEndOffset + records.length < 2 ^ 64 ∧
        (s.Takes ⟨unixMilli now, records⟩ → Batch.size ⟨unixMilli now, records⟩ < 2 ^ 31)))
  | ⟨.read _ _, _⟩ | ⟨.applyRetention _ _ _, _⟩ | ⟨.closeStore, _⟩ =>
    inferInstanceAs (Decidable True)

structure Sound (past : List Event) (p : Partition) (J : Journal) (log : List Batch)
    (alive : Bool) : Prop where
  tracks : Tracks anything (crashPolicy (largest past)) (fun _ => True) J p
  accounts : Accounts past p J log alive
  readable : ∀ b ∈ J.batches, b.Readable

section Sound

variable {past : List Event} {p : Partition} {step : Step} {J J' : Journal} {log : List Batch}
  {alive : Bool}

theorem sound_new : Sound [] Partition.new Journal.initial [] false := by
  refine ⟨.stopped (Or.inr ⟨rfl, fresh_empty⟩), ⟨.start, ⟨[], rfl, rfl⟩, ?_, ?_, ?_, ?_⟩, ?_⟩
  · exact fun _ nothing => by cases nothing
  · exact fun _ member => absurd member List.not_mem_nil
  · exact fun _ => rfl
  · exact fun _ _ _ split => absurd split (by simp)
  · exact fun _ member => absurd member List.not_mem_nil

theorem Adds.stamp {allowed : Fault → Prop} {event : Event} {added : List Batch}
    (adds : Adds allowed event added) {b : Batch} (member : b ∈ added) :
    event.input.action.stamp = some b.time := by
  have made : writtenBy event = some b ∨ pendingBy event = some b := by
    rcases adds with rfl | ⟨_, other, pending, rfl⟩
    · exact Or.inl (Option.mem_toList.mp member)
    · rw [List.mem_singleton.mp member]
      exact Or.inr pending
  rcases made with written | pending
  · obtain ⟨now, records, action, rfl⟩ := writtenOf_append written
    rw [action]
    rfl
  · obtain ⟨now, records, action, rfl⟩ := pendingOf_append pending
    rw [action]
    rfl

theorem SoundCall.stamped (call : SoundCall past p step) : step.action.stamp ≠ some (-2 ^ 63) := by
  obtain ⟨action, faults⟩ := step
  cases action with
  | append now records => exact fun same => call.1 (Option.some.inj same)
  | _ => exact nofun

theorem SoundCall.admits (call : SoundCall past p step) :
    Admits (crashPolicy (largest (past ++ [happen Partition.perform p step]))) p step.action := by
  obtain ⟨action, faults⟩ := step
  cases action with
  | append now records =>
    intro s opened takes
    have taken : attemptedBy (happen Partition.perform p ⟨.append now records, faults⟩) =
        some ⟨unixMilli now, records⟩ := by
      simp only [attemptedBy, happen, show p.store = some s from opened, if_pos takes]
    refine ⟨?_, (call.2 s opened).2 takes⟩
    show (_ : Int) ≤ ((largest _ : Nat) : Int)
    refine Int.ofNat_le.mpr (size_le_largest ?_)
    rw [attempted_append, taken]
    simp
  | _ => trivial

theorem SoundCall.fits (call : SoundCall past p step) :
    Fitting (crashPolicy (largest (past ++ [happen Partition.perform p step])))
      (fun _ => True) p step.action := by
  obtain ⟨action, faults⟩ := step
  cases action with
  | openStore config =>
    refine ⟨trivial, ?_⟩
    show ((largest _ : Nat) : Int) ≤ config.maxBatchBytes
    obtain ⟨positive, bounded⟩ := call
    have below : largest (past ++ [happen Partition.perform p ⟨.openStore config, faults⟩]) ≤
        config.maxBatchBytes.toNat := by
      refine largest_le fun b member => ?_
      rw [attempted_append] at member
      have small := bounded b (by simpa [attemptedBy, happen] using member)
      omega
    omega
  | append now records => exact fun s opened => (call.2 s opened).1
  | _ => trivial

theorem Sound.perform (sound : Sound past p J log alive) (call : SoundCall past p step) :
    ∃ J' log' alive', Moves anything p J step.action (p.perform step).1 J' ∧
      Sound (past ++ [happen Partition.perform p step]) (p.perform step).2 J' log' alive' := by
  have larger := largest_mono past (happen Partition.perform p step)
  obtain ⟨J', moves, tracks', lives⟩ :=
    (sound.tracks.relax (Int.ofNat_le.mpr larger)).perform (fun _ _ _ torn => torn)
    call.admits (fun _ _ => trivial) call.fits
  have accounted :
      ∃ log' alive',
        Accounts (past ++ [happen Partition.perform p step]) (p.perform step).2 J' log' alive' :=
    sound.accounts.step moves tracks' lives
  obtain ⟨log', alive', accounts'⟩ := accounted
  refine ⟨J', log', alive', moves, tracks', accounts', ?_⟩
  intro b member least
  obtain ⟨gone, added, adds, batches, _⟩ :=
    @Moves.effect anything J J' (happen Partition.perform p step) moves
  have present : b ∈ J.batches ++ added := by
    rw [batches]
    exact List.mem_append_right _ member
  rcases List.mem_append.mp present with earlier | new
  · exact sound.readable b earlier least
  · exact call.stamped ((adds.stamp new).trans (congrArg some least))

theorem sound_run (run : Run Partition.perform SoundCall Partition.new past p) :
    ∃ J log alive, Sound past p J log alive := by
  refine @Run.invariant _ _ _ _ _ _ _ _ (fun past p => ∃ J log alive, Sound past p J log alive) run
    ⟨_, _, _, sound_new⟩ ?_
  rintro past p step ⟨J, log, alive, sound⟩ call
  obtain ⟨J', log', alive', _, sound'⟩ := sound.perform call
  exact ⟨J', log', alive', sound'⟩

end Sound

end MessageBroker.Storage
