import MessageBroker.Storage.Sound
import MessageBroker.Storage.Trimming

namespace MessageBroker.Storage

open Faulty Runs Lifetimes

/-- After a retention pass the store in memory is what is left of the one before, and the directory
    has the logs of its segments and no others. -/
structure InStep (s s' : Store) (d' : Directory) : Prop where
  suffix : s'.segments <:+ s.segments
  active : ∃ seg, s.segments[s.activeSegment]? = some seg ∧
    s'.segments[s'.activeSegment]? = some seg
  earliest : s'.segments.head?.map Segment.baseOffset = some s'.earliestOffset
  logEnd : s'.logEndOffset = s.logEndOffset
  logs : ∀ base, d'.file? (.log base) ≠ none ↔ ∃ seg ∈ s'.segments, seg.baseOffset = base

/-- A process finds the log up to the given offset, from the first of the log files on. -/
structure Reopens (d : Directory) (logEnd : Nat) (reopened : Outcome × Partition) : Prop where
  opened : reopened.1 = .opened
  offsets : ∃ s, reopened.2.store = some s ∧ s.logEndOffset = logEnd ∧
    IsLeast {base | d.file? (.log base) ≠ none} s.earliestOffset

def Journal.Drops (J J' : Journal) : Prop :=
  ∃ gone, J.batches = gone ++ J'.batches ∧ J'.floor = J.floor + span gone

section Journal

variable {limit : Int} {J J' : Journal} {s s' : Store} {d d' : Directory} {P : Policy}

theorem Journal.Drops.logEnd (drops : J.Drops J') : J'.logEnd = J.logEnd := by
  obtain ⟨gone, batches, floor⟩ := drops
  rw [Journal.logEnd, Journal.logEnd, batches, floor, span_append, Nat.add_assoc]

theorem Journal.Drops.subset (drops : J.Drops J') : ∀ b ∈ J'.batches, b ∈ J.batches := by
  obtain ⟨gone, batches, _⟩ := drops
  intro b member
  rw [batches]
  exact List.mem_append_right _ member

theorem Represents.logs (represents : Represents limit J s d) (base : Nat) :
    d.file? (.log base) ≠ none ↔ ∃ seg ∈ s.segments, seg.baseOffset = base := by
  constructor
  · intro present
    obtain ⟨e, member, rfl⟩ := represents.only base present
    obtain ⟨seg, present, mirrors⟩ := mem_mirrored represents.segments member
    exact ⟨seg, present, mirrors.base⟩
  · rintro ⟨seg, member, rfl⟩
    obtain ⟨i, inside, rfl⟩ := List.getElem_of_mem member
    have mirrors :=
      represents.segments.get (i := i) (by rw [represents.segments.length_eq]; exact inside) inside
    obtain ⟨file, found, _⟩ := mirrors.log
    have base : s.segments[i].baseOffset = _ := mirrors.base
    rw [base, found]
    simp

theorem Represents.first (represents : Represents limit J s d) :
    s.segments.head?.map Segment.baseOffset = some s.earliestOffset := by
  obtain ⟨batches, rest, split⟩ := J.extents_head
  have all := represents.segments
  rw [split] at all
  obtain ⟨seg, segments, mirrors, _, list⟩ := List.forall₂_cons_left_iff.mp all
  rw [list, represents.earliestOffset]
  exact congrArg some mirrors.base

theorem Represents.length (represents : Represents limit J s d) :
    s.segments.length = s.activeSegment + 1 := by
  rw [← represents.segments.length_eq, J.extents_eq, extentsFrom_length, List.length_append,
    represents.activeSegment]
  rfl

theorem Represents.inStep {allowed : Fault → Prop} {count : Nat} (before : Represents limit J s d)
    (after : Represents limit J' s' d') (trims : Trims allowed count s d s' d') :
    InStep s s' d' := by
  have segments := trims.segments
  have length := before.length
  have length' := after.length
  rw [segments, List.length_drop] at length'
  refine ⟨?_, ?_, after.first, ?_, after.logs⟩
  · rw [segments]
    exact List.drop_suffix _ _
  · refine ⟨s.segments[s.activeSegment], List.getElem?_eq_getElem _, ?_⟩
    rw [segments, List.getElem?_drop, show count + s'.activeSegment = s.activeSegment by omega,
      List.getElem?_eq_getElem]
  · rw [trims.store]

end Journal

section Retention

variable {past : List Event} {p : Partition} {s : Store}

theorem Sound.opens {J : Journal} {log : List Batch} {alive : Bool} {config : Config}
    {d : Directory} {J' : Journal} (sound : Sound past p J log alive)
    (call : SoundCall past p ⟨.openStore config, []⟩)
    (laid : Laid (crashPolicy (largest past)) J' d) (logEnd : J'.logEnd = J.logEnd)
    (subset : ∀ b ∈ J'.batches, b ∈ J.batches) (store : Option Store) :
    Reopens d J.logEnd (Partition.perform ⟨store, d⟩ ⟨.openStore config, []⟩) := by
  have admits : ((largest past : Nat) : Int) ≤ config.maxBatchBytes := by
    have fits := call.fits
    have same : largest (past ++ [happen Partition.perform p ⟨.openStore config, []⟩]) =
        largest past := by
      rw [largest, attempted_append]
      simp [attemptedBy, happen, largest]
    rw [same] at fits
    exact fits.2
  have holds : Holds (crashPolicy (largest past)) J' d := Or.inl laid
  obtain ⟨s, d', opened, represents, _⟩ :=
    holds.opens admits fun b member => sound.readable b (subset b member)
  show Reopens d J.logEnd (settleOpen (openStore config ⟨(), d, []⟩))
  rw [opened]
  refine ⟨rfl, s, rfl, by rw [represents.logEndOffset, logEnd], ?_⟩
  rw [represents.earliestOffset]
  exact laid.least

theorem meets_retention {limit : Int} {J : Journal} {d : Directory} {P : Policy}
    {allowed : Fault → Prop} (represents : Represents limit J s d) (le : limit ≤ P.limit)
    (now : Instant) (maxAge : Int) (maxPartitionBytes : Nat) :
    Meets allowed (applyRetention now maxAge maxPartitionBytes) s d
      ⟨fun _ s' d' =>
        ∃ J', J.Drops J' ∧ Represents limit J' s' d' ∧ ∃ count, Trims allowed count s d s' d',
       fun _ s' d' =>
         ∃ J', J.Drops J' ∧ Represents limit J' s' d' ∧ ∃ count, Trims allowed count s d s' d',
       fun d' => ∃ J', J.Drops J' ∧ Laid P J' d'⟩ := by
  have journal : Meets allowed (applyRetention now maxAge maxPartitionBytes) s d
      ⟨fun _ s' d' => ∃ J', J.Drops J' ∧ Represents limit J' s' d',
       fun _ s' d' => ∃ J', J.Drops J' ∧ Represents limit J' s' d',
       fun d' => ∃ J', J.Drops J' ∧ Laid P J' d'⟩ := by
    refine meets_applyRetention represents le ?_ ?_ ?_ ?_
    · exact fun _ => ⟨J, ⟨[], rfl, rfl⟩, represents⟩
    · exact fun _ _ J' s' d' fully after _ => ⟨J', fully.pruned.effect, after⟩
    · exact fun _ _ J' s' d' pruned after _ => ⟨J', pruned.effect, after⟩
    · exact fun _ J' d' pruned laid => ⟨J', pruned.effect, laid⟩
  refine (journal.both (meets_applyRetention_trims now maxAge maxPartitionBytes s d)).mono ?_ ?_ ?_
  · exact fun _ s' d' ⟨⟨J', drops, after⟩, trims⟩ => ⟨J', drops, after, trims⟩
  · exact fun _ s' d' ⟨⟨J', drops, after⟩, trims⟩ => ⟨J', drops, after, trims⟩
  · exact fun d' ⟨after, _⟩ => after

/-- Whatever fails in a retention pass and wherever the process dies in it, memory and disk agree
    when it returns, and a later process finds the log from the first log file on. -/
theorem retention_agrees (run : Run Partition.perform SoundCall Partition.new past p)
    (opened : p.store = some s) (running : s.writeFailed = false) (now : Instant) (maxAge : Int)
    (maxPartitionBytes : Nat) (faults : List Fault) :
    let after := (p.perform ⟨.applyRetention now maxAge maxPartitionBytes, faults⟩).2
    (∀ s' ∈ after.store, InStep s s' after.directory) ∧
      ∀ config, SoundCall past p ⟨.openStore config, []⟩ →
        Reopens after.directory s.logEndOffset (after.perform ⟨.openStore config, []⟩) := by
  obtain ⟨J, log, alive, sound⟩ := sound_run run
  have tracks := sound.tracks
  cases tracks with
  | stopped => cases opened
  | broken _ _ broken =>
    cases opened
    exact absurd broken.writeFailed (by simp [running])
  | @running s' d _ represents =>
    cases opened
    let holds (after : Partition) : Prop := (∀ s' ∈ after.store, InStep s s' after.directory) ∧
      ∀ config, SoundCall past ⟨some s, d⟩ ⟨.openStore config, []⟩ →
        Reopens after.directory s.logEndOffset (after.perform ⟨.openStore config, []⟩)
    have reopens : ∀ J' store d', J.Drops J' → Laid (crashPolicy (largest past)) J' d' → ∀ config,
        SoundCall past ⟨some s, d⟩ ⟨.openStore config, []⟩ →
        Reopens d' s.logEndOffset (Partition.perform ⟨store, d'⟩ ⟨.openStore config, []⟩) := by
      intro J' store d' drops laid config call
      rw [represents.logEndOffset]
      exact sound.opens call laid drops.logEnd drops.subset store
    have returned : ∀ s' d', (∃ J', J.Drops J' ∧ Represents (largest past) J' s' d' ∧
        ∃ count, Trims anything count s d s' d') → holds ⟨some s', d'⟩ := by
      rintro s' d' ⟨J', drops, after, count, trims⟩
      refine ⟨?_, reopens J' _ d' drops (after.laid (le_refl _))⟩
      rintro _ ⟨⟩
      exact represents.inStep after trims
    refine @settled anything s d faults Unit (applyRetention now maxAge maxPartitionBytes)
      (fun _ => .done) (fun _ after => holds after) (fun _ _ => trivial) ?_
    refine (meets_retention represents (le_refl (crashPolicy (largest past)).limit) now maxAge
      maxPartitionBytes).mono
      (fun _ => returned) (fun _ => returned) ?_
    rintro d' ⟨J', drops, laid⟩
    exact ⟨fun _ nothing => (by cases nothing), reopens J' _ d' drops laid⟩

/-- The index file of the segment that retention deletes cannot be removed. -/
theorem retention_agrees_orphan :
    let config : Config := ⟨60, 1000, 10, .async⟩
    let history := execute Partition.perform [] Partition.new
      [⟨.openStore config, []⟩, ⟨.append 5000000 [⟨none, some [97], [], 0⟩], []⟩,
       ⟨.append 6000000 [⟨none, some [98], [], 0⟩], []⟩]
    let result := history.2.perform ⟨.applyRetention 7000000 0 0, [.pass, .fail 0]⟩
    result.1 = .failed (.retention 1) ∧ ∃ s, history.2.store = some s ∧ s.segments.length = 2 ∧
      (∀ s' ∈ result.2.store, InStep s s' result.2.directory) ∧
      Reopens result.2.directory s.logEndOffset (result.2.perform ⟨.openStore config, []⟩) := by
  intro config history
  have started : history.2.store.isSome := by decide +kernel
  have facts : ∀ s ∈ history.2.store, s.segments.length = 2 ∧ s.writeFailed = false := by
    decide +kernel
  obtain ⟨s, opened⟩ := Option.isSome_iff_exists.mp started
  obtain ⟨two, running⟩ := facts s opened
  have run : Run Partition.perform SoundCall Partition.new history.1 history.2 :=
    run_execute .start (by decide +kernel)
  have allowed : SoundCall history.1 history.2 ⟨.openStore config, []⟩ := by decide +kernel
  have failed : (history.2.perform ⟨.applyRetention 7000000 0 0, [.pass, .fail 0]⟩).1 =
      .failed (.retention 1) := by
    decide +kernel
  obtain ⟨agrees, reopens⟩ := retention_agrees run opened running 7000000 0 0 [.pass, .fail 0]
  exact ⟨failed, s, opened, two, agrees, reopens config allowed⟩

/-- The append that rolls the log over fails after the new log file was made. The store knows
    nothing of that file, and a retention pass leaves it. -/
theorem retention_disagrees :
    let history := execute Partition.perform [] Partition.new
      [⟨.openStore ⟨60, 1000, 10, .async⟩, []⟩, ⟨.append 5000000 [⟨none, some [97], [], 0⟩], []⟩,
       ⟨.append 6000000 [⟨none, some [98], [], 0⟩], [.pass, .pass, .pass, .fail 0]⟩]
    let result := history.2.perform ⟨.applyRetention 7000000 0 0, []⟩
    Run Partition.perform SoundCall Partition.new history.1 history.2 ∧ result.1 = .done ∧
      ∃ s s', history.2.store = some s ∧ s.closed = false ∧ result.2.store = some s' ∧
        ¬ InStep s s' result.2.directory := by
  intro history result
  have started : history.2.store.isSome ∧ result.2.store.isSome := by decide +kernel
  have opened' : ∀ s ∈ history.2.store, s.closed = false := by decide +kernel
  have none' : ∀ s' ∈ result.2.store, ∀ seg ∈ s'.segments, seg.baseOffset ≠ 1 := by decide +kernel
  have left : (result.2.directory.file? (.log 1)).isSome := by decide +kernel
  obtain ⟨s, opened⟩ := Option.isSome_iff_exists.mp started.1
  obtain ⟨s', after⟩ := Option.isSome_iff_exists.mp started.2
  refine ⟨run_execute .start (by decide +kernel), by decide +kernel, s, s', opened,
    opened' s opened, after, ?_⟩
  intro agrees
  obtain ⟨seg, member, base⟩ := (agrees.logs 1).mp (Option.isSome_iff_ne_none.mp left)
  exact none' s' after seg member base

end Retention

end MessageBroker.Storage
