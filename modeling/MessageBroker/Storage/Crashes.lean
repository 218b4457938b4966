import MessageBroker.Lib.Lifetimes
import MessageBroker.Storage.FailedAppend
import MessageBroker.Storage.Refinement

namespace MessageBroker.Storage

open Faulty Runs Lifetimes

def anything : Fault → Prop := fun _ => True

/-- The next call of a run under one configuration, on a disk that may fail at any point. -/
def CrashCall (config : Config) (_ : List Event) (p : Partition) (step : Step) : Prop :=
  match step.action with
  | .openStore other => other = config
  | .append _ records => ∀ s ∈ p.store, s.logEndOffset + records.length < 2 ^ 64
  | _ => True

instance (config : Config) (past : List Event) (p : Partition) :
    ∀ step, Decidable (CrashCall config past p step)
  | ⟨.openStore other, _⟩ => inferInstanceAs (Decidable (other = config))
  | ⟨.append _ records, _⟩ =>
    inferInstanceAs (Decidable (∀ s ∈ p.store, s.logEndOffset + records.length < 2 ^ 64))
  | ⟨.read _ _, _⟩ | ⟨.applyRetention _ _ _, _⟩ | ⟨.closeStore, _⟩ =>
    inferInstanceAs (Decidable True)

theorem written_of_pending {event : Event} {b : Batch} (pending : pendingBy event = some b) :
    writtenBy event = none := by
  obtain ⟨p, ⟨action, faults⟩, outcome, p'⟩ := event
  cases action with
  | append =>
    cases outcome with
    | appended => cases pending
    | _ => rfl
  | _ => rfl

/-- A process starts when it has opened the store; its appends are the entries of the log. -/
def batchLedger : Ledger Event Batch where
  opens := fun event => event.outcome = .opened
  acknowledges := writtenBy
  attempts := pendingBy
  exclusive := fun _ _ => written_of_pending
  opening := by
    intro event opened
    unfold writtenBy pendingBy
    rw [opened]
    cases event.input.action <;> exact ⟨rfl, rfl⟩

def Action.isRetention : Action → Bool
  | .applyRetention _ _ _ => true
  | _ => false

/-- The log starts at zero before the first retention pass, and then with the first of the log files
    that the last pass has left, however that pass ended. -/
structure StartsAt (past : List Event) (start : Nat) : Prop where
  first : (∀ event ∈ past, event.input.action.isRetention = false) → start = 0
  last : ∀ before event after, past = before ++ event :: after →
    (∀ later ∈ after, later.input.action.isRetention = false) →
    event.after.directory.FirstLog start ∧ ∀ s ∈ event.after.store, s.earliestOffset = start

/-- What a process finds that opens the partition after the history: every acknowledged record at
    the offset it was acknowledged for, and nothing but whole batches. -/
structure Recovered (past : List Event) (reopened : Outcome × Partition) : Prop where
  opened : reopened.1 = .opened
  exposes : ∃ s log alive, reopened.2.store = some s ∧ Survivors batchLedger past log alive ∧
    s.logEndOffset = (storedFrom 0 log).length ∧ s.earliestOffset ≤ s.logEndOffset ∧
    StartsAt past s.earliestOffset ∧
    (∀ r ∈ acknowledged past, (storedFrom 0 log)[r.offset]? = some r) ∧
    ∀ offset maxBytes, s.earliestOffset ≤ offset → offset ≤ s.logEndOffset → 0 < maxBytes →
      (reopened.2.perform ⟨.read offset maxBytes, []⟩).1 =
        .found (greedy maxBytes ((storedFrom 0 log).drop offset))

section Accounts

variable {allowed : Fault → Prop} {P : Policy} {settings : Config → Prop} {past : List Event}
  {event : Event} {p : Partition} {J J' : Journal} {log : List Batch} {alive : Bool}

/-- The history accounts for the partition's journal. -/
structure Accounts (past : List Event) (p : Partition) (J : Journal) (log : List Batch)
    (alive : Bool) : Prop where
  survivors : Survivors batchLedger past log alive
  batches : ∃ gone, log = gone ++ J.batches ∧ J.floor = span gone
  alive : ∀ s ∈ p.store, s.writeFailed = false → alive = true
  records : ∀ r ∈ acknowledged past, (storedFrom 0 log)[r.offset]? = some r
  starts : StartsAt past J.floor

theorem Moves.running (moves : Moves allowed event.before J event.input.action event.outcome J')
    (nonempty : writtenBy event ≠ none ∨ pendingBy event ≠ none) :
    ∃ s ∈ event.before.store, s.writeFailed = false := by
  obtain ⟨p, ⟨action, faults⟩, outcome, p'⟩ := event
  have nothing : writtenOf action outcome = none → pendingOf action outcome = none →
      ∃ s ∈ p.store, s.writeFailed = false := fun left right => by
    rcases nonempty with nonempty | nonempty
    · exact absurd left nonempty
    · exact absurd right nonempty
  cases moves with
  | appended opened running _ _ => exact ⟨_, opened, running⟩
  | appendFailed _ _ opened running _ => exact ⟨_, opened, running⟩
  | appendDied _ opened running _ => exact ⟨_, opened, running⟩
  | @rejected now records reason notIo =>
    refine nothing rfl ?_
    cases reason with
    | io operation => exact absurd rfl (notIo operation)
    | _ => rfl
  | retained _ _ => exact nothing rfl rfl
  | closed _ => exact nothing rfl rfl
  | noStore _ _ _ => exact nothing (by cases action <;> rfl) (by cases action <;> rfl)
  | _ => exact nothing rfl rfl

theorem Moves.floor (moves : Moves allowed event.before J event.input.action event.outcome J')
    (stays : event.input.action.isRetention = false) : J'.floor = J.floor := by
  obtain ⟨p, ⟨action, faults⟩, outcome, p'⟩ := event
  cases moves with
  | appended _ _ _ _ => exact J.push_floor _ _
  | appendFailed _ _ _ _ reaches => exact reaches.effect.1
  | appendDied _ _ _ reaches => exact reaches.effect.1
  | retained _ _ => cases stays
  | _ => rfl

theorem StartsAt.step (starts : StartsAt past J.floor)
    (moves : Moves allowed event.before J event.input.action event.outcome J')
    (tracks : Tracks allowed P settings J' event.after) : StartsAt (past ++ [event]) J'.floor := by
  refine ⟨?_, ?_⟩
  · intro nothing
    rw [moves.floor (nothing event (by simp))]
    exact starts.first fun earlier member => nothing earlier (List.mem_append_left _ member)
  · intro before other after split nothing
    rcases List.eq_nil_or_concat after with rfl | ⟨init, last, rfl⟩
    · obtain ⟨_, same⟩ := List.append_inj' split rfl
      cases same
      exact ⟨tracks.holds.firstLog, fun s opened => (tracks.offsets opened).2⟩
    · rw [List.concat_eq_append] at split nothing
      obtain ⟨front, same⟩ :=
        List.append_inj' (show past ++ [event] = (before ++ other :: init) ++ [last] by
        rw [split, List.append_assoc]; rfl) rfl
      cases same
      rw [moves.floor (nothing event (by simp))]
      exact starts.last before other init front
        fun later member => nothing later (List.mem_append_left _ member)

/-- What the history says is acknowledged stands in the log at the offsets it was acknowledged
    for. -/
theorem records_step {added : List Batch} (logged : span log = J.logEnd)
    (records : ∀ r ∈ acknowledged past, (storedFrom 0 log)[r.offset]? = some r)
    (moves : Moves allowed event.before J event.input.action event.outcome J') (valid : J'.Valid)
    (adds : Adds allowed event added) (r : StoredRecord)
    (member : r ∈ acknowledged (past ++ [event])) :
    (storedFrom 0 (log ++ added))[r.offset]? = some r := by
  rw [storedFrom_append, Nat.zero_add, logged]
  rw [acknowledged_append, moves.acknowledged] at member
  rcases List.mem_append.mp member with member | member
  · have found := records r member
    rw [List.getElem?_append_left (List.getElem?_eq_some_iff.mp found).1]
    exact found
  · have same : added = (writtenBy event).toList := by
      rcases adds with same | ⟨_, b, pending, _⟩
      · exact same
      · rw [written_of_pending pending] at member
        cases member
    obtain ⟨i, inside, found⟩ := List.getElem_of_mem member
    have place := storedFrom_consecutive (moves.written_valid valid) i r
      (by rw [List.getElem?_eq_getElem inside, found])
    rw [same, place, List.getElem?_append_right (by rw [storedFrom_length, logged]; omega),
      storedFrom_length, logged, Nat.add_sub_cancel_left, List.getElem?_eq_getElem inside, found]

theorem survivors_step {added : List Batch} (accounts : Accounts past event.before J log alive)
    (moves : Moves allowed event.before J event.input.action event.outcome J')
    (adds : Adds allowed event added)
    (lives : Lives event.before event.input.action event.outcome event.after) :
    ∃ alive', Survivors batchLedger (past ++ [event]) (log ++ added) alive' ∧
      ∀ s ∈ event.after.store, s.writeFailed = false → alive' = true := by
  have goesOn : writtenBy event ≠ none ∨ pendingBy event ≠ none → alive = true := by
    intro nonempty
    obtain ⟨s, isOpen, running⟩ := moves.running nonempty
    exact accounts.alive s isOpen running
  obtain ⟨alive', survivors, living⟩ := accounts.survivors.step (adds.imp id And.right) goesOn
  refine ⟨alive', survivors, fun s isOpen running => living ?_⟩
  rcases lives s isOpen running with opened | ⟨nothing, earlier, opened', running'⟩
  · exact Or.inl opened
  · exact Or.inr ⟨nothing, accounts.alive earlier opened' running'⟩

theorem Accounts.step (accounts : Accounts past event.before J log alive)
    (moves : Moves allowed event.before J event.input.action event.outcome J')
    (tracks : Tracks allowed P settings J' event.after)
    (lives : Lives event.before event.input.action event.outcome event.after) :
    ∃ log' alive', Accounts (past ++ [event]) event.after J' log' alive' := by
  obtain ⟨gone', added, adds, batches', floor'⟩ := moves.effect
  obtain ⟨gone, batches, floor⟩ := accounts.batches
  have logged : span log = J.logEnd := by rw [batches, span_append, Journal.logEnd, floor]
  obtain ⟨alive', survivors, running⟩ := survivors_step accounts moves adds lives
  refine ⟨log ++ added, alive', survivors, ⟨gone ++ gone', ?_, ?_⟩, running, ?_,
    accounts.starts.step moves tracks⟩
  · rw [batches, List.append_assoc, batches', List.append_assoc]
  · rw [floor', floor, span_append]
  · exact fun r member =>
      records_step logged accounts.records moves tracks.holds.valid adds r member

end Accounts

section Recovery

variable {config : Config} {past : List Event} {p : Partition} {J : Journal} {log : List Batch}
  {alive : Bool}

/-- The journal behind a run in which anything may fail. -/
def CrashState (config : Config) (past : List Event) (p : Partition) : Prop :=
  ∃ J log alive, Tracks anything (crashPolicy config.maxBatchBytes) (· = config) J p ∧
    Accounts past p J log alive

theorem crashState_new (config : Config) : CrashState config [] Partition.new := by
  refine ⟨Journal.initial, [], false, .stopped (Or.inr ⟨rfl, fresh_empty⟩), .start, ⟨[], rfl, rfl⟩,
    ?_, ?_, ?_, ?_⟩
  · exact fun _ nothing => by cases nothing
  · exact fun _ member => absurd member List.not_mem_nil
  · exact fun _ => rfl
  · exact fun _ _ _ split => absurd split (by simp)

theorem CrashState.follows {step : Step} (small : config.maxBatchBytes < 2 ^ 31)
    (state : CrashState config past p) (call : CrashCall config past p step) :
    CrashState config (past ++ [happen Partition.perform p step]) (p.perform step).2 := by
  obtain ⟨J, log, alive, tracks, accounts⟩ := state
  have fits : Fitting (crashPolicy config.maxBatchBytes) (· = config) p step.action := by
    obtain ⟨action, faults⟩ := step
    cases action with
    | openStore other => exact ⟨call, by rw [show other = config from call]; exact le_refl _⟩
    | append now records => exact call
    | _ => trivial
  obtain ⟨J', moves, tracks', lives⟩ := tracks.perform (fun _ _ _ torn => torn)
    (tracks.admits small (fun other same => by rw [same]; exact le_refl _) _) (fun _ _ => trivial)
    fits
  have accounted :
      ∃ log' alive',
        Accounts (past ++ [happen Partition.perform p step]) (p.perform step).2 J' log' alive' :=
    accounts.step moves tracks' lives
  obtain ⟨log', alive', accounts'⟩ := accounted
  exact ⟨J', log', alive', tracks', accounts'⟩

/-- Whatever failed before, an open store that is not poisoned has the files of its active
    segment. -/
theorem attached_run (small : config.maxBatchBytes < 2 ^ 31)
    (run : Run Partition.perform (CrashCall config) Partition.new past p)
    {s : Store} (opened : p.store = some s) (healthy : s.writeFailed = false) :
    Attached s p.directory := by
  obtain ⟨J, log, alive, tracks, _⟩ : CrashState config past p :=
    run.invariant (crashState_new config) fun _ _ _ state call => state.follows small call
  exact tracks.attached opened healthy

theorem writtenOf_append {action : Action} {outcome : Outcome} {b : Batch}
    (made : writtenOf action outcome = some b) :
    ∃ now records, action = .append now records ∧ b = ⟨unixMilli now, records⟩ := by
  unfold writtenOf at made
  split at made
  · cases made
    exact ⟨_, _, rfl, rfl⟩
  · cases made

theorem pendingOf_append {action : Action} {outcome : Outcome} {b : Batch}
    (made : pendingOf action outcome = some b) :
    ∃ now records, action = .append now records ∧ b = ⟨unixMilli now, records⟩ := by
  unfold pendingOf at made
  split at made
  · cases made
    exact ⟨_, _, rfl, rfl⟩
  · cases made
    exact ⟨_, _, rfl, rfl⟩
  · cases made

/-- Every batch in the log is one that some append was called with. -/
theorem survivors_appended (survivors : Survivors batchLedger past log alive) {b : Batch}
    (member : b ∈ log) :
    ∃ event ∈ past,
      ∃ now records, event.input.action = .append now records ∧ b = ⟨unixMilli now, records⟩ := by
  obtain ⟨event, present, written | pending⟩ := survivors.origin member
  · exact ⟨event, present, writtenOf_append written⟩
  · exact ⟨event, present, pendingOf_append pending⟩

/-- Whatever failed and whenever the processes died, the next process that meets a healthy disk
    finds the acknowledged records and at most one more batch from each lifetime, all of it. -/
theorem crash_recovery (small : config.maxBatchBytes < 2 ^ 31)
    (run : Run Partition.perform (CrashCall config) Partition.new past p)
    (stamped : ∀ event ∈ past, event.input.action.stamp ≠ some (-2 ^ 63)) :
    Recovered past (p.perform ⟨.openStore config, []⟩) := by
  obtain ⟨J, log, alive, tracks, accounts⟩ : CrashState config past p :=
    run.invariant (crashState_new config) fun _ _ _ state call => state.follows small call
  obtain ⟨gone, batches, floor⟩ := accounts.batches
  have readable : ∀ b ∈ J.batches, b.Readable := by
    intro b member
    obtain ⟨event, present, now, records, action, rfl⟩ :=
      survivors_appended (b := b) accounts.survivors
        (by rw [batches]; exact List.mem_append_right _ member)
    intro least
    exact stamped event present (by rw [action]; exact congrArg some least)
  have logged : span log = J.logEnd := by rw [batches, span_append, Journal.logEnd, floor]
  obtain ⟨s, d', opened, represents, _, closed, running⟩ := tracks.holds.opens (le_refl _) readable
  have earliest := represents.earliestOffset
  have logEnd := represents.logEndOffset
  show Recovered past (settleOpen (openStore config ⟨(), p.directory, []⟩))
  rw [opened]
  refine ⟨rfl, s, log, alive, rfl, accounts.survivors, ?_, ?_, ?_, accounts.records, ?_⟩
  · rw [logEnd, storedFrom_length, logged]
  · rw [logEnd, earliest]
    exact Nat.le_add_right _ _
  · rw [earliest]
    exact accounts.starts
  · intro offset maxBytes low high positive
    rw [earliest] at low
    rw [logEnd] at high
    rw [J.drop_log batches floor low]
    exact represents.read_finds ⟨closed, running⟩ readable positive low high

/-- A retention pass dies behind the removal of the first log, and the next process in the middle of
    a write. -/
theorem crash_recovery_torn :
    let config : Config := ⟨60, 1000, 10, .sync⟩
    let append (byte : UInt8) (faults : List Fault) : Step :=
      ⟨.append 5000000 [⟨none, some [byte], [], 0⟩], faults⟩
    let history := execute Partition.perform [] Partition.new
      [⟨.openStore config, []⟩, append 97 [], append 98 [],
        ⟨.applyRetention 9000000 0 0, [.pass, .die 0]⟩,
       ⟨.openStore config, []⟩, append 99 [.die 20]]
    let reopened := history.2.perform ⟨.openStore config, []⟩
    (reopened.2.store.map fun s => (s.earliestOffset, s.logEndOffset)) = some (1, 2) ∧
      Recovered history.1 reopened :=
  ⟨by decide +kernel,
    crash_recovery (by decide) (run_execute .start (by decide +kernel)) (by decide +kernel)⟩

/-- A batch stamped with the least `int64` is acknowledged, and no process can open the log
    again. -/
theorem crash_recovery_fails :
    let config : Config := ⟨1000, 1000, 10, .sync⟩
    let history := execute Partition.perform [] Partition.new
      [⟨.openStore config, []⟩, ⟨.append (-2 ^ 63 * 1000000) [⟨none, some [97], [], 0⟩], []⟩]
    Run Partition.perform (CrashCall config) Partition.new history.1 history.2 ∧
      acknowledged history.1 = [⟨0, -2 ^ 63, none, some [97], []⟩] ∧
      ¬ Recovered history.1 (history.2.perform ⟨.openStore config, []⟩) :=
  ⟨run_execute .start (by decide +kernel), by decide +kernel,
    fun recovered => absurd recovered.opened (by decide +kernel)⟩

end Recovery

end MessageBroker.Storage
