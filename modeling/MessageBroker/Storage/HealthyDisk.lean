import MessageBroker.Configuration
import MessageBroker.Storage.Refinement

namespace MessageBroker.Storage

open Faulty Runs

/-- The next call of a run under one configuration on a healthy disk. -/
def QuietCall (config : Config) (_ : List Event) (p : Partition) (step : Step) : Prop :=
  step.faults = [] ∧
    match step.action with
    | .openStore other => other = config
    | .append _ records => ∀ s ∈ p.store, s.logEndOffset + records.length < 2 ^ 64
    | _ => True

instance (config : Config) (past : List Event) (p : Partition) :
    ∀ step, Decidable (QuietCall config past p step)
  | ⟨.openStore other, faults⟩ => inferInstanceAs (Decidable (faults = [] ∧ other = config))
  | ⟨.append _ records, faults⟩ =>
    inferInstanceAs
      (Decidable (faults = [] ∧ ∀ s ∈ p.store, s.logEndOffset + records.length < 2 ^ 64))
  | ⟨.read _ _, faults⟩ | ⟨.applyRetention _ _ _, faults⟩ | ⟨.closeStore, faults⟩ =>
    inferInstanceAs (Decidable (faults = [] ∧ True))

/-- No segment of this size holds so many records that the next batch is out of its index's
    reach. -/
def segmentBytesBound : Int := 24 * 2 ^ 32 + 90

section Count

variable {J : Journal} {b : Batch} {base : Nat} {batches : List Batch} {segmentMaxBytes : Int}

theorem layout_count (valid : ValidFrom base batches) (nonempty : batches ≠ []) :
    33 + 24 * span batches ≤ (layout base batches).length := by
  induction batches generalizing base with
  | nil => exact absurd rfl nonempty
  | cons b rest ih =>
    obtain ⟨first, later⟩ := valid
    have length := b.bytes_length first
    have count := b.count_le first.someRecord
    show _ ≤ (b.bytes base ++ layout (base + b.records.length) rest).length
    rw [List.length_append, length, span_cons]
    by_cases last : rest = []
    · rw [last, span_nil]
      omega
    · have more := ih later last
      omega

/-- Below the bound a batch that fits into the active segment is in reach of its index. -/
theorem Journal.Valid.near (valid : J.Valid) (bound : segmentMaxBytes < segmentBytesBound)
    (nonempty : b.records ≠ []) (stays : ¬ J.Rolls segmentMaxBytes b.size) :
    span J.active ≤ maxUint32 := by
  by_cases nothing : J.active = []
  · rw [nothing, span_nil]
    exact Nat.zero_le _
  · have filled := layout_count (valid.extents _ J.active_mem).batches nothing
    have least := b.count_le nonempty
    have one := List.length_pos_iff.mpr nonempty
    unfold segmentBytesBound at bound
    unfold Journal.Rolls at stays
    change 33 + 24 * span J.active ≤ J.activeExtent.bytes.length at filled
    unfold maxUint32
    omega

end Count

section Quiet

variable {config : Config} {past : List Event} {p : Partition} {step : Step} {J : Journal}
  {s : Store} {d : Directory} {limit : Int} {now : Instant} {records : List Record}

/-- On a healthy disk a store below the bound refuses a batch or writes it. -/
theorem Represents.append_quiet (represents : Represents limit J s d)
    (within : s.config.maxBatchBytes ≤ limit) (small : limit < 2 ^ 31)
    (bound : s.config.segmentMaxBytes < segmentBytesBound)
    (room : J.logEnd + records.length < 2 ^ 64) :
    (∃ reason, Refused s ⟨unixMilli now, records⟩ reason ∧
        Partition.perform ⟨some s, d⟩ ⟨.append now records, []⟩ = (.failed reason, ⟨some s, d⟩)) ∨
      ∃ s' d', Partition.perform ⟨some s, d⟩ ⟨.append now records, []⟩ =
          (.appended J.logEnd (J.logEnd + records.length - 1), ⟨some s', d'⟩) ∧
        Represents limit (J.push s.config.segmentMaxBytes ⟨unixMilli now, records⟩) s' d' ∧
          Keeps s s' := by
  have quiet : ∀ fault ∈ ([] : List Fault), never fault := by simp
  refine settled (fun outcome after =>
    (∃ reason, Refused s ⟨unixMilli now, records⟩ reason ∧
      (outcome, after) = (.failed reason, ⟨some s, d⟩)) ∨
      ∃ s' d', (outcome, after) = (.appended J.logEnd (J.logEnd + records.length - 1),
        ⟨some s', d'⟩) ∧
        Represents limit (J.push s.config.segmentMaxBytes ⟨unixMilli now, records⟩) s' d' ∧
          Keeps s s') quiet ?_
  refine meets_append (P := quietPolicy limit) (b := ⟨unixMilli now, records⟩) represents
    (le_refl _) (fun shaky => absurd shaky not_shaky_never) ?_ rfl room ?_ ?_ ?_ ?_ ?_
  · intro takes
    have size := takes.2.2.2
    exact ⟨by omega, by omega⟩
  · exact fun reason refused => Or.inl ⟨reason, refused, rfl⟩
  · exact fun takes stays far => absurd far (not_lt.mpr (represents.valid.near bound takes.1 stays))
  · exact fun _ _ _ _ s' d' after keeps _ => Or.inr ⟨s', d', rfl, after, keeps⟩
  · exact fun _ shaky => absurd shaky not_shaky_never
  · exact fun _ shaky => absurd shaky not_shaky_never

def QuietState (config : Config) (p : Partition) : Prop :=
  ∃ J, Tracks never (quietPolicy config.maxBatchBytes) (· = config) J p ∧
    ∀ s ∈ p.store, s.writeFailed = false

theorem quietState_running (represents : Represents config.maxBatchBytes J s d)
    (setting : s.config = config) (running : s.writeFailed = false) :
    QuietState config ⟨some s, d⟩ := by
  refine ⟨J, .running setting represents, ?_⟩
  rintro _ ⟨⟩
  exact running

theorem QuietState.open_ (state : QuietState config p) :
    QuietState config (p.perform ⟨.openStore config, []⟩).2 := by
  obtain ⟨J, tracks, _⟩ := state
  have quiet : ∀ fault ∈ ([] : List Fault), never fault := by simp
  refine settledOpen (fun _ after => QuietState config after) quiet
    (meets_openStore tracks.holds (le_refl _) ?_ ?_ ?_)
  · exact fun s d' represents setting _ running => quietState_running represents setting running
  · exact fun _ _ d' after => ⟨J, .stopped after, fun _ nothing => by cases nothing⟩
  · exact fun shaky => absurd shaky not_shaky_never

section Calls

variable (represents : Represents config.maxBatchBytes J s d) (setting : s.config = config)
  (running : s.writeFailed = false)

include represents setting running

theorem quietState_read (offset : Nat) (maxBytes : Int) :
    QuietState config (Partition.perform ⟨some s, d⟩ ⟨.read offset maxBytes, []⟩).2 := by
  have quiet : ∀ fault ∈ ([] : List Fault), never fault := by simp
  have same : QuietState config ⟨some s, d⟩ := quietState_running represents setting running
  exact settled (fun _ after => QuietState config after) quiet
    (meets_read represents (fun _ _ => same)
    (fun _ _ _ _ _ => same) (fun _ _ => same) (fun shaky => absurd shaky not_shaky_never))

theorem quietState_applyRetention (now : Instant) (maxAge : Int) (maxPartitionBytes : Nat) :
    QuietState config
      (Partition.perform ⟨some s, d⟩ ⟨.applyRetention now maxAge maxPartitionBytes, []⟩).2 := by
  have quiet : ∀ fault ∈ ([] : List Fault), never fault := by simp
  refine settled (fun _ after => QuietState config after) quiet
    (meets_applyRetention (P := quietPolicy config.maxBatchBytes) represents (le_refl _) ?_ ?_ ?_
      ?_)
  · exact fun _ => quietState_running represents setting running
  · exact fun _ _ J' s' d' _ after keeps =>
      quietState_running after (keeps.config.trans setting) (keeps.writeFailed.trans running)
  · exact fun shaky => absurd shaky not_shaky_never
  · exact fun shaky => absurd shaky not_shaky_never

theorem quietState_closeStore :
    QuietState config (Partition.perform ⟨some s, d⟩ ⟨.closeStore, []⟩).2 := by
  have quiet : ∀ fault ∈ ([] : List Fault), never fault := by simp
  have after : ∀ s' d', Closes s s' → Flushed d d' → QuietState config ⟨some s', d'⟩ :=
    fun s' d' closes flushed =>
    quietState_running ((represents.sameSegments flushed.sameSegments).closes closes)
      (closes.config.trans setting) (closes.writeFailed.trans running)
  exact settled (fun _ after => QuietState config after) quiet
    (meets_closeStore after (fun _ => after) (fun shaky => absurd shaky not_shaky_never))

theorem quietState_append (small : config.maxBatchBytes < 2 ^ 31)
    (bound : config.segmentMaxBytes < segmentBytesBound)
    (room : s.logEndOffset + records.length < 2 ^ 64) :
    QuietState config (Partition.perform ⟨some s, d⟩ ⟨.append now records, []⟩).2 := by
  rw [represents.logEndOffset] at room
  rcases @Represents.append_quiet J s d _ now records represents (le_of_eq (by rw [setting])) small
    (by rw [setting]; exact bound) room with ⟨_, _, ran⟩ | ⟨s', d', ran, after, keeps⟩
  · rw [ran]
    exact quietState_running represents setting running
  · rw [ran]
    exact quietState_running after (keeps.config.trans setting) (keeps.writeFailed.trans running)

end Calls

theorem QuietState.cases (state : QuietState config p) : p.store = none ∨
    ∃ J s, p.store = some s ∧ Represents config.maxBatchBytes J s p.directory ∧
      s.config = config ∧ s.writeFailed = false := by
  obtain ⟨J, tracks, running⟩ := state
  cases tracks with
  | stopped => exact Or.inl rfl
  | @running s d setting represents => exact Or.inr ⟨J, s, rfl, represents, setting, running s rfl⟩
  | broken _ shaky _ => exact absurd shaky not_shaky_never

theorem QuietState.follows (small : config.maxBatchBytes < 2 ^ 31)
    (bound : config.segmentMaxBytes < segmentBytesBound) (state : QuietState config p)
    (call : QuietCall config past p step) : QuietState config (p.perform step).2 := by
  obtain ⟨action, faults⟩ := step
  obtain ⟨rfl, call⟩ := call
  obtain ⟨store, d⟩ := p
  rcases state.cases with nothing | ⟨J, s, opened, represents, setting, running⟩
  · cases nothing
    cases action with
    | openStore other =>
      rw [show other = config from call]
      exact state.open_
    | _ => exact state
  · cases opened
    cases action with
    | openStore other =>
      rw [show other = config from call]
      exact state.open_
    | append now records =>
      exact quietState_append represents setting running small bound (call s rfl)
    | read offset maxBytes => exact quietState_read represents setting running offset maxBytes
    | applyRetention now maxAge maxPartitionBytes =>
      exact quietState_applyRetention represents setting running now maxAge maxPartitionBytes
    | closeStore => exact quietState_closeStore represents setting running

/-- On a healthy disk no store refuses to go on, and an open one takes every batch within its
    limit. -/
theorem healthy_never_poisons {cfg : Configuration.StorageConfig}
    (loaded : Configuration.loadStorage cfg = .ok config)
    (bound : cfg.segmentMaxBytes < segmentBytesBound) (small : cfg.maxBatchBytes < 2 ^ 31)
    (run : Run Partition.perform (QuietCall config) Partition.new past p) :
    ∀ s ∈ p.store, s.writeFailed = false ∧
      (s.closed = false →
        ∀ now records encoded, records ≠ [] → s.logEndOffset + records.length < 2 ^ 64 →
        encodeBatch (stampRecords s.logEndOffset (unixMilli now) records) = some encoded →
        encoded.length ≤ config.maxBatchBytes →
        (p.perform ⟨.append now records, []⟩).1 =
          .appended s.logEndOffset (s.logEndOffset + records.length - 1)) := by
  obtain ⟨segment, batch, _⟩ := Configuration.loadStorage_ok loaded
  rw [← segment] at bound
  rw [← batch] at small
  have fresh : QuietState config Partition.new :=
    ⟨Journal.initial, .stopped (Or.inr ⟨rfl, fresh_empty⟩), fun _ nothing => by cases nothing⟩
  have state : QuietState config p :=
    @Run.invariant _ _ _ _ _ _ _ _ (fun _ p => QuietState config p) run fresh
      fun _ _ _ state call => state.follows small bound call
  intro s opened
  rcases state.cases with nothing | ⟨J, s', opened', represents, setting, running⟩
  · rw [nothing] at opened
    cases opened
  obtain ⟨store, d⟩ := p
  cases opened
  cases opened'
  refine ⟨running, fun closed now records encoded nonempty room encodes fits => ?_⟩
  rw [represents.logEndOffset] at room encodes ⊢
  obtain ⟨same, length⟩ := @Batch.encode_stored ⟨unixMilli now, records⟩ J.logEnd nonempty
  rw [← Option.some.inj (same.symm.trans encodes), length] at fits
  rcases @Represents.append_quiet J s d _ now records represents (le_of_eq (by rw [setting])) small
    (by rw [setting]; exact bound) room with ⟨reason, refused, _⟩ | ⟨s', d', ran, _⟩
  · exact absurd ⟨nonempty, closed, running, by rw [setting]; exact fits⟩ refused.not_takes
  · rw [ran]

/-- The defaults: a batch is taken after a restart and a retention pass. -/
theorem healthy_never_poisons_default :
    let config : Config := ⟨134217728, 5242880, 4096, .sync⟩
    let history := execute Partition.perform [] Partition.new
      [⟨.openStore config, []⟩, ⟨.append 5000000 [⟨none, some [97], [], 0⟩], []⟩,
        ⟨.openStore config, []⟩,
       ⟨.applyRetention 6000000 0 0, []⟩]
    ∃ s, history.2.store = some s ∧ s.writeFailed = false ∧
      (history.2.perform ⟨.append 7000000 [⟨none, some [98], [], 0⟩], []⟩).1 = .appended 1 1 := by
  intro config history
  have started : history.2.store.isSome := by decide +kernel
  have facts : ∀ s ∈ history.2.store, s.closed = false ∧ s.logEndOffset = 1 := by decide +kernel
  obtain ⟨s, opened⟩ := Option.isSome_iff_exists.mp started
  obtain ⟨closed, logEnd⟩ := facts s opened
  have run : Run Partition.perform (QuietCall config) Partition.new history.1 history.2 :=
    run_execute .start (by decide +kernel)
  obtain ⟨running, takes⟩ :=
    healthy_never_poisons Configuration.loadStorage_default (by decide) (by decide) run s opened
  have appended :=
    takes closed 7000000 [⟨none, some [98], [], 0⟩] (Batch.bytes ⟨7, [⟨none, some [98], [], 0⟩]⟩ 1)
      (by simp)
    (by rw [logEnd]; decide) (by rw [logEnd]; decide +kernel) (by decide +kernel)
  rw [logEnd] at appended
  exact ⟨s, opened, running, appended⟩

end Quiet

/-! ## A segment with too many records -/

section Crowded

variable {config : Config} {J : Journal} {s : Store} {d : Directory} {limit : Int} {now : Instant}
  {records : List Record}

/-- A batch out of the index's reach is not written, and the store refuses to go on. -/
theorem Represents.append_far (represents : Represents limit J s d)
    (within : s.config.maxBatchBytes ≤ limit) (small : limit < 2 ^ 31)
    (takes : s.Takes ⟨unixMilli now, records⟩)
    (stays : ¬ J.Rolls s.config.segmentMaxBytes (Batch.size ⟨unixMilli now, records⟩))
    (far : maxUint32 < span J.active) (room : J.logEnd + records.length < 2 ^ 64) :
    Partition.perform ⟨some s, d⟩ ⟨.append now records, []⟩ =
      (.failed .indexOffsetOverflow, ⟨some { s with writeFailed := true }, d⟩) := by
  have quiet : ∀ fault ∈ ([] : List Fault), never fault := by simp
  refine settled (fun outcome after =>
    (outcome, after) = (.failed .indexOffsetOverflow, ⟨some { s with writeFailed := true }, d⟩))
    quiet ?_
  refine meets_append (P := quietPolicy limit) (b := ⟨unixMilli now, records⟩) represents
    (le_refl _) (fun shaky => absurd shaky not_shaky_never) ?_ rfl room ?_ ?_ ?_ ?_ ?_
  · intro _
    have size := takes.2.2.2
    exact ⟨by omega, by omega⟩
  · exact fun reason refused => absurd takes refused.not_takes
  · exact fun _ _ _ => rfl
  · intro _ _ _ _ s' d' after _ _
    have pushed : J.push s.config.segmentMaxBytes ⟨unixMilli now, records⟩ =
        J.extend ⟨unixMilli now, records⟩ := if_neg stays
    rw [pushed] at after
    have near := (after.valid.extents _ (J.extend _).active_mem).relative J.active ⟨unixMilli now,
      records⟩ [] rfl
    exact absurd far (not_lt.mpr near)
  · exact fun _ shaky => absurd shaky not_shaky_never
  · exact fun _ shaky => absurd shaky not_shaky_never

structure Filled (config : Config) (b : Batch) (count : Nat) (s : Store) (d : Directory)
    (J : Journal) : Prop where
  setting : s.config = config
  closed : s.closed = false
  running : s.writeFailed = false
  represents : Represents config.maxBatchBytes J s d
  span : span J.active = count * b.records.length
  logEnd : J.logEnd = count * b.records.length
  bytes : J.activeExtent.bytes.length = count * b.size
  batches : J.batches = List.replicate count b
  floor : J.floor = 0

theorem Filled.stays {b : Batch} {count : Nat} (filled : Filled config b count s d J)
    (room : ((count + 1) * b.size : Nat) ≤ config.segmentMaxBytes) :
    ¬ J.Rolls s.config.segmentMaxBytes b.size := by
  rintro ⟨_, exceeds⟩
  rw [filled.setting, filled.bytes] at exceeds
  rw [Nat.succ_mul] at room
  push_cast at room exceeds
  omega

theorem filled_run {b : Batch} (stamp : b.time = unixMilli now) (nonempty' : b.records ≠ [])
    (fits : (b.size : Int) ≤ config.maxBatchBytes) (small : config.maxBatchBytes < 2 ^ 31)
    (count : Nat) (reach : count * b.records.length ≤ 2 ^ 32)
    (room : (count * b.size : Nat) ≤ config.segmentMaxBytes) :
    ∃ past s d J, Run Partition.perform (QuietCall config) Partition.new past ⟨some s, d⟩ ∧
      past.map Event.input =
        ⟨.openStore config, []⟩ :: List.replicate count ⟨.append now b.records, []⟩ ∧
      Filled config b count s d J := by
  have one := List.length_pos_iff.mpr nonempty'
  induction count with
  | zero =>
    have holds : Holds (quietPolicy config.maxBatchBytes) Journal.initial Directory.empty :=
      Or.inr ⟨rfl, fresh_empty⟩
    obtain ⟨s, d, opened, represents, setting, closed, running⟩ := holds.opens (le_refl _)
      (fun b member => absurd member List.not_mem_nil)
    have step : Partition.new.perform ⟨.openStore config, []⟩ = (.opened, ⟨some s, d⟩) := opened
    have admitted : QuietCall config [] Partition.new ⟨.openStore config, []⟩ := ⟨rfl, rfl⟩
    refine ⟨_, s, d, Journal.initial, Run.next .start admitted step, rfl, setting, closed, running,
      represents, ?_, ?_, ?_, rfl, rfl⟩
    all_goals
      rw [Nat.zero_mul]
      rfl
  | succ count ih =>
    have reach' := reach
    have room' := room
    rw [Nat.succ_mul] at reach' room'
    push_cast at room'
    obtain ⟨past, s, d, J, run, inputs, filled⟩ := ih (by omega) (by push_cast; omega)
    have stays := filled.stays room
    have pushed : J.push s.config.segmentMaxBytes b = J.extend b := if_neg stays
    have near : span J.active ≤ maxUint32 := by
      rw [filled.span]
      unfold maxUint32
      omega
    obtain ⟨s', d', ran, after, keeps⟩ := filled.represents.appends ⟨filled.closed, filled.running⟩
      (le_of_eq (by rw [filled.setting])) small stamp nonempty' (by rw [filled.setting]; exact fits)
      near (by rw [filled.logEnd]; omega)
    have step : Partition.perform ⟨some s, d⟩ ⟨.append now b.records, []⟩ =
        (.appended J.logEnd (J.logEnd + b.records.length - 1), ⟨some s', d'⟩) := by
      show settle _ (append now b.records ⟨s, d, []⟩) = _
      rw [ran]
      rfl
    have admitted : QuietCall config past ⟨some s, d⟩ ⟨.append now b.records, []⟩ := by
      refine ⟨rfl, ?_⟩
      rintro _ ⟨⟩
      rw [filled.represents.logEndOffset, filled.logEnd]
      omega
    rw [pushed] at after
    refine ⟨_, s', d', J.extend b, run.next admitted step, ?_, keeps.config.trans filled.setting,
      keeps.closed.trans filled.closed, keeps.writeFailed.trans filled.running, after, ?_, ?_, ?_,
      ?_, filled.floor⟩
    · rw [List.map_append, inputs, List.replicate_succ']
      rfl
    · rw [Journal.extend, span_append, filled.span, Nat.succ_mul]
      rfl
    · rw [J.extend_logEnd, filled.logEnd, Nat.succ_mul]
    · rw [J.extend_activeExtent, Extent.extend_bytes, List.length_append, filled.bytes,
        (b.encode_stored _ nonempty').2, Nat.succ_mul]
    · rw [J.extend_batches, filled.batches, List.replicate_succ']

def emptyRecord : Record := ⟨none, none, [], 0⟩

theorem empty_size (time : Int) {n : Nat} (nonempty : 0 < n) :
    Batch.size ⟨time, List.replicate n emptyRecord⟩ = 33 + 24 * n := by
  have stored : Batch.stored ⟨time, List.replicate n emptyRecord⟩ 0 ≠ [] := by
    rw [← List.length_pos_iff, Batch.stored_length, List.length_replicate]
    exact nonempty
  obtain ⟨bytes, encoded, length⟩ := encodeBatch_length stored
  rw [Batch.size, Batch.bytes, encoded, Option.getD_some, length, Batch.stored, stamped_payload,
    List.map_replicate, List.sum_replicate_nat]
  show 33 + n * 24 = _
  omega

/-- After `count` batches of `n` empty records the next one is out of reach. -/
theorem crowded_poisons {count n : Nat} (nonempty' : 0 < n) (full : count * n = 2 ^ 32)
    (fits : ((33 + 24 * n : Nat) : Int) ≤ config.maxBatchBytes)
    (small : config.maxBatchBytes < 2 ^ 31)
    (room : (((count + 1) * (33 + 24 * n) : Nat) : Int) ≤ config.segmentMaxBytes) :
    ∃ past p s, Run Partition.perform (QuietCall config) Partition.new past p ∧
      p.store = some s ∧ s.closed = false ∧
      s.writeFailed = false ∧ s.logEndOffset = 2 ^ 32 ∧
      (p.perform ⟨.append 5000000 (List.replicate n emptyRecord), []⟩).1 =
        .failed .indexOffsetOverflow ∧
      ∀ s' ∈ (p.perform ⟨.append 5000000 (List.replicate n emptyRecord), []⟩).2.store,
        s'.writeFailed = true := by
  have size := empty_size (unixMilli 5000000) nonempty'
  have nonempty : List.replicate n emptyRecord ≠ [] := by
    rw [← List.length_pos_iff, List.length_replicate]
    exact nonempty'
  have length : (List.replicate n emptyRecord).length = n := List.length_replicate
  rw [← size] at fits room
  obtain ⟨past, s, d, J, run, _, filled⟩ :=
    @filled_run config 5000000 ⟨unixMilli 5000000, List.replicate n emptyRecord⟩ rfl
    nonempty fits small count (by rw [length, full])
    (by rw [Nat.succ_mul] at room; push_cast at room ⊢; omega)
  have span := filled.span
  have logEnd := filled.logEnd
  rw [length, full] at span logEnd
  have failed := filled.represents.append_far (le_of_eq (by rw [filled.setting])) small
    ⟨nonempty, filled.closed, filled.running, by rw [filled.setting]; exact fits⟩
    (filled.stays room) (by rw [span]; decide) (by rw [logEnd, length]; omega)
  refine ⟨past, _, s, run, rfl, filled.closed,
    filled.running, by rw [filled.represents.logEndOffset, logEnd], ?_, ?_⟩
  · rw [failed]
  · rw [failed]
    rintro _ ⟨⟩
    rfl

/-- Nothing fails, 64 batches of 2^26 empty records fit into one segment, and the next batch of the
    same kind poisons the store. -/
theorem healthy_disk_poisons :
    Configuration.loadStorage ⟨"./data", 1048576, 2 ^ 31 - 1, 2 ^ 40, 4096, "async"⟩ =
        .ok ⟨2 ^ 40, 2 ^ 31 - 1, 4096, .async⟩ ∧
      (Batch.size ⟨5, List.replicate (2 ^ 26) emptyRecord⟩ : Int) ≤ 2 ^ 31 - 1 ∧
      ∃ past p s, Run Partition.perform (QuietCall ⟨2 ^ 40, 2 ^ 31 - 1, 4096, .async⟩) Partition.new
        past p ∧
        p.store = some s ∧ s.closed = false ∧ s.writeFailed = false ∧ s.logEndOffset = 2 ^ 32 ∧
        (p.perform ⟨.append 5000000 (List.replicate (2 ^ 26) emptyRecord), []⟩).1 =
          .failed .indexOffsetOverflow ∧
        ∀ s' ∈ (p.perform ⟨.append 5000000 (List.replicate (2 ^ 26) emptyRecord), []⟩).2.store,
          s'.writeFailed = true := by
  refine ⟨by decide +kernel, ?_, ?_⟩
  · rw [@empty_size 5 (2 ^ 26) (by decide)]
    decide
  · exact @crowded_poisons ⟨2 ^ 40, 2 ^ 31 - 1, 4096, .async⟩ 64 (2 ^ 26) (by decide) (by decide)
      (by decide) (by decide) (by decide)

end Crowded

end MessageBroker.Storage
