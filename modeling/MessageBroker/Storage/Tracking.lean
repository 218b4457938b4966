import MessageBroker.Storage.Closing
import MessageBroker.Storage.Opening
import MessageBroker.Storage.Reading
import MessageBroker.Storage.Retaining
import MessageBroker.Storage.Session
import MessageBroker.Storage.Writing

namespace MessageBroker.Storage

open Faulty Program

/-! ## A store that refuses to go on -/

section Stuck

variable {allowed : Fault → Prop} {s : Store} {d : Directory}

theorem meets_append_refused {now : Instant} {records : List Record}
    {post : Post Store Directory StoreError (Nat × Nat)} (stuck : s.writeFailed = true)
    (refused : ∀ reason, Refused s ⟨unixMilli now, records⟩ reason → post.fails reason s d) :
    Meets allowed (append now records) s d post := by
  unfold append
  split_ifs with empty
  · exact Meets.throw (refused _ (.empty empty))
  apply Meets.bind
  apply Meets.memory
  dsimp only
  split_ifs with closed
  · exact Meets.throw (refused _ (.closed closed))
  · exact Meets.throw (refused _ (.poisoned stuck))

theorem meets_read_refused {offset : Nat} {maxBytes : Int}
    {post : Post Store Directory StoreError (List StoredRecord)}
    (stuck : s.writeFailed = true)
    (refused : ∀ reason, ReadRefused s offset maxBytes reason → post.fails reason s d) :
    Meets allowed (read offset maxBytes) s d post := by
  unfold read
  split_ifs with tooSmall
  · exact Meets.throw (refused _ (.limit tooSmall))
  apply Meets.bind
  apply Meets.memory
  dsimp only
  split_ifs with closed
  · exact Meets.throw (refused _ (.closed closed))
  · exact Meets.throw (refused _ (.poisoned stuck))

theorem meets_applyRetention_skips {now : Instant} {maxAge : Int} {maxPartitionBytes : Nat}
    {post : Post Store Directory StoreError Unit} (stuck : s.writeFailed = true)
    (returns : post.returns () s d) :
    Meets allowed (applyRetention now maxAge maxPartitionBytes) s d post := by
  unfold applyRetention
  apply Meets.bind
  apply Meets.memory
  dsimp only
  rw [if_pos (by simp [stuck])]
  exact Meets.pure returns

end Stuck

/-! ## The journal behind a partition -/

/-- The disk failed an append: the store refuses to go on, and the next process finds the
    journal. -/
structure Broken (P : Policy) (J : Journal) (s : Store) (d : Directory) : Prop where
  writeFailed : s.writeFailed = true
  logEndOffset : s.logEndOffset = J.logEnd
  earliestOffset : s.earliestOffset = J.floor
  disk : Holds P J d

/-- The partition stands for the journal, and its store was opened with a setting out of
    `settings`. -/
inductive Tracks (allowed : Fault → Prop) (P : Policy) (settings : Config → Prop) (J : Journal) :
    Partition → Prop where
  | stopped {d : Directory} : Holds P J d → Tracks allowed P settings J ⟨none, d⟩
  | running {s : Store} {d : Directory} : settings s.config → Represents P.limit J s d →
      Tracks allowed P settings J ⟨some s, d⟩
  | broken {s : Store} {d : Directory} : settings s.config → Shaky allowed → Broken P J s d →
      Tracks allowed P settings J ⟨some s, d⟩

inductive Moves (allowed : Fault → Prop) (p : Partition) (J : Journal) :
    Action → Outcome → Journal → Prop where
  | opened (config : Config) : Moves allowed p J (.openStore config) .opened J
  | notOpened (config : Config) (reason : StoreError) :
      Shaky allowed ∨ (∃ b ∈ J.batches, ¬ b.Readable) →
      Moves allowed p J (.openStore config) (.failed reason) J
  | appended {now : Instant} {records : List Record} {s : Store} :
      p.store = some s → s.writeFailed = false → records ≠ [] →
      (Batch.size ⟨unixMilli now, records⟩ : Int) ≤ s.config.maxBatchBytes →
      Moves allowed p J (.append now records) (.appended J.logEnd (J.logEnd + records.length - 1))
        (J.push s.config.segmentMaxBytes ⟨unixMilli now, records⟩)
  | rejected (now : Instant) (records : List Record) {reason : StoreError} :
      (∀ operation, reason ≠ .io operation) →
      Moves allowed p J (.append now records) (.failed reason) J
  | appendFailed {now : Instant} {records : List Record} {s : Store} {J' : Journal}
      (operation : Operation) :
      Shaky allowed → p.store = some s → s.writeFailed = false →
      J.Reaches s.config.segmentMaxBytes ⟨unixMilli now, records⟩ J' →
      Moves allowed p J (.append now records) (.failed (.io operation)) J'
  | appendDied {now : Instant} {records : List Record} {s : Store} {J' : Journal} :
      Shaky allowed → p.store = some s → s.writeFailed = false →
      J.Reaches s.config.segmentMaxBytes ⟨unixMilli now, records⟩ J' →
      Moves allowed p J (.append now records) .died J'
  | found {offset : Nat} (maxBytes : Int) : J.floor ≤ offset → offset ≤ J.logEnd →
      Moves allowed p J (.read offset maxBytes)
        (.found (greedy maxBytes (J.records.drop (offset - J.floor)))) J
  | notFound (offset : Nat) (maxBytes : Int) (reason : StoreError) :
      Moves allowed p J (.read offset maxBytes) (.failed reason) J
  | retained {now : Instant} {maxAge : Int} {maxPartitionBytes : Nat} {J' : Journal}
      (outcome : Outcome) :
      J.Pruned (retentionCutoff now maxAge) p.directory.segmentBytes maxPartitionBytes J' →
      Moves allowed p J (.applyRetention now maxAge maxPartitionBytes) outcome J'
  | closed (outcome : Outcome) : Moves allowed p J .closeStore outcome J
  | openDied (config : Config) : Shaky allowed → Moves allowed p J (.openStore config) .died J
  | readDied (offset : Nat)
      (maxBytes : Int) : Shaky allowed → Moves allowed p J (.read offset maxBytes) .died J
  | noStore (action : Action) : p.store = none → (∀ config, action ≠ .openStore config) →
      Moves allowed p J action .noStore J

/-- What the machine's integers and the settings ask of the next call. -/
def Fitting (P : Policy) (settings : Config → Prop) (p : Partition) : Action → Prop
  | .openStore config => settings config ∧ P.limit ≤ config.maxBatchBytes
  | .append _ records => ∀ s ∈ p.store, s.logEndOffset + records.length < 2 ^ 64
  | _ => True

/-- A batch that the open store takes is within the policy's limit and below two gigabytes. -/
def Admits (P : Policy) (p : Partition) : Action → Prop
  | .append now records => ∀ s ∈ p.store, s.Takes ⟨unixMilli now, records⟩ →
      (Batch.size ⟨unixMilli now, records⟩ : Int) ≤ P.limit ∧
        Batch.size ⟨unixMilli now, records⟩ < 2 ^ 31
  | _ => True

section Step

variable {allowed : Fault → Prop} {P : Policy} {settings : Config → Prop} {J : Journal}
  {p : Partition} {step : Step} {s : Store} {d : Directory} {faults : List Fault}

theorem Journal.PrunedFully.pruned {cutoff : Int} {weight : Nat → Nat} {maxPartitionBytes : Nat}
    {J' : Journal} (fully : J.PrunedFully cutoff weight maxPartitionBytes J') :
    J.Pruned cutoff weight maxPartitionBytes J' := by
  cases fully with
  | intro old _ big _ => exact .intro old big

theorem settled {α : Type} {call : StoreProgram α} {report : α → Outcome}
    (holds : Outcome → Partition → Prop) (permitted : ∀ fault ∈ faults, allowed fault)
    (meets : Meets allowed call s d
      ⟨fun value s' d' => holds (report value) ⟨some s', d'⟩,
        fun reason s' d' => holds (.failed reason) ⟨some s', d'⟩,
       fun d' => holds .died ⟨none, d'⟩⟩) :
    holds (settle report (call ⟨s, d, faults⟩)).1 (settle report (call ⟨s, d, faults⟩)).2 := by
  have exits := meets faults permitted
  rcases ran : call ⟨s, d, faults⟩ with ⟨exit, after⟩
  rw [ran] at exits
  cases exit with
  | ok value => exact exits.1
  | error reason => exact exits.1
  | died => exact exits

theorem settledOpen {config : Config} (holds : Outcome → Partition → Prop)
    (permitted : ∀ fault ∈ faults, allowed fault) (meets : Meets allowed (openStore config) () d
      ⟨fun s _ d' => holds .opened ⟨some s, d'⟩,
        fun reason _ d' => holds (.failed reason) ⟨none, d'⟩,
       fun d' => holds .died ⟨none, d'⟩⟩) :
    holds (settleOpen (openStore config ⟨(), d, faults⟩)).1
      (settleOpen (openStore config ⟨(), d, faults⟩)).2 := by
  have exits := meets faults permitted
  rcases ran : openStore config ⟨(), d, faults⟩ with ⟨exit, after⟩
  rw [ran] at exits
  cases exit with
  | ok value => exact exits.1
  | error reason => exact exits.1
  | died => exact exits

theorem Tracks.holds (tracks : Tracks allowed P settings J p) : Holds P J p.directory := by
  cases tracks with
  | stopped holds => exact holds
  | running _ represents => exact Or.inl (represents.laid (le_refl _))
  | broken _ _ broken => exact broken.disk

theorem Tracks.offsets (tracks : Tracks allowed P settings J p) (opened : p.store = some s) :
    s.logEndOffset = J.logEnd ∧ s.earliestOffset = J.floor := by
  cases tracks with
  | stopped => cases opened
  | running _ represents =>
    cases opened
    exact ⟨represents.logEndOffset, represents.earliestOffset⟩
  | broken _ _ broken =>
    cases opened
    exact ⟨broken.logEndOffset, broken.earliestOffset⟩

theorem Refused.notPending {now : Instant} {records : List Record} {reason : StoreError}
    (refused : Refused s ⟨unixMilli now, records⟩ reason) :
    pendingOf (.append now records) (.failed reason) = none := by
  cases refused <;> rfl

theorem Refused.notIo {b : Batch} {reason : StoreError} (refused : Refused s b reason)
    (operation : Operation) :
    reason ≠ .io operation := by
  cases refused <;> simp

/-- A store that takes appends was just opened or took them before, and no append of it failed. -/
def Lives (p : Partition) (action : Action) (outcome : Outcome) (p' : Partition) : Prop :=
  ∀ s' ∈ p'.store, s'.writeFailed = false →
    outcome = .opened ∨ pendingOf action outcome = none ∧ ∃ s ∈ p.store, s.writeFailed = false

/-- The outcome is a move of the journal, and the partition stands for the journal it leads to. -/
def Follows (allowed : Fault → Prop) (P : Policy) (settings : Config → Prop) (p : Partition)
    (J : Journal) (action : Action) (outcome : Outcome) (p' : Partition) : Prop :=
  ∃ J', Moves allowed p J action outcome J' ∧
    Tracks allowed P settings J' p' ∧ Lives p action outcome p'

theorem lives_stopped {action : Action} {outcome : Outcome} : Lives p action outcome ⟨none, d⟩ :=
  fun _ nothing => by cases nothing

theorem lives_same {action : Action} {outcome : Outcome} {s' : Store} {d' : Directory}
    (same : s'.writeFailed = s.writeFailed) (nothing : pendingOf action outcome = none) :
    Lives ⟨some s, d⟩ action outcome ⟨some s', d'⟩ := by
  rintro _ ⟨⟩ running
  exact Or.inr ⟨nothing, s, rfl, by rw [← same, running]⟩

theorem lives_failed {action : Action} {outcome : Outcome} {s' : Store} {d' : Directory}
    (failed : s'.writeFailed = true) : Lives p action outcome ⟨some s', d'⟩ := by
  rintro _ ⟨⟩ running
  rw [failed] at running
  cases running

theorem Holds.open_follows {config : Config} (holds : Holds P J p.directory)
    (settings : Config → Prop) (permitted : ∀ fault ∈ faults, allowed fault)
    (setting : settings config) (limit : P.limit ≤ config.maxBatchBytes) :
    Follows allowed P settings p J (.openStore config)
      (settleOpen (openStore config ⟨(), p.directory, faults⟩)).1
      (settleOpen (openStore config ⟨(), p.directory, faults⟩)).2 := by
  refine settledOpen (Follows allowed P settings p J _) permitted
    (meets_openStore holds limit ?_ ?_ ?_)
  · intro s d' represents same _ _
    exact ⟨J, .opened config, .running (by rw [same]; exact setting) represents,
      fun _ _ _ => Or.inl rfl⟩
  · intro cause reason d' after
    exact ⟨J, .notOpened config reason cause, .stopped after, lives_stopped⟩
  · intro shaky d' after
    exact ⟨J, .openDied config shaky, .stopped after, lives_stopped⟩

section Calls

variable (tracks : Tracks allowed P settings J ⟨some s, d⟩)
  (permitted : ∀ fault ∈ faults, allowed fault)

include tracks permitted

theorem Tracks.append_follows {now : Instant} {records : List Record}
    (tolerates : P.Tolerates allowed) (admits : s.Takes ⟨unixMilli now, records⟩ →
      (Batch.size ⟨unixMilli now, records⟩ : Int) ≤ P.limit ∧
        Batch.size ⟨unixMilli now, records⟩ < 2 ^ 31)
    (room : s.logEndOffset + records.length < 2 ^ 64) :
    Follows allowed P settings ⟨some s, d⟩ J (.append now records)
      (settle (fun (base, last) => .appended base last) (append now records ⟨s, d, faults⟩)).1
      (settle (fun (base, last) => .appended base last) (append now records ⟨s, d, faults⟩)).2 := by
  refine settled (Follows allowed P settings ⟨some s, d⟩ J _) permitted ?_
  cases tracks with
  | running setting represents =>
    rw [represents.logEndOffset] at room
    refine meets_append (b := ⟨unixMilli now, records⟩) represents (le_refl _) tolerates admits rfl
      room ?_ ?_ ?_ ?_ ?_
    · exact fun reason refused =>
        ⟨J, .rejected now records refused.notIo, .running setting represents,
        lives_same rfl refused.notPending⟩
    · exact fun _ _ _ => ⟨J, .rejected now records (by simp), .running setting { represents with },
        lives_failed rfl⟩
    · intro nonempty _ running size s' d' after keeps _
      exact ⟨_, .appended rfl running nonempty size,
        .running (by rw [keeps.config]; exact setting) after,
        lives_same keeps.writeFailed rfl⟩
    · intro running shaky operation J' s' d' reaches poisoned _
      exact ⟨J', .appendFailed operation shaky rfl running reaches,
        .broken (by rw [poisoned.config]; exact setting) shaky
        ⟨poisoned.writeFailed, poisoned.logEndOffset, poisoned.earliestOffset, poisoned.disk⟩,
        lives_failed poisoned.writeFailed⟩
    · intro running shaky J' d' reaches after _
      exact ⟨J', .appendDied shaky rfl running reaches, .stopped after, lives_stopped⟩
  | broken setting shaky broken =>
    refine meets_append_refused broken.writeFailed ?_
    exact fun reason refused =>
      ⟨J, .rejected now records refused.notIo, .broken setting shaky broken,
      lives_same rfl refused.notPending⟩

theorem Tracks.read_follows {offset : Nat} {maxBytes : Int} :
    Follows allowed P settings ⟨some s, d⟩ J (.read offset maxBytes)
      (settle .found (read offset maxBytes ⟨s, d, faults⟩)).1
      (settle .found (read offset maxBytes ⟨s, d, faults⟩)).2 := by
  refine settled (Follows allowed P settings ⟨some s, d⟩ J _) permitted ?_
  cases tracks with
  | running setting represents =>
    refine meets_read represents ?_ ?_ ?_ ?_
    · exact fun reason _ => ⟨J, .notFound offset maxBytes reason, .running setting represents,
        lives_same rfl rfl⟩
    · exact fun _ _ _ low high => ⟨J, .found maxBytes low high, .running setting represents,
        lives_same rfl rfl⟩
    · exact fun _ reason => ⟨J, .notFound offset maxBytes reason, .running setting represents,
        lives_same rfl rfl⟩
    · exact fun shaky => ⟨J, .readDied _ _ shaky, .stopped (Or.inl (represents.laid (le_refl _))),
        lives_stopped⟩
  | broken setting shaky broken =>
    refine meets_read_refused broken.writeFailed ?_
    exact fun reason _ => ⟨J, .notFound offset maxBytes reason, .broken setting shaky broken,
      lives_same rfl rfl⟩

theorem Tracks.retention_follows {now : Instant} {maxAge : Int} {maxPartitionBytes : Nat} :
    Follows allowed P settings ⟨some s, d⟩ J (.applyRetention now maxAge maxPartitionBytes)
      (settle (fun _ => .done) (applyRetention now maxAge maxPartitionBytes ⟨s, d, faults⟩)).1
      (settle (fun _ => .done) (applyRetention now maxAge maxPartitionBytes ⟨s, d, faults⟩)).2 := by
  refine settled (Follows allowed P settings ⟨some s, d⟩ J _) permitted ?_
  cases tracks with
  | running setting represents =>
    refine meets_applyRetention represents (le_refl P.limit) ?_ ?_ ?_ ?_
    · exact fun _ => ⟨J, .retained _ (.intro (.refl J) (.refl J)), .running setting represents,
        lives_same rfl rfl⟩
    · intro _ _ J' s' d' fully after keeps
      exact ⟨J', .retained _ fully.pruned, .running (by rw [keeps.config]; exact setting) after,
        lives_same keeps.writeFailed rfl⟩
    · intro _ count J' s' d' pruned after keeps
      exact ⟨J', .retained _ pruned, .running (by rw [keeps.config]; exact setting) after,
        lives_same keeps.writeFailed rfl⟩
    · exact fun _ J' d' pruned laid =>
        ⟨J', .retained _ pruned, .stopped (Or.inl laid), lives_stopped⟩
  | broken setting shaky broken =>
    refine meets_applyRetention_skips broken.writeFailed ?_
    exact ⟨J, .retained _ (.intro (.refl J) (.refl J)), .broken setting shaky broken,
      lives_same rfl rfl⟩

theorem Tracks.close_follows :
    Follows allowed P settings ⟨some s, d⟩ J .closeStore
      (settle (fun _ => .done) (closeStore ⟨s, d, faults⟩)).1
      (settle (fun _ => .done) (closeStore ⟨s, d, faults⟩)).2 := by
  have keeps : ∀ s' d', Closes s s' → Flushed d d' → Tracks allowed P settings J ⟨some s', d'⟩ := by
    intro s' d' closes flushed
    cases tracks with
    | running setting represents =>
      exact .running (by rw [closes.config]; exact setting)
        ((represents.sameSegments flushed.sameSegments).closes closes)
    | broken setting shaky broken =>
      exact .broken (by rw [closes.config]; exact setting) shaky
        ⟨closes.writeFailed.trans broken.writeFailed, closes.logEndOffset.trans broken.logEndOffset,
          closes.earliestOffset.trans broken.earliestOffset,
          broken.disk.sameSegments flushed.sameSegments⟩
  refine settled (Follows allowed P settings ⟨some s, d⟩ J _) permitted (meets_closeStore ?_ ?_ ?_)
  · exact fun s' d' closes flushed =>
      ⟨J, .closed _, keeps s' d' closes flushed, lives_same closes.writeFailed rfl⟩
  · exact fun _ s' d' closes flushed =>
      ⟨J, .closed _, keeps s' d' closes flushed, lives_same closes.writeFailed rfl⟩
  · exact fun _ d' flushed =>
      ⟨J, .closed _, .stopped (tracks.holds.sameSegments flushed.sameSegments), lives_stopped⟩

end Calls

/-- Stores whose limit is within the policy's take only batches that are. -/
theorem Tracks.admits (tracks : Tracks allowed P settings J p) (small : P.limit < 2 ^ 31)
    (bounded : ∀ config, settings config → config.maxBatchBytes ≤ P.limit) (action : Action) :
    Admits P p action := by
  cases action with
  | append now records =>
    intro s opened takes
    have size := takes.2.2.2
    have setting : settings s.config := by
      cases tracks with
      | stopped => cases opened
      | running setting _ | broken setting _ _ =>
        cases opened
        exact setting
    have limit := bounded _ setting
    omega
  | _ => trivial

/-- A step of the partition is a move of the journal behind it. -/
theorem Tracks.perform (tracks : Tracks allowed P settings J p) (tolerates : P.Tolerates allowed)
    (admits : Admits P p step.action) (permitted : ∀ fault ∈ step.faults, allowed fault)
    (fits : Fitting P settings p step.action) :
    Follows allowed P settings p J step.action (p.perform step).1 (p.perform step).2 := by
  obtain ⟨action, faults⟩ := step
  obtain ⟨store, d⟩ := p
  cases action with
  | openStore config => exact tracks.holds.open_follows settings permitted fits.1 fits.2
  | append now records =>
    cases store with
    | none => exact ⟨J, .noStore _ rfl nofun, tracks, lives_stopped⟩
    | some s => exact tracks.append_follows permitted tolerates (admits s rfl) (fits s rfl)
  | read offset maxBytes =>
    cases store with
    | none => exact ⟨J, .noStore _ rfl nofun, tracks, lives_stopped⟩
    | some s => exact tracks.read_follows permitted
  | applyRetention now maxAge maxPartitionBytes =>
    cases store with
    | none => exact ⟨J, .noStore _ rfl nofun, tracks, lives_stopped⟩
    | some s => exact tracks.retention_follows permitted
  | closeStore =>
    cases store with
    | none => exact ⟨J, .noStore _ rfl nofun, tracks, lives_stopped⟩
    | some s => exact tracks.close_follows permitted

end Step

end MessageBroker.Storage
