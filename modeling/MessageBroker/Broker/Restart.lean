import MessageBroker.Broker.Chronicle
import MessageBroker.Broker.Isolation

namespace MessageBroker.Broker

open Faulty Program Storage Topics Runs
open MessageBroker.Configuration (StorageConfig loadStorage loadStorage_ok defaultStorage)

/-! ## Directories along a run -/

section Housed

variable {limit : Int} {n : Node} {past : List NodeEvent} {turn : Turn}

theorem housed_start {order : MapOrder} {cfg : StorageConfig} {maxAgeSeconds maxBytes : UInt64}
    {faults : List Fault} (housed : Housed n.tree) (whole : n.tree.metadata ≠ some .cut)
    (firm : Firm faults) :
    Housed (n.start order cfg maxAgeSeconds maxBytes faults).2.tree := by
  unfold Node.start
  cases loadStorage cfg with
  | error reason => exact housed
  | ok config =>
    have topics := @Housed.newManager n.tree order config faults housed whole firm
    dsimp only
    rcases ran : newManager order config ⟨(), n.tree, faults⟩ with ⟨exit, ⟨⟨⟩, tree, rest⟩⟩
    rw [ran] at topics
    cases exit with
    | error reason => exact topics
    | died => exact topics
    | ok m =>
      dsimp only
      rcases Offsets.openStore ⟨(), n.offsetLog, rest⟩ with ⟨exit', ⟨⟨⟩, offsetLog, rest'⟩⟩
      cases exit' with
      | error reason => exact Housed.close topics
      | died => exact topics
      | ok store => exact topics

theorem housed_step (state : GroundedState limit n) (housed : Housed n.tree)
    (steady : SteadyTurn limit past n turn) :
    Housed (n.perform turn).2.tree := by
  obtain ⟨J, log, grounded⟩ := state
  obtain ⟨call, faults⟩ := turn
  obtain ⟨server, tree, offsetLog, handlers, fetches⟩ := n
  cases call with
  | start order cfg maxAgeSeconds maxBytes =>
    exact housed_start housed grounded.rooted.whole steady.1
  | kill => exact housed
  | createTopic name partitionCount retention =>
    cases server with
    | none => exact housed
    | some sv =>
      have registered : Registered ⟨some sv.topicManager, tree⟩ := grounded.rooted.toRegistered
      show Housed (Node.settleTopics _ sv .created .notCreated _).2.tree
      rw [(settleTopics_tree _).1]
      exact (housed.createTopic registered).always fun _ _ => trivial
  | produce now topic partition records =>
    cases server with
    | none => exact housed
    | some sv =>
      show Housed (Node.settleTopics _ sv .produced .notProduced _).2.tree
      rw [(settleTopics_tree _).1]
      exact housed.steps (touches_produce (touches_append permits_present now records) ⟨_, tree, _⟩)
  | fetch topic partition offset maxBytes =>
    cases server with
    | none => exact housed
    | some sv =>
      show Housed (Node.settleTopics _ sv (fun _ => .waits) .notFetched _).2.tree
      rw [(settleTopics_tree _).1]
      exact housed.steps (touches_readRecords ⟨_, tree, _⟩)
  | readOffset i =>
    rw [readOffset_moves]
    exact housed
  | retain now target =>
    cases server with
    | none => exact housed
    | some sv =>
      show Housed (Node.settleTopics _ sv (fun _ => .retained) .notRetained _).2.tree
      rw [(settleTopics_tree _).1]
      exact housed.steps (touches_onStore (touches_applyRetention permits_present.erased
        (fun d => permits_present.named d _) _ _ _) ⟨_, tree, _⟩)
  | resolve req | validate i | commit i now =>
    rw [(perform_beside rfl).tree]
    exact housed

theorem housed_run (small : limit < 2 ^ 31)
    (run : Run Node.perform (SteadyTurn limit) Node.new past n) : Housed n.tree := by
  have first : GroundedState limit Node.new ∧ Housed Node.new.tree :=
    ⟨⟨_, _, grounded_new⟩, housed_empty⟩
  exact (@Run.invariant _ _ _ _ _ _ _ _ (fun _ n => GroundedState limit n ∧ Housed n.tree) run first
    fun _ _ _ state steady => ⟨state.1.follows small steady, housed_step state.1 state.2 steady⟩).2

end Housed

/-! ## Starting again -/

/-- A process that takes over has every topic, goes on at the offsets of the one before, answers
    every fetch as that one did and knows what was committed there. -/
structure Resumes (n : Node) (restarted : Answer × Node) : Prop where
  started : restarted.1 = .started
  running : restarted.2.server.isSome
  topics : ∀ sv' ∈ restarted.2.server, ∀ name,
    (sv'.topicManager.topics.lookup name).map Topic.entry = n.tree.recorded.lookup name
  partitions : ∀ sv ∈ n.server,
    ∀ sv' ∈ restarted.2.server, ∀ name id s, sv.topicManager.store? name id = some s →
    ∃ s', sv'.topicManager.store? name id = some s' ∧ s'.closed = false ∧ s'.writeFailed = false ∧
      s'.logEndOffset = s.logEndOffset ∧ s'.earliestOffset = s.earliestOffset
  fetches : ∀ sv ∈ n.server,
    ∀ topic (partition : UInt32) s, sv.topicManager.store? topic partition.toNat = some s →
    s.closed = false → s.writeFailed = false → ∀ offset maxBytes,
      (restarted.2.fetch topic partition offset maxBytes []).1 =
        (n.fetch topic partition offset maxBytes []).1
  committed : ∀ sv ∈ n.server, sv.offsets.writeFailed = false → ∀ sv' ∈ restarted.2.server, ∀ key,
    sv'.offsets.offsets.lookup key = sv.offsets.offsets.lookup key

section Restart

variable {limit : Int} {J : Bytes → Nat → Journal} {L : Bytes → Nat → List Batch}
  {log : List Offsets.Entry} {n : Node} {past : List NodeEvent} {order : MapOrder}
  {cfg : StorageConfig} {config : Config} {maxAgeSeconds maxBytes : UInt64}

/-- On a healthy disk the offset log can be opened, whatever the last process left behind its
    entries. -/
theorem offsets_open {d : Offsets.Disk} (holds : Offsets.Holds log d) :
    ∃ store d', Offsets.openStore ⟨(), d, []⟩ = (.ok store, ⟨(), d', []⟩) ∧
      ∀ key, store.offsets.lookup key = Offsets.latest log key := by
  have opens : Meets never
      (Offsets.openStore : Program Unit Offsets.Disk Offsets.OffsetError Offsets.Store) () d
      ⟨fun store _ _ => ∀ key, store.offsets.lookup key = Offsets.latest log key,
        fun _ _ _ => False, fun _ => False⟩ :=
    Offsets.meets_openStore holds (fun store _ represents _ _ => represents.offsets)
      (fun shaky => absurd shaky not_shaky_never) (fun shaky => absurd shaky not_shaky_never)
  obtain ⟨store, ⟨⟩, d', ran, known⟩ :=
    opens.succeeds (fun _ _ _ impossible => impossible) (fun _ impossible => impossible)
  exact ⟨store, d', ran, known⟩

theorem Grounded.latest {sv : Server} {key : Offsets.Key} (grounded : Grounded limit J log n)
    (running : n.server = some sv) (sound : sv.offsets.writeFailed = false) :
    sv.offsets.offsets.lookup key = Offsets.latest log key := by
  have tracks := grounded.offsets
  rw [running] at tracks
  cases tracks with
  | running _ represents => exact represents.offsets key
  | broken failed _ => simp [sound] at failed

/-- Whenever the process is killed, the next one on a healthy disk carries on as if nothing had
    happened. -/
theorem restart_resumes (small : limit < 2 ^ 31)
    (run : Run Node.perform (SteadyTurn limit) Node.new past n)
    (stamped : ∀ event ∈ past, event.input.call.stamp ≠ some (-2 ^ 63))
    (loaded : loadStorage cfg = .ok config) (setting : cfg.maxBatchBytes = limit) :
    Resumes n (n.perform ⟨.start order cfg maxAgeSeconds maxBytes, []⟩) := by
  obtain ⟨J, L, chronicle⟩ := chronicle_run small run
  obtain ⟨_, log, grounded⟩ := groundedState_run small run
  have sized : config.maxBatchBytes = limit := (loadStorage_ok loaded).2.1.trans setting
  obtain ⟨m, tree', started, same, recovered⟩ :=
    @Rooted.recovers limit J L n.tree order config _ chronicle.rooted
    chronicle.streams (housed_run small run) sized
    fun _ _ listed _ => chronicle.readable stamped listed
  obtain ⟨store, offsetLog', opened, known⟩ := offsets_open grounded.offsets.holds
  let sv' : Server :=
    ⟨{ m with defaultMaxAgeSeconds := maxAgeSeconds, defaultMaxBytes := maxBytes }, store, cfg⟩
  have performed : n.perform ⟨.start order cfg maxAgeSeconds maxBytes, []⟩ =
      (.started, ⟨some sv', tree', offsetLog', [], n.fetches.map fun _ => none⟩) := by
    show n.start order cfg maxAgeSeconds maxBytes [] = _
    unfold Node.start
    rw [loaded]
    dsimp only
    rw [started]
    dsimp only
    rw [opened]
  have finds : ∀ name id, n.tree.Lists name id → ∃ s', m.store? name id = some s' := by
    rintro name id ⟨dt, recorded, inside⟩
    have entry := recovered.topics name
    rw [recorded, Option.map_eq_some_iff] at entry
    obtain ⟨t, found, rfl⟩ := entry
    rw [store?_eq found]
    exact ⟨_, List.getElem?_eq_getElem (by simpa [Topic.entry] using inside)⟩
  rw [performed]
  refine ⟨rfl, rfl, ?_, ?_, ?_, ?_⟩
  · rintro _ ⟨⟩
    exact recovered.topics
  · rintro sv running _ ⟨⟩ name id s found
    obtain ⟨listed, tracks⟩ := chronicle.tracks running found
    obtain ⟨s', found'⟩ := finds name id listed
    obtain ⟨_, opened', healthy', represents'⟩ := recovered.stores name id s' found'
    obtain ⟨logEnd, earliest⟩ := tracks.offsets rfl
    exact ⟨s', found', opened', healthy', by rw [represents'.logEndOffset, logEnd],
      by rw [represents'.earliestOffset, earliest]⟩
  · rintro sv running topic partition s found isOpen healthy offset maxBytes'
    obtain ⟨listed, represents⟩ := chronicle.represents running found healthy
    have readable := chronicle.journal_readable stamped listed
    obtain ⟨s', found'⟩ := finds topic partition.toNat listed
    obtain ⟨_, opened', healthy', represents'⟩ := recovered.stores topic partition.toNat s' found'
    rw [fetch_healthy running found represents ⟨isOpen, healthy⟩ readable]
    exact fetch_healthy rfl found' represents' ⟨opened', healthy'⟩ readable
  · rintro sv running sound _ ⟨⟩ key
    rw [grounded.latest running sound]
    exact known key

/-- Killed while it waits in a commit, with a record half written. -/
theorem restart_resumes_torn :
    let start : Turn := ⟨.start .inOrder defaultStorage 0 0, []⟩
    let produce (faults : List Fault) : Turn :=
      ⟨.produce 5000000 [97] 0 [⟨none, some [1], [], 0⟩], faults⟩
    let history := execute Node.perform [] Node.new
      [start, ⟨.createTopic [97] 1 ⟨0, 0⟩, []⟩, produce [], ⟨.resolve ⟨[103], [97], 0, 1⟩, []⟩,
        ⟨.validate 0, []⟩,
       ⟨.validate 0, []⟩, ⟨.commit 0 6000000, []⟩, produce [.die 9], start,
       ⟨.resolve ⟨[103], [97], 0, 1⟩, []⟩]
    Resumes history.2 (history.2.perform start) :=
  @restart_resumes 5242880 _ _ .inOrder defaultStorage ⟨134217728, 5242880, 4096, .sync⟩ 0 0
    (by decide) (run_execute .start (by decide +kernel)) (by decide +kernel) (by decide +kernel) rfl

end Restart

end MessageBroker.Broker
