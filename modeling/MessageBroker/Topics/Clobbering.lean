import MessageBroker.Storage.Crashes
import MessageBroker.Topics.Creating
import MessageBroker.Topics.Loading
import MessageBroker.Topics.Session

namespace MessageBroker.Topics

open Faulty Program Storage Runs

/-- A start brings every recorded topic to memory, and creating a topic leaves the recorded ones
    alone. -/
structure Unclobbered (event : HostEvent) : Prop where
  loaded : event.outcome = .started → ∀ m ∈ event.after.manager, ∀ name dt,
    event.before.tree.recorded.lookup name = some dt →
      ∃ t, m.topics.lookup name = some t ∧ t.entry = dt
  kept : ∀ name count retention, event.input.request = .createTopic name count retention →
    ∀ other dt,
    event.before.tree.recorded.lookup other = some dt →
      event.after.tree.recorded.lookup other = some dt ∧
      ∀ id, event.after.tree.partitions other id = event.before.tree.partitions other id

/-- Whatever fails, a start's first look at the metadata file does not. -/
def FirmStart (_ : List HostEvent) (_ : Host) (step : HostStep) : Prop :=
  match step.request with
  | .newManager _ _ => Firm step.faults
  | _ => True

instance (past : List HostEvent) (h : Host) : ∀ step, Decidable (FirmStart past h step)
  | ⟨.newManager _ _, faults⟩ => inferInstanceAs (Decidable (Firm faults))
  | ⟨.setRetentionDefaults _ _, _⟩ | ⟨.createTopic _ _ _, _⟩ | ⟨.append _ _ _ _, _⟩ =>
    inferInstanceAs (Decidable True)

/-- The metadata file is whole, and the manager has the topics that it records. -/
structure Registered (h : Host) : Prop where
  whole : h.tree.metadata ≠ some .cut
  topics : ∀ m ∈ h.manager,
    ∀ name, (m.topics.lookup name).map Topic.entry = h.tree.recorded.lookup name

section Entries

variable {m : Manager} {name : Bytes} {id : Nat} {s : Store}

theorem setStore_entries (m : Manager) (name : Bytes) (id : Nat) (s : Store) (other : Bytes) :
    ((m.setStore name id s).topics.lookup other).map Topic.entry =
      (m.topics.lookup other).map Topic.entry := by
  unfold Manager.setStore
  cases found : m.topics.lookup name with
  | none => rfl
  | some t =>
    by_cases same : other = name
    · rw [same, AList.lookup_insert, found]
      simp [Topic.entry]
    · dsimp only
      rw [AList.lookup_insert_ne same]

end Entries

section Steps

variable {h : Host} {step : HostStep} {past : List HostEvent}

theorem opening_all (config : Config) :
    Opening anything True config (fun _ => True) (fun _ _ => True) where
  drops _ _ _ := trivial
  opens d _ := (Meets.any (openStore config) () d).mono (fun _ _ _ _ => trivial)
    (fun _ _ _ _ => ⟨trivial, trivial⟩) fun _ _ => ⟨trivial, trivial⟩
  closes s d _ := Meets.any closeStore s d

theorem keeping_all (config : Config) : Keeping anything config (fun _ => True) (fun _ _ => True) :=
  { opening_all config with erases := fun _ _ _ => trivial, vanishes := fun _ _ => trivial }

theorem Tree.recorded_same {tree tree' : Tree} (same : tree'.metadata = tree.metadata) :
    tree'.recorded = tree.recorded := by
  unfold Tree.recorded
  rw [same]

theorem Registered.stopped {tree : Tree} (whole : tree.metadata ≠ some .cut) :
    Registered ⟨none, tree⟩ :=
  ⟨whole, fun _ nothing => by cases nothing⟩

theorem unclobbered_other {event : HostEvent} (noStart : event.outcome ≠ .started)
    (noCreation : ∀ name count retention, event.input.request ≠ .createTopic name count retention) :
    Unclobbered event :=
  ⟨fun started => absurd started noStart, fun _ _ _ creation => absurd creation (noCreation _ _ _)⟩

theorem newManager_unclobbered {tree : Tree} {manager : Option Manager} {order : MapOrder}
    {config : Config} {faults : List Fault} (whole : tree.metadata ≠ some .cut)
    (firm : Firm faults) :
    let event := happen Host.perform ⟨manager, tree⟩ ⟨.newManager order config, faults⟩
    Registered event.after ∧ Unclobbered event := by
  refine repliedStart (fun reply h' => Registered h' ∧
    Unclobbered ⟨⟨manager, tree⟩, ⟨.newManager order config, faults⟩, reply, h'⟩)
    ((newManager_run (fun _ _ => opening_all config) (fun _ => trivial) whole
      (fun _ _ _ => Or.inr trivial) (fun _ _ _ _ _ _ _ => Or.inr trivial) ⟨rfl, fun _ _ => trivial⟩
      (fun _ _ => trivial) firm).mono ?_ ?_ ?_)
  · rintro m _ tree' ⟨standing, _, serves⟩
    refine ⟨⟨?_, ?_⟩, ?_, by simp⟩
    · rw [standing.metadata]
      exact whole
    · rintro _ ⟨⟩ name
      rw [serves.topics, Tree.recorded_same standing.metadata]
    · rintro _ _ ⟨⟩ name dt recorded
      have entry := serves.topics name
      rw [show tree.recorded.lookup name = some dt from recorded, Option.map_eq_some_iff] at entry
      exact entry
  · rintro reason _ tree' ⟨_, standing⟩
    exact ⟨.stopped (by rw [standing.metadata]; exact whole), unclobbered_other (by simp) (by simp)⟩
  · rintro tree' ⟨_, standing⟩
    exact ⟨.stopped (by rw [standing.metadata]; exact whole), unclobbered_other (by simp) (by simp)⟩

theorem createTopic_unclobbered {m : Manager} {tree : Tree} {name : Bytes} {count : Int}
    {retention : RetentionPolicy} {faults : List Fault} (registered : Registered ⟨some m, tree⟩) :
    let event := happen Host.perform ⟨some m, tree⟩ ⟨.createTopic name count retention, faults⟩
    Registered event.after ∧ Unclobbered event := by
  have whole := registered.whole
  have topics := registered.topics m rfl
  -- a recorded topic is in memory, so it is not the one that is created
  have apart : m.topics.lookup name = none →
      ∀ other dt, tree.recorded.lookup other = some dt → other ≠ name := by
    rintro absent other dt recorded rfl
    have entry := topics other
    rw [absent, recorded] at entry
    cases entry
  have untouched : ∀ reply h', h'.tree.metadata = tree.metadata →
      (∀ other dt, tree.recorded.lookup other = some dt →
        ∀ id, h'.tree.partitions other id = tree.partitions other id) →
      reply ≠ .started →
        Unclobbered ⟨⟨some m, tree⟩, ⟨.createTopic name count retention, faults⟩, reply, h'⟩ := by
    intro reply h' metadata partitions noStart
    refine ⟨fun started => absurd started noStart, ?_⟩
    rintro _ _ _ ⟨⟩ other dt recorded
    exact ⟨by rw [Tree.recorded_same metadata]; exact recorded, partitions other dt recorded⟩
  have grown : ∀ reply h' entry,
      h'.tree.metadata = some (.encoded (tree.recorded.insert name entry)) →
      m.topics.lookup name = none →
      (∀ other, other ≠ name → ∀ id, h'.tree.partitions other id = tree.partitions other id) →
      reply ≠ .started →
        Unclobbered ⟨⟨some m, tree⟩, ⟨.createTopic name count retention, faults⟩, reply, h'⟩ := by
    intro reply h' entry metadata absent partitions noStart
    refine ⟨fun started => absurd started noStart, ?_⟩
    rintro _ _ _ ⟨⟩ other dt recorded
    have differs := apart absent other dt recorded
    refine ⟨?_, partitions other differs⟩
    rw [Tree.recorded, metadata]
    dsimp only
    rw [AList.lookup_insert_ne differs]
    exact recorded
  refine replied (fun reply h' => Registered h' ∧
    Unclobbered ⟨⟨some m, tree⟩, ⟨.createTopic name count retention, faults⟩, reply, h'⟩)
    ((meets_createTopic (keeping_all m.config) whole (fun _ _ => trivial) ?_ ?_ ?_ ?_ ?_).met
      (fun _ _ => trivial))
  · exact fun reason => ⟨registered, untouched _ _ rfl (fun _ _ _ _ => rfl) (by simp)⟩
  · intro absent _ positive _ stores tree' length confined _
    refine ⟨⟨by rw [confined.metadata]; simp, ?_⟩,
      grown _ _ _ confined.metadata absent (fun other differs => confined.others differs) (by simp)⟩
    rintro _ ⟨⟩ other
    rw [Tree.recorded, confined.metadata]
    by_cases same : other = name
    · rw [same, AList.lookup_insert, AList.lookup_insert, Option.map_some, Topic.entry, length,
        Int.toNat_of_nonneg (le_of_lt positive)]
    · dsimp only
      rw [AList.lookup_insert_ne same, AList.lookup_insert_ne same]
      exact topics other
  · intro absent reason tree' confined
    refine ⟨⟨by rw [confined.metadata]; exact whole, ?_⟩, untouched _ _ confined.metadata
      (fun other dt recorded => confined.others (apart absent other dt recorded)) (by simp)⟩
    rintro _ ⟨⟩ other
    rw [Tree.recorded_same confined.metadata]
    exact topics other
  · intro absent tree' confined
    exact ⟨.stopped (by rw [confined.metadata]; exact whole), untouched _ _ confined.metadata
      (fun other dt recorded => confined.others (apart absent other dt recorded)) (by simp)⟩
  · intro absent _ _ _ _ tree' _ confined _
    exact ⟨.stopped (by rw [confined.metadata]; simp), grown _ _ _ confined.metadata absent
      (fun other differs => confined.others differs) (by simp)⟩

theorem append_unclobbered {m : Manager} {tree : Tree} {name : Bytes} {id : Nat} {now : Instant}
    {records : List Record} {faults : List Fault} (registered : Registered ⟨some m, tree⟩) :
    let event := happen Host.perform ⟨some m, tree⟩ ⟨.append name id now records, faults⟩
    Registered event.after ∧ Unclobbered event := by
  have same : ∀ s d, Registered ⟨some (m.setStore name id s), tree.setPartition name id d⟩ := by
    refine fun s d => ⟨registered.whole, ?_⟩
    rintro _ ⟨⟩ other
    rw [setStore_entries]
    exact registered.topics m rfl other
  have meets : Meets anything (appendTo name id now records) m tree
      ⟨fun _ m' tree' => Registered ⟨some m', tree'⟩, fun _ m' tree' => Registered ⟨some m', tree'⟩,
       fun tree' => Registered ⟨none, tree'⟩⟩ := by
    apply Meets.bind
    apply Meets.memory
    dsimp only
    cases resolved : m.getPartition name id with
    | error reason => exact Meets.throw registered
    | ok s =>
      refine meets_onStore (getPartition_ok.mp resolved) ((Meets.any _ s _).mono ?_ ?_ ?_)
      · exact fun _ s' d _ => same s' d
      · exact fun _ s' d _ => same s' d
      · exact fun d _ => .stopped registered.whole
  refine replied (fun reply h' => Registered h' ∧
    Unclobbered ⟨⟨some m, tree⟩, ⟨.append name id now records, faults⟩, reply, h'⟩)
    ((meets.met (fun _ _ => trivial)).mono ?_ ?_ ?_)
  · exact fun _ _ _ after => ⟨after, unclobbered_other (by simp) (by simp)⟩
  · exact fun _ _ _ after => ⟨after, unclobbered_other (by simp) (by simp)⟩
  · exact fun _ after => ⟨after, unclobbered_other (by simp) (by simp)⟩

theorem Registered.follows (registered : Registered h) (firm : FirmStart past h step) :
    Registered (h.perform step).2 ∧ Unclobbered (happen Host.perform h step) := by
  obtain ⟨request, faults⟩ := step
  obtain ⟨manager, tree⟩ := h
  cases request with
  | newManager order config => exact newManager_unclobbered registered.whole firm
  | setRetentionDefaults maxAgeSeconds maxBytes =>
    cases manager with
    | none =>
      exact ⟨registered, unclobbered_other (by simp [happen, Host.perform]) (by simp [happen])⟩
    | some m =>
      refine ⟨⟨registered.whole, ?_⟩,
        unclobbered_other (fun other => by cases other) (by simp [happen])⟩
      rintro _ ⟨⟩ other
      exact registered.topics m rfl other
  | createTopic name count retention =>
    cases manager with
    | none =>
      exact ⟨registered, by simp [happen, Host.perform],
        fun _ _ _ _ other dt recorded => ⟨recorded, fun _ => rfl⟩⟩
    | some m => exact createTopic_unclobbered registered
  | append name id now records =>
    cases manager with
    | none =>
      exact ⟨registered, unclobbered_other (by simp [happen, Host.perform]) (by simp [happen])⟩
    | some m => exact append_unclobbered registered

/-- Where no start is misled about the metadata file, no topic is lost or overwritten. -/
theorem topics_unclobbered (run : Run Host.perform FirmStart Host.new past h)
    (firm : FirmStart past h step) :
    Unclobbered (happen Host.perform h step) := by
  have first : Registered Host.new := .stopped nofun
  have registered : Registered h :=
    @Run.invariant _ _ _ _ _ _ _ _ (fun _ h => Registered h) run first
    fun _ _ _ registered firm => (registered.follows firm).1
  exact (registered.follows firm).2

/-- A topic survives a restart, in which everything but the first operation fails, and a creation of
    its name behind the next restart. -/
theorem topics_unclobbered_restarts :
    let start (faults : List Fault) : HostStep :=
      ⟨.newManager .inOrder ⟨1000, 1000, 10, .sync⟩, faults⟩
    let create (faults : List Fault) : HostStep := ⟨.createTopic [97] 1 ⟨0, 0⟩, faults⟩
    let history := execute Host.perform [] Host.new
      [start [], create [], ⟨.append [97] 0 5000000 [⟨none, some [97], [], 0⟩], []⟩,
        start [.pass, .fail 0, .fail 0], start []]
    history.2.manager.isSome ∧ history.2.tree.recorded.lookup [97] = some ⟨[97], 1, ⟨0, 0⟩⟩ ∧
      Unclobbered (happen Host.perform history.2 (create [.fail 0])) :=
  ⟨by decide +kernel, by decide +kernel,
    topics_unclobbered (run_execute .start (by decide +kernel)) trivial⟩

/-- The first look at the metadata file fails, and the process starts without the recorded topic.
    Creating it again changes the number of its partitions, and failing to create it removes a
    directory with records. -/
theorem topics_clobbered :
    let history := execute Host.perform [] Host.new
      [⟨.newManager .inOrder ⟨1000, 1000, 10, .sync⟩, []⟩, ⟨.createTopic [97] 1 ⟨0, 0⟩, []⟩,
       ⟨.append [97] 0 5000000 [⟨none, some [97], [], 0⟩], []⟩]
    let restarted :=
      happen Host.perform history.2 ⟨.newManager .inOrder ⟨1000, 1000, 10, .sync⟩, [.fail 0]⟩
    let again := happen Host.perform restarted.after ⟨.createTopic [97] 2 ⟨0, 0⟩, []⟩
    let failed := happen Host.perform restarted.after ⟨.createTopic [97] 1 ⟨0, 0⟩, [.fail 0]⟩
    restarted.outcome = .started ∧ ¬ Unclobbered restarted ∧
      again.after.tree.recorded.lookup [97] = some ⟨[97], 2, ⟨0, 0⟩⟩ ∧ ¬ Unclobbered again ∧
      (failed.after.tree.partitions [97] 0).present = false ∧ ¬ Unclobbered failed := by
  intro history restarted again failed
  have recorded : restarted.before.tree.recorded.lookup [97] = some ⟨[97], 1, ⟨0, 0⟩⟩ := by
    decide +kernel
  have started : restarted.outcome = .started := rfl
  have running : restarted.after.manager.isSome := by decide +kernel
  have empty : ∀ m ∈ restarted.after.manager, m.topics.lookup [97] = none := by decide +kernel
  have still : restarted.after.tree.recorded.lookup [97] = some ⟨[97], 1, ⟨0, 0⟩⟩ := by
    decide +kernel
  have present : (restarted.after.tree.partitions [97] 0).present = true := by decide +kernel
  have changed : again.after.tree.recorded.lookup [97] = some ⟨[97], 2, ⟨0, 0⟩⟩ := by decide +kernel
  have gone : (failed.after.tree.partitions [97] 0).present = false := by decide +kernel
  refine ⟨started, ?_, changed, ?_, gone, ?_⟩
  · intro unclobbered
    obtain ⟨m, here⟩ := Option.isSome_iff_exists.mp running
    obtain ⟨t, found, _⟩ := unclobbered.loaded started m here [97] _ recorded
    rw [empty m here] at found
    cases found
  · intro unclobbered
    have kept := (unclobbered.kept [97] 2 ⟨0, 0⟩ rfl [97] _ still).1
    rw [changed] at kept
    cases kept
  · intro unclobbered
    have kept := (unclobbered.kept [97] 1 ⟨0, 0⟩ rfl [97] _ still).2 0
    rw [show failed.before = restarted.after from rfl] at kept
    rw [kept, present] at gone
    cases gone

end Steps

end MessageBroker.Topics
