import MessageBroker.Storage.Blank
import MessageBroker.Topics.Clobbering

namespace MessageBroker.Topics

open Faulty Program Storage Runs

/-- A field of the policy is the default where the request leaves it zero, and what was requested
    otherwise. -/
structure FilledIn (requested defaults policy : RetentionPolicy) : Prop where
  defaultAge : requested.maxAgeSeconds = 0 → policy.maxAgeSeconds = defaults.maxAgeSeconds
  requestedAge : requested.maxAgeSeconds ≠ 0 → policy.maxAgeSeconds = requested.maxAgeSeconds
  defaultBytes : requested.maxBytes = 0 → policy.maxBytes = defaults.maxBytes
  requestedBytes : requested.maxBytes ≠ 0 → policy.maxBytes = requested.maxBytes

/-- The defaults behind a step: a process starts with none. -/
def defaultsAfter (defaults : RetentionPolicy) (event : HostEvent) : RetentionPolicy :=
  match event.input.request with
  | .newManager _ _ => ⟨0, 0⟩
  | .setRetentionDefaults maxAgeSeconds maxBytes => ⟨maxAgeSeconds, maxBytes⟩
  | _ => defaults

def defaultsInForce (past : List HostEvent) : RetentionPolicy := past.foldl defaultsAfter ⟨0, 0⟩

structure Changes (defaults : RetentionPolicy) (event : HostEvent) : Prop where
  created : ∀ name count retention topic, event.input.request = .createTopic name count retention →
    event.outcome = .created topic → ∃ policy, FilledIn retention defaults policy ∧
      topic.entry = ⟨name, count, policy⟩ ∧ event.before.tree.recorded.lookup name = none ∧
        event.after.tree.recorded = event.before.tree.recorded.insert name topic.entry
  failed : ∀ name count retention reason, event.input.request = .createTopic name count retention →
    event.outcome = .failed reason → event.after.manager = event.before.manager ∧
      event.after.tree.metadata = event.before.tree.metadata ∧
      ∀ other id, other ≠ name →
        event.after.tree.partitions other id = event.before.tree.partitions other id
  fixed : ∀ name dt, event.before.tree.recorded.lookup name = some dt →
    event.after.tree.recorded.lookup name = some dt

/-- The manager and the metadata file have the same topics, and every process that meets a healthy
    disk will have them, too. -/
structure Atomic (past : List HostEvent) (event : HostEvent) :
    Prop extends Changes (defaultsInForce past) event where
  whole : event.after.tree.metadata ≠ some .cut
  agrees : ∀ m ∈ event.after.manager, ∀ name,
    (m.topics.lookup name).map Topic.entry = event.after.tree.recorded.lookup name
  reopens : ∀ order config, ∃ m, (newManager order config ⟨(), event.after.tree, []⟩).1 = .ok m ∧
    ∀ name, (m.topics.lookup name).map Topic.entry = event.after.tree.recorded.lookup name

/-- Topics are created and processes started; only a start's first look at the metadata file does
    not fail. -/
def CreationCall (past : List HostEvent) (h : Host) (step : HostStep) : Prop :=
  FirmStart past h step ∧
    match step.request with
    | .append _ _ _ _ => False
    | _ => True

instance (past : List HostEvent) (h : Host) : ∀ step, Decidable (CreationCall past h step)
  | ⟨.newManager _ _, _⟩ | ⟨.setRetentionDefaults _ _, _⟩ | ⟨.createTopic _ _ _, _⟩
    | ⟨.append _ _ _ _, _⟩ =>
    inferInstanceAs (Decidable (_ ∧ _))

/-! ## Directories without records -/

/-- A blank directory, which is there when it has to be. -/
def BlankIn (listed : Prop) (d : Directory) : Prop := Blank d ∧ (listed → d.present = true)

theorem opening_blank {allowed : Fault → Prop} {trouble : Prop} (shaky : Shaky allowed → trouble)
    (config : Config) (listed : Prop) :
    Opening allowed trouble config (BlankIn listed) (fun _ d => Blank d ∧ d.present = true) where
  drops _ _ opened := ⟨opened.1, fun _ => opened.2⟩
  opens _ blank := blank.1.meets_openStore (fun _ _ after present => ⟨after, present⟩)
    (fun bad _ _ after kept => ⟨shaky bad, after, fun must => kept (blank.2 must)⟩)
    (fun bad _ after kept => ⟨shaky bad, after, fun must => kept (blank.2 must)⟩)
  closes s d blank := by
    have after : ∀ d', Flushed d d' → BlankIn listed d' := fun d' flushed =>
      ⟨blank.1.flushed flushed, fun must => flushed.present.trans (blank.2 must)⟩
    exact meets_closeStore (fun _ d' _ flushed => after d' flushed)
      (fun _ _ d' _ flushed => after d' flushed) fun _ d' flushed => after d' flushed

theorem keeping_blank (config : Config) :
    Keeping anything config (BlankIn False) (fun _ d => Blank d ∧ d.present = true) :=
  { opening_blank (fun _ => trivial) config False with
    erases := fun name _ blank => ⟨blank.1.erase name, False.elim⟩
    vanishes := fun _ blank => ⟨blank.1, False.elim⟩ }

def Tree.Lists (tree : Tree) (name : Bytes) (id : Nat) : Prop :=
  ∃ dt, tree.recorded.lookup name = some dt ∧ id < dt.partitionCount.toNat

/-- The directories are blank, and those of recorded topics are there. -/
structure Tidy (tree : Tree) : Prop where
  proper : ∀ name dt, tree.recorded.lookup name = some dt → dt.Proper name
  blank : ∀ name id, BlankIn (tree.Lists name id) (tree.partitions name id)

section Tidy

variable {tree tree' : Tree}

theorem tidy_empty : Tidy Tree.empty :=
  ⟨fun _ _ nothing => absurd nothing nofun,
    fun _ _ => ⟨blank_empty, fun ⟨_, impossible, _⟩ => absurd impossible nofun⟩⟩

theorem Tidy.standing (tidy : Tidy tree) :
    Standing (fun name id => BlankIn (tree.Lists name id)) tree.metadata tree :=
  ⟨rfl, tidy.blank⟩

theorem Tidy.of_standing (tidy : Tidy tree)
    (standing : Standing (fun name id => BlankIn (tree.Lists name id)) tree.metadata tree') :
    Tidy tree' := by
  have same := Tree.recorded_same standing.metadata
  refine ⟨by rw [same]; exact tidy.proper, fun name id => ?_⟩
  have lists : tree'.Lists name id ↔ tree.Lists name id := by
    unfold Tree.Lists
    rw [same]
  exact ⟨(standing.kept name id).1, fun listed => (standing.kept name id).2 (lists.mp listed)⟩

/-- Any process that meets a healthy disk loads the recorded topics. -/
theorem Tidy.reopens (tidy : Tidy tree) (whole : tree.metadata ≠ some .cut) (order : MapOrder)
    (config : Config) :
    ∃ m, (newManager order config ⟨(), tree, []⟩).1 = .ok m ∧
      ∀ name, (m.topics.lookup name).map Topic.entry = tree.recorded.lookup name := by
  have healthy : ∀ fault ∈ ([] : List Fault), never fault := by simp
  have ran := @newManager_run Unit () never False config _ _ tree order
    (fun name id => opening_blank not_shaky_never config (tree.Lists name id)) not_shaky_never
    [] whole (fun name dt recorded => Or.inl (tidy.proper name dt recorded))
    (fun name dt recorded id inside d blank => Or.inl (blank.2 ⟨dt, recorded, inside⟩))
    tidy.standing healthy (by simp [Firm])
  rcases result : newManager order config ⟨(), tree, []⟩ with ⟨exit, after⟩
  rw [result] at ran
  cases exit with
  | ok m => exact ⟨m, rfl, ran.2.2.topics⟩
  | error reason => exact ran.1.elim
  | died => exact ran.1.elim

theorem Tidy.undone {name : Bytes} (tidy : Tidy tree) (fresh : tree.recorded.lookup name = none)
    (confined : Confined (BlankIn False) name tree tree.metadata tree') : Tidy tree' := by
  have same := Tree.recorded_same confined.metadata
  refine ⟨by rw [same]; exact tidy.proper, fun other id => ?_⟩
  unfold Tree.Lists
  rw [same]
  by_cases own : other = name
  · subst own
    refine ⟨(confined.own id).1, ?_⟩
    rintro ⟨dt, recorded, _⟩
    rw [fresh] at recorded
    cases recorded
  · rw [confined.others own id]
    exact tidy.blank other id

theorem Tidy.added {name : Bytes} {count : Int} {retention : RetentionPolicy} {stores : List Store}
    (tidy : Tidy tree) (valid : topicNameMatches name) (low : 0 < count)
    (high : count ≤ maxPartitionsPerTopic) (length : stores.length = count.toNat)
    (confined : Confined (BlankIn False) name tree
      (some (.encoded (tree.recorded.insert name ⟨name, count, retention⟩))) tree')
    (opened : ∀ id s,
      stores[id]? = some s →
        Blank (tree'.partitions name id) ∧ (tree'.partitions name id).present = true) :
    Tidy tree' := by
  have recorded : tree'.recorded = tree.recorded.insert name ⟨name, count, retention⟩ := by
    rw [Tree.recorded, confined.metadata]
  refine ⟨fun other dt found => ?_, fun other id => ?_⟩
  · rw [recorded] at found
    by_cases own : other = name
    · rw [own, AList.lookup_insert] at found
      cases found
      exact ⟨own.symm, by rw [own]; exact valid, low, high⟩
    · rw [AList.lookup_insert_ne own] at found
      exact tidy.proper other dt found
  · unfold Tree.Lists
    rw [recorded]
    by_cases own : other = name
    · subst own
      refine ⟨(confined.own id).1, ?_⟩
      rintro ⟨dt, found, inside⟩
      rw [AList.lookup_insert] at found
      cases found
      have place : id < stores.length := by rw [length]; exact inside
      exact (opened id _ (List.getElem?_eq_getElem place)).2
    · rw [AList.lookup_insert_ne own, confined.others own id]
      exact tidy.blank other id

end Tidy

/-! ## The defaults -/

def Manager.defaults (m : Manager) : RetentionPolicy := ⟨m.defaultMaxAgeSeconds, m.defaultMaxBytes⟩

theorem Manager.resolve_filledIn (m : Manager) (retention : RetentionPolicy) :
    FilledIn retention m.defaults (m.resolve retention) :=
  ⟨fun zero => if_pos zero, fun given => if_neg given, fun zero => if_pos zero,
    fun given => if_neg given⟩

section Defaults

variable {order : MapOrder}

theorem meets_loadTopics_defaults (topics : TopicsMetadata) (names : List Bytes) (m : Manager)
    (tree : Tree) :
    Meets anything (loadTopics order topics names m) () tree
      ⟨fun (mgr : Manager) _ _ => mgr.defaults = m.defaults, fun _ _ _ => True, fun _ => True⟩ := by
  induction names generalizing m tree with
  | nil => exact Meets.pure rfl
  | cons name rest ih =>
    unfold loadTopics
    cases topics.lookup name with
    | none => exact ih m tree
    | some dt =>
      have loaded : Meets anything (loadTopic order m name dt) () tree
          ⟨fun (mgr : Manager) _ _ => mgr.defaults = m.defaults, fun _ _ _ => True,
            fun _ => True⟩ := by
        have abandons : ∀ reason, Meets anything (abandon order m reason) () tree
            ⟨fun (mgr : Manager) _ _ => mgr.defaults = m.defaults, fun _ _ _ => True,
              fun _ => True⟩ :=
          fun reason => Meets.bind
            ((Meets.any _ _ _).mono (fun _ _ _ _ => Meets.throw trivial) (fun _ _ _ _ => trivial)
            fun _ _ => trivial)
        unfold loadTopic
        split_ifs
        on_goal 3 =>
          exact Meets.bind
            ((Meets.any _ _ _).mono (fun _ _ _ _ => Meets.pure rfl) (fun _ _ _ _ => trivial)
            fun _ _ => trivial)
        all_goals exact abandons _
      refine Meets.bind
        (loaded.mono (fun mgr _ tree' same => ?_) (fun _ _ _ _ => trivial) fun _ _ => trivial)
      exact (ih mgr tree').mono (fun _ _ _ kept => kept.trans same) (fun _ _ _ _ => trivial)
        fun _ _ => trivial

theorem meets_newManager_defaults (config : Config) (tree : Tree) :
    Meets anything (newManager order config) () tree
      ⟨fun (mgr : Manager) _ _ => mgr.defaults = ⟨0, 0⟩, fun _ _ _ => True, fun _ => True⟩ := by
  unfold newManager
  refine Meets.bind
    ((Meets.any _ _ _).mono (fun found _ tree' _ => ?_) (fun _ _ _ _ => trivial) fun _ _ => trivial)
  cases found with
  | error reason => exact Meets.pure rfl
  | ok _ =>
    refine Meets.bind
      ((Meets.any _ _ _).mono (fun text _ tree' _ => ?_) (fun _ _ _ _ => trivial)
        fun _ _ => trivial)
    refine Meets.bind
      ((Meets.any _ _ _).mono (fun topics _ tree' _ => ?_) (fun _ _ _ _ => trivial)
        fun _ _ => trivial)
    exact meets_loadTopics_defaults topics _ _ _

end Defaults

section Steps

variable {h : Host} {step : HostStep} {past : List HostEvent} {m : Manager} {tree : Tree}
  {defaults : RetentionPolicy}

def Host.Defaults (h : Host) (defaults : RetentionPolicy) : Prop :=
  ∀ m ∈ h.manager, m.defaults = defaults

theorem Host.defaults_stopped (tree : Tree) : (Host.mk none tree).Defaults defaults :=
  fun _ gone => by cases gone

theorem Host.defaults_running (m : Manager) (tree : Tree) :
    (Host.mk (some m) tree).Defaults m.defaults := by
  rintro _ ⟨⟩
  rfl

theorem defaultsInForce_append (past : List HostEvent) (event : HostEvent) :
    defaultsInForce (past ++ [event]) = defaultsAfter (defaultsInForce past) event := by
  rw [defaultsInForce, List.foldl_append]
  rfl

theorem changes_other {event : HostEvent}
    (same : event.after.tree.metadata = event.before.tree.metadata)
    (noCreation : ∀ name count retention, event.input.request ≠ .createTopic name count retention) :
    Changes defaults event :=
  ⟨fun _ _ _ _ creation => absurd creation (noCreation _ _ _),
    fun _ _ _ _ creation => absurd creation (noCreation _ _ _),
    fun name dt recorded => by rw [Tree.recorded_same same]; exact recorded⟩

theorem newManager_tidy (manager : Option Manager) {order : MapOrder} {config : Config}
    {faults : List Fault} (tidy : Tidy tree) (whole : tree.metadata ≠ some .cut)
    (firm : Firm faults) :
    let event := happen Host.perform ⟨manager, tree⟩ ⟨.newManager order config, faults⟩
    Tidy event.after.tree ∧ Changes defaults event := by
  have after : ∀ reply h',
      Standing (fun name id => BlankIn (tree.Lists name id)) tree.metadata h'.tree →
      Tidy h'.tree ∧
        Changes defaults ⟨⟨manager, tree⟩, ⟨.newManager order config, faults⟩, reply, h'⟩ :=
    fun reply h' standing => ⟨tidy.of_standing standing, changes_other standing.metadata (by simp)⟩
  refine repliedStart (fun reply h' => Tidy h'.tree ∧
    Changes defaults ⟨⟨manager, tree⟩, ⟨.newManager order config, faults⟩, reply, h'⟩)
    ((@newManager_run Unit () anything True config _ _ tree order
      (fun name id => opening_blank (fun _ => trivial) config (tree.Lists name id))
      (fun _ => trivial) faults whole (fun _ _ _ => Or.inr trivial)
      (fun _ _ _ _ _ _ _ => Or.inr trivial) tidy.standing (fun _ _ => trivial) firm).mono
      ?_ ?_ ?_)
  · exact fun m _ tree' met => after _ _ met.1
  · exact fun reason _ tree' met => after _ _ met.2
  · exact fun tree' met => after _ _ met.2

theorem createTopic_tidy {name : Bytes} {count : Int} {retention : RetentionPolicy}
    {faults : List Fault} (registered : Registered ⟨some m, tree⟩) (tidy : Tidy tree) :
    let event := happen Host.perform ⟨some m, tree⟩ ⟨.createTopic name count retention, faults⟩
    Tidy event.after.tree ∧ event.after.Defaults m.defaults ∧ Changes m.defaults event := by
  have fresh : m.topics.lookup name = none → tree.recorded.lookup name = none := by
    intro absent
    rw [← registered.topics m rfl name, absent]
    rfl
  have failed : ∀ reason tree', Tidy tree' → tree'.metadata = tree.metadata →
      (∀ other id, other ≠ name → tree'.partitions other id = tree.partitions other id) →
      Tidy tree' ∧
      (Host.mk (some m) tree').Defaults m.defaults ∧
      Changes m.defaults ⟨⟨some m, tree⟩, ⟨.createTopic name count retention, faults⟩,
        .failed reason, ⟨some m, tree'⟩⟩ := by
    refine fun reason tree' tidy' same others => ⟨tidy', Host.defaults_running m tree', by simp, ?_,
      ?_⟩
    · rintro _ _ _ _ ⟨⟩ _
      exact ⟨rfl, same, others⟩
    · intro other dt recorded
      rw [Tree.recorded_same same]
      exact recorded
  have kept : ∀ (tree' : Tree) entry,
      tree'.metadata = some (.encoded (tree.recorded.insert name entry)) →
      m.topics.lookup name = none → ∀ other dt, tree.recorded.lookup other = some dt →
      tree'.recorded.lookup other = some dt := by
    intro tree' entry metadata absent other dt recorded
    have differs : other ≠ name := by
      rintro rfl
      rw [fresh absent] at recorded
      cases recorded
    rw [Tree.recorded, metadata]
    dsimp only
    rw [AList.lookup_insert_ne differs]
    exact recorded
  refine replied (fun reply h' => Tidy h'.tree ∧ h'.Defaults m.defaults ∧
    Changes m.defaults ⟨⟨some m, tree⟩, ⟨.createTopic name count retention, faults⟩, reply, h'⟩)
    ((meets_createTopic (keeping_blank m.config) registered.whole
      (fun _ id => ⟨(tidy.blank name id).1, False.elim⟩) ?_ ?_ ?_ ?_ ?_).met (fun _ _ => trivial))
  · exact fun reason => failed reason tree tidy rfl fun _ _ _ => rfl
  · intro absent valid low high stores tree' length confined opened
    refine ⟨tidy.added valid low high length confined opened, Host.defaults_running _ _,
      ?_, by simp, kept tree' _ confined.metadata absent⟩
    rintro _ _ _ _ ⟨⟩ ⟨⟩
    have entry : Topic.entry ⟨name, stores, m.resolve retention⟩ =
        ⟨name, count, m.resolve retention⟩ := by
      rw [Topic.entry, length, Int.toNat_of_nonneg (le_of_lt low)]
    refine ⟨_, m.resolve_filledIn retention, entry, fresh absent, ?_⟩
    rw [entry, Tree.recorded, confined.metadata]
  · intro absent reason tree' confined
    exact failed reason tree' (tidy.undone (fresh absent) confined) confined.metadata
      fun other id differs => confined.others differs id
  · intro absent tree' confined
    exact ⟨tidy.undone (fresh absent) confined, Host.defaults_stopped _, by simp, by simp,
      fun other dt recorded => by rw [Tree.recorded_same confined.metadata]; exact recorded⟩
  · intro absent valid low high stores tree' length confined opened
    exact ⟨tidy.added valid low high length confined opened, Host.defaults_stopped _, by simp,
      by simp, kept tree' _ confined.metadata absent⟩

theorem Tidy.follows (registered : Registered h) (tidy : Tidy h.tree)
    (current : h.Defaults defaults) (call : CreationCall past h step) :
    let event := happen Host.perform h step
    Tidy event.after.tree ∧ event.after.Defaults (defaultsAfter defaults event) ∧
      Changes defaults event := by
  obtain ⟨request, faults⟩ := step
  obtain ⟨manager, tree⟩ := h
  cases request with
  | newManager order config =>
    obtain ⟨tidy', changes⟩ := newManager_tidy manager tidy registered.whole call.1
    refine ⟨tidy', ?_, changes⟩
    refine repliedStart (fun _ h' => h'.Defaults ⟨0, 0⟩)
      (((meets_newManager_defaults config tree).met fun _ _ => trivial).mono ?_ ?_ ?_)
    · rintro mgr _ _ unset _ ⟨⟩
      exact unset
    · exact fun _ _ _ _ => Host.defaults_stopped _
    · exact fun _ _ => Host.defaults_stopped _
  | setRetentionDefaults maxAgeSeconds maxBytes =>
    cases manager with
    | none => exact ⟨tidy, Host.defaults_stopped _, changes_other rfl (by simp [happen])⟩
    | some m => exact ⟨tidy, Host.defaults_running _ _, changes_other rfl (by simp [happen])⟩
  | createTopic name count retention =>
    cases manager with
    | none =>
      exact ⟨tidy, Host.defaults_stopped _, by simp [happen, Host.perform],
        by simp [happen, Host.perform], fun _ _ recorded => recorded⟩
    | some m =>
      rw [← current m rfl]
      exact createTopic_tidy registered tidy
  | append name id now records => exact call.2.elim

/-- Whatever fails and whenever the process dies, a topic is created as a whole or not at all. -/
theorem creation_atomic (run : Run Host.perform CreationCall Host.new past h)
    (call : CreationCall past h step) :
    Atomic past (happen Host.perform h step) := by
  have first : Registered Host.new ∧ Tidy Host.new.tree ∧ Host.new.Defaults (defaultsInForce []) :=
    ⟨.stopped nofun, tidy_empty, Host.defaults_stopped _⟩
  obtain ⟨registered, tidy, current⟩ := @Run.invariant _ _ _ _ _ _ _ _
    (fun past h => Registered h ∧ Tidy h.tree ∧ h.Defaults (defaultsInForce past)) run first
    fun past _ _ state call => by
      obtain ⟨tidy', current', _⟩ := Tidy.follows state.1 state.2.1 state.2.2 call
      exact ⟨(state.1.follows call.1).1, tidy', defaultsInForce_append past _ ▸ current'⟩
  have after := (registered.follows call.1).1
  obtain ⟨tidy', _, changes⟩ := Tidy.follows registered tidy current call
  exact { changes with
    whole := after.whole
    agrees := after.topics
    reopens := tidy'.reopens after.whole }

/-- A creation fails at the rename and is taken back, one succeeds, and one dies behind the rename.
    The first policy leaves the age to the defaults, the second the size. -/
theorem creation_atomic_interrupted :
    let start : HostStep := ⟨.newManager .inOrder ⟨1000, 1000, 10, .sync⟩, []⟩
    let create (name : UInt8) (retention : RetentionPolicy) (faults : List Fault) : HostStep :=
      ⟨.createTopic [name] 2 retention, faults⟩
    let history := execute Host.perform [] Host.new
      [start, ⟨.setRetentionDefaults 60 9, []⟩,
        create 97 ⟨0, 7⟩ (List.replicate 18 .pass ++ [.fail 0])]
    let created := happen Host.perform history.2 (create 98 ⟨5, 0⟩ [])
    let later := execute Host.perform history.1 history.2 [create 98 ⟨5, 0⟩ []]
    let died := happen Host.perform later.2 (create 97 ⟨0, 7⟩ (List.replicate 20 .pass ++ [.die 0]))
    history.2.tree.recorded.lookup [97] = none ∧
      created.after.tree.recorded.lookup [98] = some ⟨[98], 2, ⟨5, 9⟩⟩ ∧
      died.after.tree.recorded.lookup [97] = some ⟨[97], 2, ⟨60, 7⟩⟩ ∧
      Atomic history.1 created ∧ Atomic later.1 died := by
  intro start create history created later died
  have run : Run Host.perform CreationCall Host.new history.1 history.2 :=
    run_execute .start (by decide +kernel)
  have run' : Run Host.perform CreationCall Host.new later.1 later.2 :=
    run_execute run (by decide +kernel)
  exact ⟨by decide +kernel, by decide +kernel, by decide +kernel,
    creation_atomic run ⟨trivial, trivial⟩, creation_atomic run' ⟨trivial, trivial⟩⟩

end Steps

end MessageBroker.Topics
