import MessageBroker.Storage.Footprint
import MessageBroker.Topics.Streams

namespace MessageBroker.Topics

open Faulty Program Storage

/-! ## What calls do to the tree -/

/-- The metadata file stays, and every directory goes where `may` lets it. -/
structure Steps (may : Bytes → Nat → Directory → Directory → Prop) (tree tree' : Tree) : Prop where
  metadata : tree'.metadata = tree.metadata
  partitions : ∀ name id, may name id (tree.partitions name id) (tree'.partitions name id)

instance (may : Bytes → Nat → Directory → Directory → Prop)
    [∀ name id, IsPreorder Directory (may name id)] :
    IsPreorder Tree (Steps may) where
  refl _ := ⟨rfl, fun name id => refl_of (may name id) _⟩
  trans _ _ _ first second := ⟨second.metadata.trans first.metadata,
    fun name id => trans_of (may name id) (first.partitions name id) (second.partitions name id)⟩

theorem touches_onStore {α : Type} {may : Bytes → Nat → Directory → Directory → Prop}
    [∀ name id, IsPreorder Directory (may name id)] {name : Bytes} {id : Nat}
    {call : StoreProgram α} (touches : Touches (may name id) call) :
    Touches (Steps may) (onStore name id call) := by
  refine Touches.memory.bind fun m => ?_
  split
  · exact Touches.die
  refine (touches.focus fun tree d after => ⟨rfl, fun other otherId => ?_⟩).mapError
  by_cases own : (other, otherId) = (name, id)
  · cases own
    rw [partitions_setPartition_self]
    exact after
  · rw [partitions_setPartition_other own]
    exact refl_of (may other otherId) _

/-! ## Directories that are there -/

/-- Recorded topics are as `newManager` expects them, and their directories are there. -/
structure Housed (tree : Tree) : Prop where
  proper : ∀ name dt, tree.recorded.lookup name = some dt → dt.Proper name
  present : ∀ name id, tree.Lists name id → (tree.partitions name id).present = true

def PresentIn (listed : Prop) (d : Directory) : Prop := listed → d.present = true

theorem opening_present (config : Config) (listed : Prop) :
    Opening anything True config (PresentIn listed) (fun _ d => d.present = true) where
  drops _ _ here _ := here
  opens d kept := ((leaves_openStore config).meets
    ((touches_openStore permits_present config).meets (Meets.any _ _ d))).mono
    (fun _ _ _ after => after.2) (fun _ _ _ after => ⟨trivial, fun must => after.2 (kept must)⟩)
    fun _ after => ⟨trivial, fun must => after.2 (kept must)⟩
  closes s d kept := ((touches_closeStore permits_present).meets (Meets.any _ s d)).mono
    (fun _ _ _ after must => after.2 (kept must)) (fun _ _ _ after must => after.2 (kept must))
    fun _ after must => after.2 (kept must)

theorem keeping_present (config : Config) :
    Keeping anything config (PresentIn False) (fun _ d => d.present = true) :=
  { opening_present config False with
    erases := fun _ _ _ impossible => impossible.elim
    vanishes := fun _ _ impossible => impossible.elim }

section Housed

variable {tree tree' : Tree} {m : Manager} {order : MapOrder} {config : Config}
  {faults : List Fault}

theorem housed_empty : Housed Tree.empty where
  proper _ _ nothing := by cases nothing
  present := by
    rintro _ _ ⟨_, nothing, _⟩
    cases nothing

theorem Housed.standing (housed : Housed tree) :
    Standing (fun name id => PresentIn (tree.Lists name id)) tree.metadata tree :=
      ⟨rfl, housed.present⟩

theorem Housed.of_standing (housed : Housed tree)
    (standing : Standing (fun name id => PresentIn (tree.Lists name id)) tree.metadata tree') :
    Housed tree' where
  proper := by
    rw [Tree.recorded_same standing.metadata]
    exact housed.proper
  present name id listed := standing.kept name id ((lists_same standing.metadata).mp listed)

theorem Housed.steps (housed : Housed tree) (steps : Steps (fun _ _ => Present) tree tree') :
    Housed tree' :=
  housed.of_standing ⟨steps.metadata,
    fun name id listed => steps.partitions name id (housed.present name id listed)⟩

theorem Housed.newManager (housed : Housed tree) (whole : tree.metadata ≠ some .cut)
    (firm : Firm faults) :
    Post.met ⟨fun _ _ tree' => Housed tree', fun _ _ tree' => Housed tree',
      fun tree' => Housed tree'⟩
      (Topics.newManager order config ⟨(), tree, faults⟩) :=
  Post.met.mono (@newManager_run Unit () anything True config _ _ tree order
    (fun name id => opening_present config (tree.Lists name id)) (fun _ => trivial) faults whole
    (fun _ _ _ => Or.inr trivial) (fun _ _ _ _ _ _ _ => Or.inr trivial) housed.standing
    (fun _ _ => trivial) firm)
    (fun _ _ _ after => housed.of_standing after.1) (fun _ _ _ after => housed.of_standing after.2)
    fun _ after => housed.of_standing after.2

theorem Housed.close (housed : Housed tree) :
    Housed (Manager.close order ⟨m, tree, faults⟩).2.disk := by
  have meets : Meets anything (Manager.close order) m tree
      (.always (Standing (fun name id => PresentIn (tree.Lists name id)) tree.metadata)) := by
    apply Meets.bind
    apply Meets.memory
    apply Meets.bind
    refine (meets_closePartitions
      (fun name id => (opening_present m.config (tree.Lists name id)).closes)
      housed.standing).mono (fun failed _ tree' standing => ?_) (fun _ _ _ standing => standing)
      fun _ standing => standing
    cases failed with
    | nil => exact Meets.pure standing
    | cons _ _ => exact Meets.throw standing
  have standing : Standing (fun name id => PresentIn (tree.Lists name id)) tree.metadata
      (Manager.close order ⟨m, tree, faults⟩).2.disk := meets.always fun _ _ => trivial
  exact housed.of_standing standing

theorem Housed.undone {name : Bytes} (housed : Housed tree)
    (fresh : tree.recorded.lookup name = none)
    (confined : Confined (PresentIn False) name tree tree.metadata tree') : Housed tree' := by
  refine housed.of_standing ⟨confined.metadata, ?_⟩
  rintro other id ⟨dt, recorded, inside⟩
  have differs : other ≠ name := by
    rintro rfl
    rw [fresh] at recorded
    cases recorded
  rw [confined.others differs id]
  exact housed.present other id ⟨dt, recorded, inside⟩

theorem Housed.added {name : Bytes} {count : Int} {retention : RetentionPolicy}
    {stores : List Store} (housed : Housed tree) (valid : topicNameMatches name) (low : 0 < count)
    (high : count ≤ maxPartitionsPerTopic) (length : stores.length = count.toNat)
    (confined : Confined (PresentIn False) name tree
      (some (.encoded (tree.recorded.insert name ⟨name, count, retention⟩))) tree')
    (opened : ∀ id s, stores[id]? = some s → (tree'.partitions name id).present = true) :
    Housed tree' := by
  have recorded : tree'.recorded = tree.recorded.insert name ⟨name, count, retention⟩ := by
    rw [Tree.recorded, confined.metadata]
  refine ⟨fun other dt found => ?_, ?_⟩
  · rw [recorded] at found
    by_cases own : other = name
    · rw [own, AList.lookup_insert] at found
      cases found
      exact ⟨own.symm, by rw [own]; exact valid, low, high⟩
    · rw [AList.lookup_insert_ne own] at found
      exact housed.proper other dt found
  · rintro other id ⟨dt, found, inside⟩
    rw [recorded] at found
    by_cases own : other = name
    · subst own
      rw [AList.lookup_insert] at found
      cases found
      have place : id < stores.length := by
        rw [length]
        exact inside
      exact opened id _ (List.getElem?_eq_getElem place)
    · rw [AList.lookup_insert_ne own] at found
      rw [confined.others own id]
      exact housed.present other id ⟨dt, found, inside⟩

theorem Housed.createTopic {name : Bytes} {count : Int} {retention : RetentionPolicy}
    (housed : Housed tree) (registered : Registered ⟨some m, tree⟩) :
    Meets anything (Topics.createTopic name count retention) m tree (.always Housed) := by
  have fresh : m.topics.lookup name = none → tree.recorded.lookup name = none := by
    intro absent
    rw [← registered.topics m rfl name, absent]
    rfl
  refine meets_createTopic (keeping_present m.config) registered.whole
    (fun _ _ impossible => impossible.elim) (fun _ => housed) ?_ ?_ ?_ ?_
  · exact fun _ valid low high _ _ length confined opened =>
      housed.added valid low high length confined opened
  · exact fun absent _ _ confined => housed.undone (fresh absent) confined
  · exact fun absent _ confined => housed.undone (fresh absent) confined
  · exact fun _ valid low high _ _ length confined opened =>
      housed.added valid low high length confined opened

end Housed

/-! ## A start on a healthy disk -/

section Restart

variable {limit : Int} {J : Bytes → Nat → Journal} {L : Bytes → Nat → List Batch} {tree : Tree}
  {order : MapOrder} {config : Config}

theorem meets_newManager {kept : Bytes → Nat → Directory → Prop}
    {ready : Bytes → Nat → Store → Directory → Prop}
    (loads : ∀ name id, Opening never False config (kept name id) (ready name id))
    (whole : tree.metadata ≠ some .cut) (housed : Housed tree)
    (present : ∀ name id, tree.Lists name id → ∀ d, kept name id d → d.present = true)
    (standing : Standing kept tree.metadata tree) :
    Meets never (newManager order config) () tree
      ⟨fun mgr _ tree' =>
        Standing kept tree.metadata tree' ∧
          mgr.config = config ∧ Serves ready tree.recorded mgr tree',
       fun _ _ _ => False, fun _ => False⟩ := by
  have nothing : Loaded config ready tree.recorded [] ⟨∅, config, 0, 0⟩ tree := by
    refine ⟨rfl, fun _ member => absurd member List.not_mem_nil, fun _ _ => rfl,
      fun _ _ _ found => ?_⟩
    cases found
  unfold newManager
  apply Meets.bind
  apply Meets.attempt
  refine meets_treeOperation ?_ (fun shaky => absurd shaky not_shaky_never)
    (fun shaky => absurd shaky not_shaky_never)
  cases found : tree.metadata with
  | none =>
    have empty : tree.recorded = ∅ := by simp [Tree.recorded, found]
    refine Meets.pure ⟨by rw [← found]; exact standing, rfl, fun name => ?_, nothing.stores⟩
    rw [empty]
    rfl
  | some text =>
    cases text with
    | cut => exact absurd found whole
    | encoded topics =>
      have same : tree.recorded = topics := by simp [Tree.recorded, found]
      have proper : ∀ name dt, topics.lookup name = some dt → dt.Proper name ∨ False :=
        fun name dt recorded => Or.inl (housed.proper name dt (by rw [same]; exact recorded))
      have there : ∀ name dt,
          topics.lookup name = some dt → ∀ id, id < dt.partitionCount.toNat → ∀ d, kept name id d →
          d.present = true ∨ False :=
        fun name dt recorded id inside d here =>
          Or.inl (present name id ⟨dt, by rw [same]; exact recorded, inside⟩ d here)
      rw [found] at standing
      rw [same] at nothing ⊢
      dsimp only
      apply Meets.bind
      refine meets_treeOperation ?_ (fun shaky => absurd shaky not_shaky_never)
        (fun shaky => absurd shaky not_shaky_never)
      rw [found]
      refine Meets.bind (Meets.pure ?_)
      refine meets_loadTopics loads not_shaky_never [] proper there standing nothing ?_
        (fun bad => bad.elim) (fun bad => bad.elim)
      intro mgr tree' standing' loaded
      rw [List.nil_append] at loaded
      refine ⟨standing', loaded.config, fun name => ?_, loaded.stores⟩
      by_cases member : name ∈ order.visit topics.keys
      · exact loaded.found name member
      · have absent : name ∉ topics :=
          fun inside => member ((order.perm _).mem_iff.mpr (AList.mem_keys.mp inside))
        rw [loaded.absent name member, AList.lookup_eq_none.mpr absent]
        rfl

/-- What a start finds in a directory that it can open. -/
def Openable (limit : Int) (J : Journal) (listed : Prop) (d : Directory) : Prop :=
  Holds (crashPolicy limit) J d ∧ PresentIn listed d

theorem opening_openable {J : Journal} (setting : config.maxBatchBytes = limit)
    (readable : ∀ b ∈ J.batches, b.Readable) (listed : Prop) :
    Opening never False config (Openable limit J listed)
      (fun s d => s.config.maxBatchBytes = limit ∧
        Represents limit J s d ∧ d.present = true ∧ s.closed = false ∧
        s.writeFailed = false) where
  drops _ _ ready := ⟨Or.inl (ready.2.1.laid (le_refl limit)), fun _ => ready.2.2.1⟩
  opens d kept := by
    have opens : Meets never (openStore config) () d
        ⟨fun s _ d' =>
          s.config.maxBatchBytes = limit ∧
            Represents limit J s d' ∧ s.closed = false ∧ s.writeFailed = false,
         fun _ _ _ => False, fun _ => False⟩ := by
      refine meets_openStore kept.1 (le_of_eq setting.symm) ?_ ?_
        (fun shaky => absurd shaky not_shaky_never)
      · exact fun s d' represents same opened healthy =>
          ⟨by rw [same, setting], represents, opened, healthy⟩
      · rintro (shaky | ⟨b, member, bad⟩)
        · exact absurd shaky not_shaky_never
        · exact absurd (readable b member) bad
    exact ((leaves_openStore config).meets opens).mono
      (fun _ _ _ after => ⟨after.1.1, after.1.2.1, after.2, after.1.2.2⟩)
      (fun _ _ _ impossible => impossible.elim) fun _ impossible => impossible.elim
  closes s d kept := by
    have after : ∀ d', Flushed d d' → Openable limit J listed d' := fun d' flushed =>
      ⟨kept.1.sameSegments flushed.sameSegments, fun must => flushed.present.trans (kept.2 must)⟩
    exact meets_closeStore (fun _ d' _ flushed => after d' flushed)
      (fun _ _ d' _ flushed => after d' flushed) fun _ d' flushed => after d' flushed

/-- A manager that has loaded every recorded topic and has a healthy store on every listed
    partition's journal. -/
structure Recovered (limit : Int) (J : Bytes → Nat → Journal) (recorded : TopicsMetadata)
    (m : Manager) (tree : Tree) : Prop where
  topics : ∀ name, (m.topics.lookup name).map Topic.entry = recorded.lookup name
  stores : ∀ name id s,
    m.store? name id = some s → s.config.maxBatchBytes = limit ∧ s.closed = false ∧
    s.writeFailed = false ∧ Represents limit (J name id) s (tree.partitions name id)

/-- On a healthy disk a process can always start, and it has everything the journals have. -/
theorem Rooted.recovers {manager : Option Manager} (rooted : Rooted limit J ⟨manager, tree⟩)
    (streams : Streams tree J L) (housed : Housed tree) (setting : config.maxBatchBytes = limit)
    (readable : ∀ name id, tree.Lists name id → ∀ b ∈ L name id, b.Readable) :
    ∃ m tree', Topics.newManager order config ⟨(), tree, []⟩ = (.ok m, ⟨(), tree', []⟩) ∧
      tree'.metadata = tree.metadata ∧
      Recovered limit J tree.recorded m tree' := by
  have decodable : ∀ name id, ∀ b ∈ (J name id).batches, b.Readable := by
    intro name id b member
    by_cases listed : tree.Lists name id
    · obtain ⟨gone, batches, _⟩ := streams.stream name id listed
      exact readable name id listed b (by rw [batches]; exact List.mem_append_right _ member)
    · rw [streams.unlisted name id listed] at member
      cases member
  have standing :
      Standing (fun name id => Openable limit (J name id) (tree.Lists name id)) tree.metadata
        tree :=
    ⟨rfl, fun name id => ⟨(rooted.tracks name id).holds, housed.present name id⟩⟩
  have starts := @meets_newManager tree order config _ _
    (fun name id => opening_openable setting (decodable name id) (tree.Lists name id)) rooted.whole
    housed (fun name id listed d here => here.2 listed) standing
  obtain ⟨m, _, tree', ran, after, _, serves⟩ :=
    starts.succeeds (fun _ _ _ impossible => impossible) (fun _ impossible => impossible)
  refine ⟨m, tree', ran, after.metadata, serves.topics, fun name id s found => ?_⟩
  obtain ⟨sized, represents, _, opened, healthy⟩ := serves.stores name id s found
  exact ⟨sized, opened, healthy, represents⟩

end Restart

end MessageBroker.Topics
