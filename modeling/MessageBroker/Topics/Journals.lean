import MessageBroker.Topics.Registry

namespace MessageBroker.Topics

open Faulty Program Storage Runs

/-- Every partition has its journal; names that are not recorded have no records. -/
structure Rooted (limit : Int) (J : Bytes → Nat → Journal) (h : Host) :
    Prop extends Registered h where
  config : ∀ m ∈ h.manager, m.config.maxBatchBytes = limit
  blank : ∀ name, h.tree.recorded.lookup name = none → ∀ id, Blank (h.tree.partitions name id)
  tracks : ∀ name id, Tracks anything (crashPolicy limit) (·.maxBatchBytes = limit) (J name id)
    ⟨h.manager.bind fun m => m.store? name id, h.tree.partitions name id⟩

/-- Listed partitions stay listed, and their logs do not get shorter. -/
def Grows (tree : Tree) (J : Bytes → Nat → Journal) (tree' : Tree) (J' : Bytes → Nat → Journal) :
    Prop :=
  ∀ name id, tree.Lists name id → tree'.Lists name id ∧ (J name id).logEnd ≤ (J' name id).logEnd

def Advances (limit : Int) (J : Bytes → Nat → Journal) (tree : Tree) (h : Host) : Prop :=
  ∃ J', Rooted limit J' h ∧ Grows tree J h.tree J'

section Journals

variable {limit : Int} {J : Bytes → Nat → Journal} {m : Manager} {tree tree' : Tree} {name : Bytes}
  {id : Nat}

theorem grows_same (same : tree'.metadata = tree.metadata) : Grows tree J tree' J := by
  intro name id listed
  unfold Tree.Lists
  rw [Tree.recorded_same same]
  exact ⟨listed, le_refl _⟩

theorem rooted_new : Rooted limit (fun _ _ => Journal.initial) Host.new where
  toRegistered := .stopped nofun
  config _ nothing := by cases nothing
  blank _ _ _ := blank_empty
  tracks _ _ := .stopped blank_empty.holds

theorem Rooted.lists (rooted : Rooted limit J ⟨some m, tree⟩) :
    tree.Lists name id ↔ ∃ s, m.store? name id = some s := by
  have topics := rooted.topics m rfl name
  change (m.topics.lookup name).map Topic.entry = tree.recorded.lookup name at topics
  constructor
  · rintro ⟨dt, recorded, inside⟩
    rw [recorded, Option.map_eq_some_iff] at topics
    obtain ⟨t, found, rfl⟩ := topics
    rw [store?_eq found]
    exact ⟨_, List.getElem?_eq_getElem (by simpa [Topic.entry] using inside)⟩
  · rintro ⟨s, store⟩
    cases found : m.topics.lookup name with
    | none => simp [Manager.store?, found] at store
    | some t =>
      rw [found] at topics
      rw [store?_eq found] at store
      exact ⟨_, topics.symm, by simpa [Topic.entry] using (List.getElem?_eq_some_iff.mp store).1⟩

theorem Rooted.logEnd {s : Store} (rooted : Rooted limit J ⟨some m, tree⟩)
    (found : m.store? name id = some s) :
    s.logEndOffset = (J name id).logEnd :=
  ((rooted.tracks name id).offsets found).1

theorem Rooted.stays (rooted : Rooted limit J ⟨some m, tree⟩) :
    Advances limit J tree ⟨some m, tree⟩ :=
  ⟨J, rooted, grows_same rfl⟩

theorem Rooted.admits (rooted : Rooted limit J ⟨some m, tree⟩) (name : Bytes) (id : Nat)
    (small : limit < 2 ^ 31) (action : Action) :
    Admits (crashPolicy limit) ⟨m.store? name id, tree.partitions name id⟩ action :=
  (rooted.tracks name id).admits small (fun _ setting => le_of_eq setting) action

theorem Rooted.stop (rooted : Rooted limit J ⟨some m, tree⟩) : Rooted limit J ⟨none, tree⟩ where
  toRegistered := .stopped rooted.whole
  config _ nothing := by cases nothing
  blank := rooted.blank
  tracks name id := .stopped (rooted.tracks name id).holds

/-! ## Starting and closing -/

def Kept (limit : Int) (J : Journal) (unrecorded : Prop) (d : Directory) : Prop :=
  Holds (crashPolicy limit) J d ∧ (unrecorded → Blank d)

theorem Rooted.standing {manager : Option Manager} (rooted : Rooted limit J ⟨manager, tree⟩) :
    Standing (fun name id => Kept limit (J name id) (tree.recorded.lookup name = none))
      tree.metadata tree :=
  ⟨rfl, fun name id => ⟨(rooted.tracks name id).holds, fun absent => rooted.blank name absent id⟩⟩

theorem Rooted.stopped {manager : Option Manager} (rooted : Rooted limit J ⟨manager, tree⟩)
    (standing : Standing (fun name id => Kept limit (J name id) (tree.recorded.lookup name = none))
      tree.metadata tree') :
    Rooted limit J ⟨none, tree'⟩ where
  toRegistered := .stopped (by rw [standing.metadata]; exact rooted.whole)
  config _ nothing := by cases nothing
  blank name absent id := (standing.kept name id).2
    (by rwa [Tree.recorded_same standing.metadata] at absent)
  tracks name id := .stopped (standing.kept name id).1

theorem opening_journal {config : Config} {J : Journal} (setting : config.maxBatchBytes = limit)
    (unrecorded : Prop) :
    Opening anything True config (Kept limit J unrecorded)
      (fun s d => s.config.maxBatchBytes = limit ∧ Represents limit J s d ∧ (unrecorded → Blank d))
      where
  drops _ _ ready := ⟨Or.inl (ready.2.1.laid (le_refl limit)), ready.2.2⟩
  opens d kept := by
    have blank : Meets anything (openStore config) () d
        (.always fun d' => unrecorded → Blank d') := by
      by_cases absent : unrecorded
      · exact (kept.2 absent).meets_openStore (fun _ _ after _ _ => after)
          (fun _ _ _ after _ _ => after) fun _ _ after _ _ => after
      · exact (Meets.any _ _ _).mono (fun _ _ _ _ here => absurd here absent)
          (fun _ _ _ _ here => absurd here absent) fun _ _ here => absurd here absent
    have journal : Meets anything (openStore config) () d
        ⟨fun s _ d' => s.config.maxBatchBytes = limit ∧ Represents limit J s d',
         fun _ _ d' => Holds (crashPolicy limit) J d', fun d' => Holds (crashPolicy limit) J d'⟩ :=
      meets_openStore kept.1 (le_of_eq setting.symm)
        (fun s d' represents same _ _ => ⟨by rw [same, setting], represents⟩)
        (fun _ _ _ holds => holds) (fun _ _ holds => holds)
    exact (journal.both blank).mono (fun _ _ _ ready => ⟨ready.1.1, ready.1.2, ready.2⟩)
      (fun _ _ _ after => ⟨trivial, after⟩) fun _ after => ⟨trivial, after⟩
  closes s d kept := by
    have after : ∀ d', Flushed d d' → Kept limit J unrecorded d' := fun d' flushed =>
      ⟨kept.1.sameSegments flushed.sameSegments, fun absent => (kept.2 absent).flushed flushed⟩
    exact meets_closeStore (fun _ d' _ flushed => after d' flushed)
      (fun _ _ d' _ flushed => after d' flushed) fun _ d' flushed => after d' flushed

/-- A start whose first look at the metadata file does not fail finds every journal. -/
theorem Rooted.newManager {manager : Option Manager} {order : MapOrder} {config : Config}
    {faults : List Fault} (rooted : Rooted limit J ⟨manager, tree⟩)
    (setting : config.maxBatchBytes = limit) (firm : Firm faults) :
    Post.met ⟨fun m _ tree' => Rooted limit J ⟨some m, tree'⟩ ∧ tree'.metadata = tree.metadata,
      fun _ _ tree' => Rooted limit J ⟨none, tree'⟩ ∧ tree'.metadata = tree.metadata,
      fun tree' => Rooted limit J ⟨none, tree'⟩ ∧ tree'.metadata = tree.metadata⟩
      (Topics.newManager order config ⟨(), tree, faults⟩) := by
  refine Post.met.mono (@newManager_run Unit () anything True config _ _ tree order
    (fun name id => opening_journal (J := J name id) setting (tree.recorded.lookup name = none))
    (fun _ => trivial) faults rooted.whole (fun _ _ _ => Or.inr trivial)
    (fun _ _ _ _ _ _ _ => Or.inr trivial) rooted.standing (fun _ _ => trivial) firm) ?_ ?_ ?_
  · rintro m _ tree' ⟨standing, same, serves⟩
    have stopped := rooted.stopped standing
    refine ⟨⟨⟨stopped.whole, ?_⟩, ?_, stopped.blank, fun name id => ?_⟩, standing.metadata⟩
    · rintro _ ⟨⟩ name
      rw [serves.topics, Tree.recorded_same standing.metadata]
    · rintro _ ⟨⟩
      rw [same, setting]
    · show Tracks _ _ _ _ ⟨m.store? name id, _⟩
      cases found : m.store? name id with
      | none => exact stopped.tracks name id
      | some s =>
        obtain ⟨sized, represents, _⟩ := serves.stores name id s found
        exact .running sized represents
  · exact fun _ _ tree' after => ⟨rooted.stopped after.2, after.2.metadata⟩
  · exact fun tree' after => ⟨rooted.stopped after.2, after.2.metadata⟩

theorem Rooted.close {order : MapOrder} {faults : List Fault}
    (rooted : Rooted limit J ⟨some m, tree⟩) :
    Rooted limit J ⟨none, (Manager.close order ⟨m, tree, faults⟩).2.disk⟩ ∧
      (Manager.close order ⟨m, tree, faults⟩).2.disk.metadata = tree.metadata := by
  have closes := fun name id => (@opening_journal limit m.config (J name id) (rooted.config m rfl)
    (tree.recorded.lookup name = none)).closes
  have meets : Meets anything (Manager.close order) m tree
      (.always (Standing (fun name id => Kept limit (J name id) (tree.recorded.lookup name = none))
        tree.metadata)) := by
    apply Meets.bind
    apply Meets.memory
    apply Meets.bind
    refine (meets_closePartitions closes rooted.standing).mono (fun failed _ tree' standing => ?_)
      (fun _ _ _ standing => standing) fun _ standing => standing
    cases failed with
    | nil => exact Meets.pure standing
    | cons _ _ => exact Meets.throw standing
  have standing :
      Standing (fun name id => Kept limit (J name id) (tree.recorded.lookup name = none))
        tree.metadata
      (Manager.close order ⟨m, tree, faults⟩).2.disk := meets.always fun _ _ => trivial
  exact ⟨rooted.stopped standing, standing.metadata⟩

/-! ## Creating a topic -/

def freshAt (J : Bytes → Nat → Journal) (name : Bytes) : Bytes → Nat → Journal :=
  fun other id => if other = name then Journal.initial else J other id

theorem keeping_fresh {config : Config} (setting : config.maxBatchBytes = limit) :
    Keeping anything config (fun d => Kept limit Journal.initial True d)
      (fun s d => s.config.maxBatchBytes = limit ∧
        Represents limit Journal.initial s d ∧ (True → Blank d)) :=
  { opening_journal setting True with
    erases := fun file _ kept =>
      ⟨((kept.2 trivial).erase file).holds, fun _ => (kept.2 trivial).erase file⟩
    vanishes := fun _ kept => ⟨Blank.holds (kept.2 trivial), fun _ => kept.2 trivial⟩ }

theorem grows_fresh (absent : tree.recorded.lookup name = none)
    (kept : ∀ other dt,
      other ≠ name → tree.recorded.lookup other = some dt → tree'.recorded.lookup other = some dt) :
    Grows tree J tree' (freshAt J name) := by
  rintro other id ⟨dt, recorded, inside⟩
  have differs : other ≠ name := by
    rintro rfl
    rw [absent] at recorded
    cases recorded
  refine ⟨⟨dt, kept other dt differs recorded, inside⟩, ?_⟩
  rw [freshAt, if_neg differs]

theorem Rooted.died {metadata : Option MetadataText} (rooted : Rooted limit J ⟨some m, tree⟩)
    (whole : metadata ≠ some .cut)
    (confined : Confined (fun d => Kept limit Journal.initial True d) name tree metadata tree')
    (recorded : ∀ other, other ≠ name → tree'.recorded.lookup other = tree.recorded.lookup other) :
    Rooted limit (freshAt J name) ⟨none, tree'⟩ where
  toRegistered := .stopped (by rw [confined.metadata]; exact whole)
  config _ nothing := by cases nothing
  blank other absent id := by
    by_cases own : other = name
    · subst own
      exact (confined.own id).2 trivial
    · show Blank (tree'.partitions other id)
      rw [confined.others own id]
      exact rooted.blank other (by rw [← recorded other own]; exact absent) id
  tracks other id := by
    refine .stopped ?_
    unfold freshAt
    by_cases own : other = name
    · rw [if_pos own, own]
      exact (confined.own id).1
    · rw [if_neg own]
      show Holds _ _ (tree'.partitions other id)
      rw [confined.others own id]
      exact (rooted.tracks other id).holds

theorem Rooted.createTopic {count : Int} {retention : RetentionPolicy}
    (rooted : Rooted limit J ⟨some m, tree⟩) :
    Meets anything (Topics.createTopic name count retention) m tree
      ⟨fun _ m' tree' => Advances limit J tree ⟨some m', tree'⟩,
        fun _ m' tree' => Advances limit J tree ⟨some m', tree'⟩,
       fun tree' => Advances limit J tree ⟨none, tree'⟩⟩ := by
  have topics := rooted.topics m rfl
  have unrecorded : m.topics.lookup name = none → tree.recorded.lookup name = none := by
    intro absent
    rw [← topics name, absent]
    rfl
  have added : ∀ (tree' : Tree) entry,
      tree'.metadata = some (.encoded (tree.recorded.insert name entry)) →
      ∀ other, other ≠ name → tree'.recorded.lookup other = tree.recorded.lookup other := by
    intro tree' entry metadata other differs
    rw [Tree.recorded, metadata]
    exact AList.lookup_insert_ne differs
  refine meets_createTopic (keeping_fresh (rooted.config m rfl)) rooted.whole
    (fun absent id => ⟨(rooted.blank name (unrecorded absent) id).holds,
      fun _ => rooted.blank name (unrecorded absent) id⟩)
    (fun _ => rooted.stays) ?_ ?_ ?_ ?_
  · intro absent _ low _ stores tree' length confined opened
    have same := added tree' _ confined.metadata
    have stopped := rooted.died (by simp) confined same
    refine ⟨freshAt J name, ⟨⟨stopped.whole, ?_⟩, ?_, stopped.blank, fun other id => ?_⟩,
      grows_fresh (unrecorded absent)
        fun other dt differs recorded => by rw [same other differs]; exact recorded⟩
    · rintro _ ⟨⟩ other
      by_cases own : other = name
      · rw [Tree.recorded, confined.metadata, own, AList.lookup_insert, AList.lookup_insert,
          Option.map_some, Topic.entry, length, Int.toNat_of_nonneg (le_of_lt low)]
      · rw [AList.lookup_insert_ne own]
        exact (topics other).trans (same other own).symm
    · rintro _ ⟨⟩
      exact rooted.config m rfl
    · by_cases own : other = name
      · subst own
        have store : Manager.store?
            { m with topics := m.topics.insert other ⟨other, stores, m.resolve retention⟩ } other
            id =
          stores[id]? := by rw [store?_eq (AList.lookup_insert _)]
        show Tracks _ _ _ _ ⟨Manager.store? _ other id, _⟩
        rw [store]
        cases found : stores[id]? with
        | none => exact stopped.tracks other id
        | some s =>
          obtain ⟨sized, represents, _⟩ := opened id s found
          rw [freshAt, if_pos rfl]
          exact .running sized represents
      · have store :
          Manager.store?
            { m with topics := m.topics.insert name ⟨name, stores, m.resolve retention⟩ } other id =
          m.store? other id := by
          unfold Manager.store?
          rw [AList.lookup_insert_ne own]
        show Tracks _ _ _ _ ⟨Manager.store? _ other id, tree'.partitions other id⟩
        rw [store, confined.others own id, freshAt, if_neg own]
        exact rooted.tracks other id
  · intro absent reason tree' confined
    have same := Tree.recorded_same confined.metadata
    have stopped := rooted.died rooted.whole confined fun _ _ => by rw [same]
    refine ⟨freshAt J name, ⟨⟨stopped.whole, ?_⟩, rooted.config, stopped.blank, fun other id => ?_⟩,
      grows_fresh (unrecorded absent) fun other dt _ recorded => by rw [same]; exact recorded⟩
    · rintro _ ⟨⟩ other
      rw [topics other]
      show _ = tree'.recorded.lookup other
      rw [same]
    · by_cases own : other = name
      · have nothing : m.store? other id = none := by
          unfold Manager.store?
          rw [own, absent]
          rfl
        show Tracks _ _ _ _ ⟨m.store? other id, _⟩
        rw [nothing]
        exact stopped.tracks other id
      · rw [freshAt, if_neg own]
        show Tracks _ _ _ _ ⟨m.store? other id, tree'.partitions other id⟩
        rw [confined.others own id]
        exact rooted.tracks other id
  · intro absent tree' confined
    have same := Tree.recorded_same confined.metadata
    exact ⟨_, rooted.died rooted.whole confined fun _ _ => by rw [same],
      grows_fresh (unrecorded absent) fun other dt _ recorded => by rw [same]; exact recorded⟩
  · intro absent _ _ _ _ tree' _ confined _
    have same := added tree' _ confined.metadata
    exact ⟨_, rooted.died (by simp) confined same,
      grows_fresh (unrecorded absent)
        fun other dt differs recorded => by rw [same other differs]; exact recorded⟩

/-! ## A call on one partition's store -/

def movedAt (J : Bytes → Nat → Journal) (name : Bytes) (id : Nat) (J' : Journal) :
    Bytes → Nat → Journal :=
  fun other otherId => if (other, otherId) = (name, id) then J' else J other otherId

theorem moves_logEnd {allowed : Fault → Prop} {p : Partition} {J J' : Journal} {action : Action}
    {outcome : Storage.Outcome} (moves : Moves allowed p J action outcome J') :
    J.logEnd ≤ J'.logEnd := by
  obtain ⟨gone, added, _, batches, floor⟩ :=
    @Moves.effect allowed J J' ⟨p, ⟨action, []⟩, outcome, p⟩ moves
  rw [effect_logEnd batches floor]
  exact Nat.le_add_right _ _

section OnStore

variable {s : Store} {d : Directory} {action : Action} {outcome : Storage.Outcome}

theorem setStore_config (m : Manager) (name : Bytes) (id : Nat) (s : Store) :
    (m.setStore name id s).config = m.config := by
  unfold Manager.setStore
  cases m.topics.lookup name <;> rfl

theorem Rooted.recorded (rooted : Rooted limit J ⟨some m, tree⟩)
    (found : m.store? name id = some s) :
    tree.recorded.lookup name ≠ none := by
  obtain ⟨dt, recorded, _⟩ := rooted.lists.mpr ⟨s, found⟩
  rw [recorded]
  simp

theorem grows_moved {J' : Journal} (longer : (J name id).logEnd ≤ J'.logEnd) :
    Grows tree J (tree.setPartition name id d) (movedAt J name id J') := by
  intro other otherId listed
  refine ⟨listed, ?_⟩
  unfold movedAt
  split_ifs with own
  · cases own
    exact longer
  · exact le_refl _

theorem Rooted.moved {J' : Journal} (rooted : Rooted limit J ⟨some m, tree⟩)
    (found : m.store? name id = some s) (holds : Holds (crashPolicy limit) J' d) :
    Rooted limit (movedAt J name id J') ⟨none, tree.setPartition name id d⟩ where
  toRegistered := .stopped rooted.whole
  config _ nothing := by cases nothing
  blank other absent otherId := by
    have differs : (other, otherId) ≠ (name, id) := by
      rintro ⟨⟩
      exact rooted.recorded found absent
    show Blank ((tree.setPartition name id d).partitions other otherId)
    rw [partitions_setPartition_other differs]
    exact rooted.blank other absent otherId
  tracks other otherId := by
    refine .stopped ?_
    show Holds _ _ ((tree.setPartition name id d).partitions other otherId)
    unfold movedAt
    split_ifs with own
    · cases own
      rw [partitions_setPartition_self]
      exact holds
    · rw [partitions_setPartition_other own]
      exact (rooted.tracks other otherId).holds

theorem Rooted.goesOn {J' : Journal} {s' : Store} (rooted : Rooted limit J ⟨some m, tree⟩)
    (found : m.store? name id = some s)
    (tracks : Tracks anything (crashPolicy limit) (·.maxBatchBytes = limit) J' ⟨some s', d⟩) :
    Rooted limit (movedAt J name id J') ⟨some (m.setStore name id s'),
      tree.setPartition name id d⟩ := by
  have stopped := rooted.moved found tracks.holds
  refine ⟨⟨stopped.whole, ?_⟩, ?_, stopped.blank, fun other otherId => ?_⟩
  · rintro _ ⟨⟩ other
    rw [setStore_entries]
    exact rooted.topics m rfl other
  · rintro _ ⟨⟩
    rw [setStore_config]
    exact rooted.config m rfl
  · show Tracks _ _ _ _ ⟨(m.setStore name id s').store? other otherId,
      (tree.setPartition name id d).partitions other otherId⟩
    unfold movedAt
    split_ifs with own
    · cases own
      rw [store?_setStore_self found, partitions_setPartition_self]
      exact tracks
    · rw [store?_setStore_other own, partitions_setPartition_other own]
      exact rooted.tracks other otherId

/-- A call on a store that moves its journal takes the host along. -/
theorem Rooted.onStore {α : Type} {call : StoreProgram α} {report : α → Storage.Outcome}
    (rooted : Rooted limit J ⟨some m, tree⟩) (found : m.store? name id = some s)
    (follows : ∀ faults,
      Follows anything (crashPolicy limit) (·.maxBatchBytes = limit)
        ⟨some s, tree.partitions name id⟩
      (J name id) action (settle report (call ⟨s, tree.partitions name id, faults⟩)).1
      (settle report (call ⟨s, tree.partitions name id, faults⟩)).2) :
    Meets anything (Topics.onStore name id call) m tree
      ⟨fun _ m' tree' => Advances limit J tree ⟨some m', tree'⟩,
        fun _ m' tree' => Advances limit J tree ⟨some m', tree'⟩,
       fun tree' => Advances limit J tree ⟨none, tree'⟩⟩ := by
  refine meets_onStore found fun faults _ => ?_
  obtain ⟨J', moves, tracks, _⟩ := follows faults
  have longer := moves_logEnd moves
  rcases ran : call ⟨s, tree.partitions name id, faults⟩ with ⟨exit, after⟩
  rw [ran] at tracks
  cases exit with
  | ok value => exact ⟨⟨_, rooted.goesOn found tracks, grows_moved longer⟩, fun _ _ => trivial⟩
  | error reason => exact ⟨⟨_, rooted.goesOn found tracks, grows_moved longer⟩, fun _ _ => trivial⟩
  | died => exact ⟨_, rooted.moved found tracks.holds, grows_moved longer⟩

end OnStore

end Journals

end MessageBroker.Topics
