import MessageBroker.Broker.Restart
import MessageBroker.Topics.Founding
import Mathlib.Data.List.Sort

namespace MessageBroker.Topics

def Topic.Before (a b : Topic) : Prop := a.name ≤ b.name

instance (a b : Topic) : Decidable (a.Before b) := inferInstanceAs (Decidable (a.name ≤ b.name))

/-- `sort.Slice` leaves open how it sorts, but the names are distinct and so it has no choice. -/
def Manager.listTopics (m : Manager) (order : MapOrder) : List Topic :=
  ((order.visit m.topics.keys).filterMap fun name => m.topics.lookup name).insertionSort
    Topic.Before

instance : Std.Total Topic.Before := ⟨fun a b => List.le_total a.name b.name⟩

instance : IsTrans Topic Topic.Before := ⟨fun _ _ _ first second => List.le_trans first second⟩

section Listing

variable {m : Manager} {order order' : MapOrder} {t : Topic}

theorem mem_listTopics : t ∈ m.listTopics order ↔ ∃ name, m.topics.lookup name = some t := by
  unfold Manager.listTopics
  rw [List.mem_insertionSort, List.mem_filterMap]
  constructor
  · rintro ⟨name, _, found⟩
    exact ⟨name, found⟩
  · rintro ⟨name, found⟩
    refine ⟨name, (order.perm _).mem_iff.mpr (AList.mem_keys.mp (AList.lookup_isSome.mp ?_)), found⟩
    rw [found]
    rfl

theorem visited_names (named : ∀ name t, m.topics.lookup name = some t → t.name = name)
    {names : List Bytes} (known : ∀ name ∈ names, name ∈ m.topics) :
    (names.filterMap fun name => m.topics.lookup name).map Topic.name = names := by
  induction names with
  | nil => rfl
  | cons name rest ih =>
    obtain ⟨t, found⟩ :=
      Option.isSome_iff_exists.mp (AList.lookup_isSome.mpr (known name List.mem_cons_self))
    have others := ih fun other member => known other (List.mem_cons_of_mem _ member)
    simp [found, named name t found, others]

theorem listTopics_strict (named : ∀ name t, m.topics.lookup name = some t → t.name = name) :
    (m.listTopics order).Pairwise fun a b => a.name < b.name := by
  have sorted : (m.listTopics order).Pairwise Topic.Before := List.pairwise_insertionSort _ _
  have distinct : ((m.listTopics order).map Topic.name).Nodup := by
    refine ((List.perm_insertionSort _ _).map Topic.name).nodup_iff.mpr ?_
    rw [visited_names named
      fun name member => AList.mem_keys.mpr ((order.perm _).mem_iff.mp member)]
    exact (order.perm _).nodup_iff.mpr m.topics.keys_nodup
  exact (sorted.and (List.pairwise_map.mp distinct)).imp
    fun both => Std.lt_of_le_of_ne both.1 both.2

/-- The listing does not depend on the order in which the map is ranged over. -/
theorem listTopics_order (named : ∀ name t, m.topics.lookup name = some t → t.name = name) :
    m.listTopics order = m.listTopics order' := by
  refine List.Perm.eq_of_pairwise (fun a b _ _ below above => absurd above (List.lt_asymm below))
    (listTopics_strict named) (listTopics_strict named) ?_
  refine (List.perm_insertionSort _ _).trans (.trans ?_ (List.perm_insertionSort _ _).symm)
  exact ((order.perm _).trans (order'.perm _).symm).filterMap _

end Listing

end MessageBroker.Topics

namespace MessageBroker.Broker

open Faulty Program Storage Topics Runs

/-! ## The handlers -/

inductive AdminCode where
  | invalidArgument
  | alreadyExists
  | notFound
  | internal
  deriving DecidableEq, Repr

inductive AdminError where
  | emptyName
  | noPartitions
  | exists (name : Bytes)
  | invalidName (reason : TopicError)
  | tooManyPartitions (reason : TopicError)
  | notCreated (reason : TopicError)
  | notFound (name : Bytes)
  | notResolved (reason : TopicError)
  deriving Repr

def AdminError.code : AdminError → AdminCode
  | .emptyName | .noPartitions | .invalidName _ | .tooManyPartitions _ => .invalidArgument
  | .exists _ => .alreadyExists
  | .notFound _ => .notFound
  | .notCreated _ | .notResolved _ => .internal

structure PartitionMetadata where
  partitionId : Nat
  earliestOffset : Nat
  logEndOffset : Nat
  deriving DecidableEq, Repr

structure TopicMetadata where
  name : Bytes
  partitionCount : Nat
  partitions : List PartitionMetadata
  retention : RetentionPolicy

def convertToProtoMetadata (t : Topic) : TopicMetadata where
  name := t.name
  partitionCount := t.partitions.length
  partitions := t.partitions.zipIdx.map fun (s, i) => ⟨i, s.earliestOffset, s.logEndOffset⟩
  retention := t.retention

def listTopicsRequest (order : MapOrder) (m : Manager) : List TopicMetadata :=
  (m.listTopics order).map convertToProtoMetadata

def describeError (name : Bytes) : TopicError → AdminError
  | .topicNotFound => .notFound name
  | reason => .notResolved reason

def describeTopicRequest (name : Bytes) (m : Manager) : Except AdminError TopicMetadata :=
  if name = [] then .error .emptyName
  else
    match m.getTopic name with
    | .error reason => .error (describeError name reason)
    | .ok t => .ok (convertToProtoMetadata t)

/-! ## What they answer -/

section Answers

variable {limit : Int} {n : Node} {sv : Server} {past : List NodeEvent} {order : MapOrder}

theorem running_topics (small : limit < 2 ^ 31)
    (run : Run Node.perform (SteadyTurn limit) Node.new past n)
    (running : n.server = some sv) (name : Bytes) :
    (sv.topicManager.topics.lookup name).map Topic.entry = n.tree.recorded.lookup name ∧
      ∀ t, sv.topicManager.topics.lookup name = some t → t.entry.Proper name := by
  obtain ⟨J, log, grounded⟩ := groundedState_run small run
  have topics := grounded.rooted.topics sv.topicManager (by rw [running]; rfl) name
  refine ⟨topics, fun t found => ?_⟩
  rw [found] at topics
  exact (housed_run small run).proper name _ topics.symm

theorem describeTopicRequest_ok {name : Bytes} {m : Manager} {t : TopicMetadata} :
    describeTopicRequest name m = .ok t ↔
      name ≠ [] ∧ ∃ topic,
        m.topics.lookup name = some topic ∧ convertToProtoMetadata topic = t := by
  unfold describeTopicRequest Manager.getTopic
  by_cases empty : name = []
  · simp [empty]
  · cases found : m.topics.lookup name <;> simp [empty]

/-- The listing is the metadata file, in the order of the names and whatever the order of the map.
    What it has for a topic is what a description of the topic has. -/
theorem topics_listed (small : limit < 2 ^ 31)
    (run : Run Node.perform (SteadyTurn limit) Node.new past n)
    (running : n.server = some sv) :
    (listTopicsRequest order sv.topicManager).Pairwise (fun a b => a.name < b.name) ∧
      (∀ order', listTopicsRequest order' sv.topicManager =
        listTopicsRequest order sv.topicManager) ∧
      (∀ t, t ∈ listTopicsRequest order sv.topicManager ↔
        describeTopicRequest t.name sv.topicManager = .ok t) ∧
      ∀ name dt, n.tree.recorded.lookup name = some dt ↔
        ∃ t ∈ listTopicsRequest order sv.topicManager,
          t.name = name ∧ dt = ⟨t.name, t.partitionCount, t.retention⟩ := by
  have topics := running_topics small run running
  have named : ∀ name t, sv.topicManager.topics.lookup name = some t → t.name = name :=
    fun name t found => ((topics name).2 t found).name
  have member : ∀ t, t ∈ listTopicsRequest order sv.topicManager ↔
      ∃ topic, sv.topicManager.topics.lookup topic.name = some topic ∧
        convertToProtoMetadata topic = t := by
    intro t
    rw [listTopicsRequest, List.mem_map]
    constructor
    · rintro ⟨topic, listed, rfl⟩
      obtain ⟨name, found⟩ := mem_listTopics.mp listed
      exact ⟨topic, by rw [named name topic found]; exact found, rfl⟩
    · rintro ⟨topic, found, rfl⟩
      exact ⟨topic, mem_listTopics.mpr ⟨_, found⟩, rfl⟩
  refine ⟨List.pairwise_map.mpr (listTopics_strict named), fun order' => ?_, fun t => ?_,
    fun name dt => ?_⟩
  · rw [listTopicsRequest, listTopics_order named, listTopicsRequest]
  · rw [member, describeTopicRequest_ok]
    constructor
    · rintro ⟨topic, found, rfl⟩
      have valid := ((topics topic.name).2 topic found).valid
      refine ⟨fun empty => ?_, topic, found, rfl⟩
      rw [show topic.name = [] from empty] at valid
      cases valid
    · rintro ⟨_, topic, found, rfl⟩
      exact ⟨topic, found, rfl⟩
  · rw [← (topics name).1, Option.map_eq_some_iff]
    constructor
    · rintro ⟨topic, found, rfl⟩
      exact ⟨_, (member _).mpr ⟨topic, by rw [named name topic found]; exact found, rfl⟩,
        named name topic found, rfl⟩
    · rintro ⟨t, listed, rfl, rfl⟩
      obtain ⟨topic, found, rfl⟩ := (member t).mp listed
      exact ⟨topic, found, rfl⟩

theorem topics_listed_sorted :
    let history := execute Node.perform [] Node.new
      [⟨.start .inOrder Configuration.defaultStorage 0 0, []⟩, ⟨.createTopic [98] 1 ⟨7, 0⟩, []⟩,
        ⟨.createTopic [97, 98] 2 ⟨0, 0⟩, []⟩,
       ⟨.kill, []⟩, ⟨.start ⟨List.reverse, List.reverse_perm⟩ Configuration.defaultStorage 0 0, []⟩]
    history.2.server.isSome ∧ ∀ sv ∈ history.2.server,
      (listTopicsRequest .inOrder sv.topicManager).map TopicMetadata.name = [[97, 98], [98]] ∧
        (listTopicsRequest .inOrder sv.topicManager).Pairwise fun a b => a.name < b.name := by
  intro history
  refine ⟨by decide +kernel, fun sv running => ?_⟩
  have names : ∀ sv ∈ history.2.server,
      (listTopicsRequest .inOrder sv.topicManager).map TopicMetadata.name = [[97, 98], [98]] := by
    decide +kernel
  exact ⟨names sv running,
    (@topics_listed 5242880 _ sv _ _ (by decide) (run_execute .start (by decide +kernel))
      running).1⟩

/-! ## Creating a topic -/

section Defaults

variable {α ε : Type} {m : Manager} {tree : Tree} {turn : Turn} {name : Bytes} {id : Nat}

theorem Beside.defaults {n' : Node} (beside : Beside n n') {defaults : RetentionPolicy}
    (current : ∀ sv ∈ n.server, sv.topicManager.defaults = defaults) :
    ∀ sv ∈ n'.server, sv.topicManager.defaults = defaults := by
  cases beside with
  | stays topics _ _ =>
    intro sv' running
    rw [Option.mem_def.mp running, Option.map_some, eq_comm, Option.map_eq_some_iff] at topics
    obtain ⟨sv, before, same⟩ := topics
    rw [← same]
    exact current sv before
  | died => exact fun _ gone => by cases gone

end Defaults

end Answers

end MessageBroker.Broker
