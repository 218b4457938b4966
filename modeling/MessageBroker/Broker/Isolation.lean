import MessageBroker.Broker.Committed
import MessageBroker.Topics.Housing

namespace MessageBroker.Broker

open Faulty Program Storage Topics Runs
open MessageBroker.Configuration (StorageConfig loadStorage defaultStorage)

/-! ## What the handlers touch -/

section Touching

variable {may : Bytes → Nat → Directory → Directory → Prop}
  [∀ name id, IsPreorder Directory (may name id)]

theorem touches_produce {cfg : StorageConfig} {now : Instant} {topic : Bytes} {partition : Nat}
    {records : List Record} (touches : Touches (may topic partition) (append now records)) :
    Touches (Steps may) (produce cfg now topic partition records) := by
  unfold produce
  split
  · exact Touches.throw _
  refine Touches.memory.bind fun m => ?_
  split
  · exact Touches.throw _
  split
  · exact Touches.throw _
  refine (touches_onStore touches).mapError.bind fun offsets => ?_
  obtain ⟨base, last⟩ := offsets
  exact Touches.pure _

theorem touches_readRecords {topic : Bytes} {partition offset maxBytes : Nat} :
    Touches (Steps may) (readRecords topic partition offset maxBytes) := by
  unfold readRecords
  split
  · exact Touches.throw _
  refine Touches.memory.bind fun m => ?_
  split
  · exact Touches.throw _
  · exact (touches_onStore (touches_read _ _)).mapError

end Touching

section Trees

variable {α ε : Type} {n : Node} {sv : Server}

theorem settleTopics_tree {report : α → Answer} {failure : ε → Answer}
    (run : Exit ε α × World Manager Tree) :
    (n.settleTopics sv report failure run).2.tree = run.2.disk ∧
      (n.settleTopics sv report failure run).2.offsetLog = n.offsetLog := by
  rcases run with ⟨_ | _ | _, after⟩ <;> exact ⟨rfl, rfl⟩

theorem validate_disks {i : Nat} {h : Handler} :
    (n.validate sv i h).2.tree = n.tree ∧ (n.validate sv i h).2.offsetLog = n.offsetLog := by
  unfold Node.validate
  split
  · exact ⟨rfl, rfl⟩
  · split <;> exact ⟨rfl, rfl⟩

end Trees

/-! ## Whose directories a call may change -/

/-- The directories that a call may change. A start recovers every partition. -/
def Call.owns (call : Call) (name : Bytes) (id : Nat) : Prop :=
  match call with
  | .start _ _ _ _ => True
  | .createTopic topic _ _ => name = topic
  | .produce _ topic partition _ => name = topic ∧ id = partition.toNat
  | .retain _ target => name = target.name ∧ id = target.id
  | _ => False

def Owned (call : Call) (name : Bytes) (id : Nat) (d d' : Directory) : Prop :=
  call.owns name id ∨ d' = d

instance (call : Call) (name : Bytes) (id : Nat) : IsPreorder Directory (Owned call name id) where
  refl _ := Or.inr rfl
  trans _ _ _ first second := by
    rcases first with owns | rfl
    · exact Or.inl owns
    · exact second

/-- What a call leaves alone: other calls' directories, the entries of topics that it does not
    create, and the offset log unless it commits or starts. -/
structure Isolated (call : Call) (n n' : Node) : Prop where
  partitions : ∀ name id,
    Owned call name id (n.tree.partitions name id) (n'.tree.partitions name id)
  recorded : ∀ name, (∀ count retention, call ≠ .createTopic name count retention) →
    n'.tree.recorded.lookup name = n.tree.recorded.lookup name
  offsetLog : (∀ i now, call ≠ .commit i now) →
    (∀ order cfg maxAgeSeconds maxBytes, call ≠ .start order cfg maxAgeSeconds maxBytes) →
    n'.offsetLog = n.offsetLog

section Isolated

variable {limit : Int} {n : Node} {past : List NodeEvent} {turn : Turn} {call : Call}

theorem isolated_same {n' : Node} (tree : n'.tree = n.tree)
    (offsetLog : n'.offsetLog = n.offsetLog) : Isolated call n n' :=
  ⟨fun _ _ => Or.inr (by rw [tree]), fun _ _ => by rw [tree], fun _ _ => offsetLog⟩

theorem isolated_steps {n' : Node} (steps : Steps (Owned call) n.tree n'.tree)
    (offsetLog : n'.offsetLog = n.offsetLog) :
    Isolated call n n' :=
  ⟨steps.partitions, fun _ _ => by rw [Tree.recorded_same steps.metadata], fun _ _ => offsetLog⟩

/-- A start writes no metadata, not even one that is misled about the file. -/
theorem newManager_metadata {tree : Tree} {order : MapOrder} {config : Config} {faults : List Fault}
    (whole : tree.metadata ≠ some .cut) :
    (newManager order config ⟨(), tree, faults⟩).2.disk.metadata = tree.metadata := by
  by_cases firm : Firm faults
  · have ran := @newManager_run Unit () anything True config (fun _ _ _ => True)
      (fun _ _ _ _ => True) tree order (fun _ _ => opening_all config) (fun _ => trivial) faults
      whole (fun _ _ _ => Or.inr trivial) (fun _ _ _ _ _ _ _ => Or.inr trivial)
      ⟨rfl, fun _ _ => trivial⟩ (fun _ _ => trivial) firm
    rcases result : newManager order config ⟨(), tree, faults⟩ with ⟨_ | _ | _, after⟩ <;>
      rw [result] at ran
    · exact ran.1.metadata
    · exact ran.2.metadata
    · exact ran.2.metadata
  · cases faults with
    | nil => exact absurd (by simp [Firm]) firm
    | cons fault rest =>
      cases fault with
      | pass => exact absurd (by simp [Firm]) firm
      | fail written => rfl
      | die written => exact absurd (by simp [Firm]) firm

theorem close_metadata {m : Manager} {tree : Tree} {order : MapOrder} {faults : List Fault} :
    (Manager.close order ⟨m, tree, faults⟩).2.disk.metadata = tree.metadata := by
  have meets : Meets anything (Manager.close order) m tree
      (.always (Standing (fun _ _ _ => True) tree.metadata)) := by
    apply Meets.bind
    apply Meets.memory
    apply Meets.bind
    refine (meets_closePartitions (fun _ _ => (opening_all m.config).closes)
      ⟨rfl, fun _ _ => trivial⟩).mono
      (fun failed _ _ standing => ?_) (fun _ _ _ standing => standing) fun _ standing => standing
    cases failed with
    | nil => exact Meets.pure standing
    | cons _ _ => exact Meets.throw standing
  have standing :
      Standing (fun _ _ _ => True) tree.metadata (Manager.close order ⟨m, tree, faults⟩).2.disk :=
    meets.always fun _ _ => trivial
  exact standing.metadata

theorem start_isolated {order : MapOrder} {cfg : StorageConfig} {maxAgeSeconds maxBytes : UInt64}
    {faults : List Fault} (whole : n.tree.metadata ≠ some .cut) :
    Isolated (.start order cfg maxAgeSeconds maxBytes) n
      (n.start order cfg maxAgeSeconds maxBytes faults).2 := by
  have metadata :
      (n.start order cfg maxAgeSeconds maxBytes faults).2.tree.metadata = n.tree.metadata := by
    unfold Node.start
    cases loadStorage cfg with
    | error reason => rfl
    | ok config =>
      have topics := @newManager_metadata n.tree order config faults whole
      dsimp only
      rcases ran : newManager order config ⟨(), n.tree, faults⟩ with ⟨exit, ⟨⟨⟩, tree, rest⟩⟩
      rw [ran] at topics
      cases exit with
      | error reason => exact topics
      | died => exact topics
      | ok m =>
        dsimp only
        rcases Offsets.openStore ⟨(), n.offsetLog, rest⟩ with ⟨exit', ⟨⟨⟩, offsetLog, rest'⟩⟩
        cases exit' with
        | error reason => exact close_metadata.trans topics
        | died => exact topics
        | ok store => exact topics
  exact ⟨fun _ _ => Or.inl trivial, fun _ _ => by rw [Tree.recorded_same metadata],
    fun _ notStart => absurd rfl (notStart order cfg maxAgeSeconds maxBytes)⟩

theorem createTopic_isolated {m : Manager} {tree : Tree} {name : Bytes} {count : Int}
    {retention : RetentionPolicy} (whole : tree.metadata ≠ some .cut) :
    Meets anything (createTopic name count retention) m tree (.always fun tree' =>
      (∀ other id, Owned (.createTopic name count retention) other id (tree.partitions other id)
        (tree'.partitions other id)) ∧
      ∀ other, other ≠ name → tree'.recorded.lookup other = tree.recorded.lookup other) := by
  have own : ∀ tree' metadata, Confined (fun _ => True) name tree metadata tree' → ∀ other id,
      Owned (.createTopic name count retention) other id (tree.partitions other id)
        (tree'.partitions other id) := by
    intro tree' metadata confined other id
    by_cases same : other = name
    · exact Or.inl same
    · exact Or.inr (confined.others same id)
  have added : ∀ (tree' : Tree) entry,
      tree'.metadata = some (.encoded (tree.recorded.insert name entry)) →
      ∀ other, other ≠ name → tree'.recorded.lookup other = tree.recorded.lookup other := by
    intro tree' entry metadata other differs
    rw [Tree.recorded, metadata]
    exact AList.lookup_insert_ne differs
  refine meets_createTopic (keeping_all m.config) whole (fun _ _ => trivial) ?_ ?_ ?_ ?_ ?_
  · exact fun _ => ⟨fun _ _ => Or.inr rfl, fun _ _ => rfl⟩
  · exact fun _ _ _ _ _ tree' _ confined _ =>
      ⟨own tree' _ confined, added tree' _ confined.metadata⟩
  · exact fun _ _ tree' confined =>
      ⟨own tree' _ confined, fun _ _ => by rw [Tree.recorded_same confined.metadata]⟩
  · exact fun _ tree' confined =>
      ⟨own tree' _ confined, fun _ _ => by rw [Tree.recorded_same confined.metadata]⟩
  · exact fun _ _ _ _ _ tree' _ confined _ =>
      ⟨own tree' _ confined, added tree' _ confined.metadata⟩

/-- One step keeps to what its call owns. -/
theorem perform_isolated (whole : n.tree.metadata ≠ some .cut) :
    Isolated turn.call n (n.perform turn).2 := by
  obtain ⟨call, faults⟩ := turn
  obtain ⟨server, tree, offsetLog, handlers, fetches⟩ := n
  cases call with
  | start order cfg maxAgeSeconds maxBytes => exact start_isolated whole
  | kill => exact isolated_same rfl rfl
  | createTopic name count retention =>
    cases server with
    | none => exact isolated_same rfl rfl
    | some sv =>
      have after : _ ∧ _ :=
        (@createTopic_isolated sv.topicManager tree name count retention whole).always
        fun fault (_ : fault ∈ faults) => trivial
      have settled :=
        @settleTopics_tree _ _ ⟨some sv, tree, offsetLog, handlers, fetches⟩ sv .created .notCreated
        (createTopic name count retention ⟨sv.topicManager, tree, faults⟩)
      refine ⟨fun other id => ?_, fun other others => ?_, fun _ _ => settled.2⟩
      · show Owned _ _ _ _ ((Node.settleTopics _ _ _ _ _).2.tree.partitions other id)
        rw [settled.1]
        exact after.1 other id
      · show (Node.settleTopics _ _ _ _ _).2.tree.recorded.lookup other = _
        rw [settled.1]
        exact after.2 other fun same => others count retention (by rw [same])
  | produce now topic partition records =>
    cases server with
    | none => exact isolated_same rfl rfl
    | some sv =>
      have settled :=
        @settleTopics_tree _ _ ⟨some sv, tree, offsetLog, handlers, fetches⟩ sv .produced
          .notProduced
        (produce sv.storageCfg now topic partition.toNat records ⟨sv.topicManager, tree, faults⟩)
      have anywhere : Touches (Owned (.produce now topic partition records) topic partition.toNat)
          (append now records) :=
        fun _ => Or.inl ⟨rfl, rfl⟩
      refine isolated_steps ?_ settled.2
      show Steps _ tree (Node.settleTopics _ _ _ _ _).2.tree
      rw [settled.1]
      exact touches_produce anywhere ⟨_, tree, _⟩
  | fetch topic partition offset maxBytes =>
    cases server with
    | none => exact isolated_same rfl rfl
    | some sv =>
      have settled :=
        @settleTopics_tree _ _ ⟨some sv, tree, offsetLog, handlers, fetches⟩ sv
          (fun _ => .waits) .notFetched
        (readRecords topic partition.toNat offset.toNat maxBytes.toNat ⟨sv.topicManager, tree,
          faults⟩)
      refine isolated_steps ?_ settled.2
      show Steps _ tree (Node.settleTopics _ _ _ _ _).2.tree
      rw [settled.1]
      exact touches_readRecords ⟨_, tree, _⟩
  | readOffset i =>
    rw [readOffset_moves]
    exact isolated_same rfl rfl
  | retain now target =>
    cases server with
    | none => exact isolated_same rfl rfl
    | some sv =>
      have settled :=
        @settleTopics_tree _ _ ⟨some sv, tree, offsetLog, handlers, fetches⟩ sv (fun _ => .retained)
          .notRetained
        (onStore target.name target.id (applyRetention now target.maxAge target.maxBytes.toNat)
          ⟨sv.topicManager, tree, faults⟩)
      have anywhere : Touches (Owned (.retain now target) target.name target.id)
          (applyRetention now target.maxAge target.maxBytes.toNat) := fun _ => Or.inl ⟨rfl, rfl⟩
      refine isolated_steps ?_ settled.2
      show Steps _ tree (Node.settleTopics _ _ _ _ _).2.tree
      rw [settled.1]
      exact touches_onStore anywhere ⟨_, tree, _⟩
  | resolve req =>
    cases server with
    | none => exact isolated_same rfl rfl
    | some sv =>
      unfold Node.perform
      dsimp only
      split <;> exact isolated_same rfl rfl
  | validate i =>
    cases server with
    | none => exact isolated_same rfl rfl
    | some sv =>
      unfold Node.perform
      dsimp only
      split
      · exact isolated_same rfl rfl
      · exact isolated_same validate_disks.1 validate_disks.2
  | commit i now =>
    have same := (@perform_beside ⟨server, tree, offsetLog, handlers, fetches⟩
      ⟨.commit i now, faults⟩ rfl).tree
    exact ⟨fun _ _ => Or.inr (by rw [same]), fun _ _ => by rw [same],
      fun notCommit _ => absurd rfl (notCommit i now)⟩

end Isolated

/-! ## Along a run -/

structure Untouched (calls : List Call) (n n' : Node) : Prop where
  partitions : ∀ name id,
    (∀ call ∈ calls, ¬ call.owns name id) → n'.tree.partitions name id = n.tree.partitions name id
  recorded : ∀ name, (∀ call ∈ calls, ∀ count retention, call ≠ .createTopic name count retention) →
    n'.tree.recorded.lookup name = n.tree.recorded.lookup name
  offsetLog : (∀ call ∈ calls, (∀ i now, call ≠ .commit i now) ∧
    ∀ order cfg maxAgeSeconds maxBytes, call ≠ .start order cfg maxAgeSeconds maxBytes) →
    n'.offsetLog = n.offsetLog

theorem Untouched.step {calls : List Call} {call : Call} {n n' n'' : Node}
    (untouched : Untouched calls n n') (isolated : Isolated call n' n'') :
    Untouched (calls ++ [call]) n n'' where
  partitions name id quiet := by
    rcases isolated.partitions name id with owns | same
    · exact absurd owns (quiet call (by simp))
    · exact same.trans
        (untouched.partitions name id
          fun other member => quiet other (List.mem_append_left _ member))
  recorded name quiet := (isolated.recorded name (quiet call (by simp))).trans
    (untouched.recorded name fun other member => quiet other (List.mem_append_left _ member))
  offsetLog quiet := (isolated.offsetLog (quiet call (by simp)).1 (quiet call (by simp)).2).trans
    (untouched.offsetLog fun other member => quiet other (List.mem_append_left _ member))

section Stretch

variable {limit : Int} {n n' : Node} {past more : List NodeEvent}

/-- Over any stretch of a run, whatever fails or dies in it: a partition's directory changes only
    through a call on that partition, the creation of its topic or a start; a topic's entry only
    through its creation; and the offset log only through a commit or a start. -/
theorem calls_isolated (small : limit < 2 ^ 31)
    (run : Run Node.perform (SteadyTurn limit) Node.new past n)
    (stretch : Run Node.perform (SteadyTurn limit) n more n') :
    Untouched (more.map fun event => event.input.call) n n' := by
  have first : GroundedState limit n ∧ Untouched [] n n :=
    ⟨groundedState_run small run, fun _ _ _ => rfl, fun _ _ => rfl, fun _ => rfl⟩
  refine (@Run.invariant _ _ _ _ _ _ _ _ (fun more n' => GroundedState limit n' ∧
    Untouched (more.map fun event => event.input.call) n n') stretch first ?_).2
  rintro more n₁ turn ⟨state, untouched⟩ steady
  have whole : n₁.tree.metadata ≠ some .cut := by
    obtain ⟨_, _, grounded⟩ := state
    exact grounded.rooted.whole
  refine ⟨state.follows small steady, ?_⟩
  rw [List.map_append]
  exact untouched.step (perform_isolated whole)

/-- A topic is created and written to, and retention passes over it; the other topic's directory
    stays. -/
theorem calls_isolated_beside :
    let history := execute Node.perform [] Node.new
      [⟨.start .inOrder defaultStorage 0 0, []⟩, ⟨.createTopic [97] 1 ⟨0, 0⟩, []⟩,
       ⟨.produce 5000000 [97] 0 [⟨none, some [1], [], 0⟩], []⟩]
    let stretch := execute Node.perform [] history.2
      [⟨.createTopic [98] 1 ⟨0, 0⟩, []⟩, ⟨.produce 5000000 [98] 0 [⟨none, some [1], [], 0⟩],
        [.pass, .fail 3]⟩,
       ⟨.retain 9000000 ⟨[98], 0, 0, 0⟩, []⟩, ⟨.fetch [97] 0 0 10, []⟩]
    stretch.2.tree.partitions [97] 0 = history.2.tree.partitions [97] 0 ∧
      stretch.2.offsetLog = history.2.offsetLog := by
  intro history stretch
  have untouched := @calls_isolated 5242880 history.2 stretch.2 history.1 stretch.1 (by decide)
    (run_execute .start (by decide +kernel)) (run_execute .start (by decide +kernel))
  refine ⟨untouched.partitions [97] 0 ?_, untouched.offsetLog ?_⟩ <;>
    simp [stretch, execute, happen, Call.owns]

end Stretch

end MessageBroker.Broker
