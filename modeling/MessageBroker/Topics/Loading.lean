import MessageBroker.Topics.TreeRules

namespace MessageBroker.Topics

open Faulty Program Storage

def Topic.entry (t : Topic) : DiskTopic := ⟨t.name, t.partitions.length, t.retention⟩

structure DiskTopic.Proper (dt : DiskTopic) (key : Bytes) : Prop where
  name : dt.name = key
  valid : topicNameMatches key
  low : 1 ≤ dt.partitionCount
  high : dt.partitionCount ≤ maxPartitionsPerTopic

/-- The manager has the topics and for each of their partitions a store that is ready. -/
structure Serves (ready : Bytes → Nat → Store → Directory → Prop) (topics : TopicsMetadata)
    (m : Manager) (tree : Tree) :
    Prop where
  topics : ∀ name, (m.topics.lookup name).map Topic.entry = topics.lookup name
  stores : ∀ name id s, m.store? name id = some s → ready name id s (tree.partitions name id)

section Load

variable {μ : Type} {m : μ} {allowed : Fault → Prop} {trouble : Prop} {config : Config}
  {kept : Bytes → Nat → Directory → Prop} {ready : Bytes → Nat → Store → Directory → Prop}
  {metadata : Option MetadataText} {tree : Tree} {name : Bytes} {order : MapOrder} {mgr : Manager}

/-! ## Giving up -/

theorem meets_joinFailed (result : Except TopicError Unit)
    {rest : Program Manager Tree TopicError (List TopicError)}
    {holds : Tree → Prop} (meets : Meets allowed rest mgr tree (.always holds)) :
    Meets allowed (do
      let failed ← rest
      match result with
      | .ok () => pure failed
      | .error reason => pure (reason :: failed)) mgr tree (.always holds) := by
  apply Meets.bind
  refine meets.mono (fun failed mgr tree standing => ?_) (fun _ _ _ standing => standing)
    fun _ standing => standing
  cases result <;> exact Meets.pure standing

section Abandon

variable (closes : ∀ name id s d,
  kept name id d → Meets allowed closeStore s d (.always (kept name id)))

include closes

theorem meets_closePartitions {ids : List (Bytes × Nat)} (standing : Standing kept metadata tree) :
    Meets allowed (closePartitions ids) mgr tree (.always (Standing kept metadata)) := by
  induction ids generalizing mgr tree with
  | nil => exact Meets.pure standing
  | cons target rest ih =>
    obtain ⟨name, id⟩ := target
    apply Meets.bind
    apply Meets.attempt
    cases found : mgr.store? name id with
    | none =>
      apply Meets.bind
      apply Meets.memory
      dsimp only
      rw [found]
      exact Meets.die standing
    | some s =>
      refine meets_onStore found ((closes name id s _ (standing.kept name id)).mono ?_ ?_ ?_)
      · exact fun value _ _ stays => meets_joinFailed (.ok value) (ih (standing.setPartition stays))
      · exact fun reason _ _ stays =>
          meets_joinFailed (.error (.storage reason)) (ih (standing.setPartition stays))
      · exact fun _ stays => standing.setPartition stays

theorem meets_abandon {α : Type} {reason : TopicError} {post : Post μ Tree TopicError α}
    (standing : Standing kept metadata tree)
    (fails : ∀ tree', Standing kept metadata tree' → post.fails reason m tree')
    (dies : ∀ tree', Standing kept metadata tree' → post.dies tree') :
    Meets allowed (abandon order mgr reason) m tree post := by
  have thrown : ∀ tree', Standing kept metadata tree' → Meets allowed (throw reason) m tree' post :=
    fun tree' standing => Meets.throw (fails tree' standing)
  apply Meets.bind
  apply Meets.ignore
  apply Meets.focus
  apply Meets.bind
  apply Meets.memory
  apply Meets.bind
  refine (meets_closePartitions closes standing).mono (fun failed _ tree' standing => ?_)
    (fun _ _ tree' standing => thrown tree' standing) dies
  cases failed with
  | nil => exact Meets.pure (thrown tree' standing)
  | cons _ _ => exact Meets.throw (thrown tree' standing)

end Abandon

/-! ## One topic -/

theorem meets_openNext {α : Type} {id : Nat} {post : Post μ Tree TopicError α}
    (onward : Store → Program μ Tree TopicError α)
    (failed : TopicError → Program μ Tree TopicError α)
    (loads : Opening allowed trouble config (kept name id) (ready name id))
    (standing : Standing kept metadata tree)
    (returns : ∀ s d,
      ready name id s d → Meets allowed (onward s) m (tree.setPartition name id d) post)
    (fails : trouble →
      ∀ reason d, kept name id d →
        Meets allowed (failed reason) m (tree.setPartition name id d) post)
    (dies : trouble → ∀ d, kept name id d → post.dies (tree.setPartition name id d)) :
    Meets allowed (do
      match ← attempt (newLog config name id) with
      | .ok s => onward s
      | .error reason => failed reason) m tree post := by
  apply Meets.bind
  apply Meets.attempt
  refine meets_inPartition ((loads.opens _ (standing.kept name id)).mono ?_ ?_ ?_)
  · exact fun s _ d after => returns s d after
  · exact fun reason _ d after => fails after.1 _ d after.2
  · exact fun d after => dies after.1 d after.2

section Topic

variable (loads : ∀ name id, Opening allowed trouble config (kept name id) (ready name id))
  (shaky : Shaky allowed → trouble)

include loads shaky

theorem meets_loadPartitions (stores : List Store) {count : Nat}
    {post : Post μ Tree TopicError (List Store)} (same : mgr.config = config)
    (standing : Standing kept metadata tree)
    (opened : ∀ id s, stores[id]? = some s → ready name id s (tree.partitions name id))
    (present : ∀ id, id < stores.length + count → ∀ d, kept name id d → d.present = true ∨ trouble)
    (returns : ∀ stores' tree', stores'.length = stores.length + count →
      Standing kept metadata tree' →
      (∀ other id, other ≠ name → tree'.partitions other id = tree.partitions other id) →
      (∀ id s, stores'[id]? = some s → ready name id s (tree'.partitions name id)) →
        post.returns stores' m tree')
    (fails : trouble → ∀ reason tree', Standing kept metadata tree' → post.fails reason m tree')
    (dies : trouble → ∀ tree', Standing kept metadata tree' → post.dies tree') :
    Meets allowed (loadPartitions order mgr name (List.range' stores.length count) stores) m tree
      post := by
  have closes := fun name id => (loads name id).closes
  have stop : ∀ stores, trouble → ∀ reason tree', Standing kept metadata tree' → Meets allowed (do
      closeStores name 0 stores
      abandon order mgr reason) m tree' post := by
    intro stores bad reason tree' standing'
    apply Meets.bind
    refine meets_closeStores 0 (closes name) standing' (fun tree'' closed => ?_) (dies bad)
    exact meets_abandon closes closed (fails bad reason) (dies bad)
  induction count generalizing stores tree with
  | zero => exact Meets.pure (returns stores tree rfl standing (fun _ _ _ => rfl) opened)
  | succ count ih =>
    have next := @meets_openNext μ m allowed trouble config kept ready metadata tree name _
      stores.length post
      (fun s => loadPartitions order mgr name (List.range' (stores.length + 1) count)
        (stores ++ [s]))
      (fun reason => do
        closeStores name 0 stores
        abandon order mgr (.openPartition name stores.length reason))
      (loads name stores.length) standing (by
        intro s d after
        have longer : stores.length + 1 = (stores ++ [s]).length := by simp
        have standing' : Standing kept metadata (tree.setPartition name stores.length d) :=
          standing.setPartition ((loads name stores.length).drops s d after)
        rw [longer]
        refine ih (stores ++ [s]) standing' (opened_append opened after)
          (fun id inside => present id (by rw [← longer] at inside; omega)) ?_
        intro stores' tree' length standing'' frame
        refine returns stores' tree' (by rw [length, ← longer]; omega) standing'' ?_
        intro other id differs
        rw [frame other id differs, partitions_setPartition_other (by simp [differs])])
      (fun bad reason d stays => stop stores bad _ _ (standing.setPartition stays))
      (fun bad d stays => dies bad _ (standing.setPartition stays))
    rw [← same] at next
    rw [List.range'_succ]
    apply Meets.bind
    apply Meets.attempt
    refine meets_treeOperation ?_ (fun _ => next) (fun bad => dies (shaky bad) tree standing)
    split_ifs with here
    · exact next
    · refine stop stores ?_ _ tree standing
      exact (present stores.length (by omega) _ (standing.kept name stores.length)).resolve_left
        here

theorem meets_loadTopic {dt : DiskTopic} {post : Post μ Tree TopicError Manager}
    (same : mgr.config = config) (standing : Standing kept metadata tree)
    (proper : dt.Proper name ∨ trouble)
    (present : ∀ id,
      id < dt.partitionCount.toNat → ∀ d, kept name id d → d.present = true ∨ trouble)
    (returns : ∀ t tree', t.entry = dt → Standing kept metadata tree' →
      (∀ other id, other ≠ name → tree'.partitions other id = tree.partitions other id) →
      (∀ id s, t.partitions[id]? = some s → ready name id s (tree'.partitions name id)) →
      post.returns { mgr with topics := mgr.topics.insert name t } m tree')
    (fails : trouble → ∀ reason tree', Standing kept metadata tree' → post.fails reason m tree')
    (dies : trouble → ∀ tree', Standing kept metadata tree' → post.dies tree') :
    Meets allowed (loadTopic order mgr name dt) m tree post := by
  have closes := fun name id => (loads name id).closes
  have stop : ¬ dt.Proper name → ∀ reason, Meets allowed (abandon order mgr reason) m tree post :=
    fun improper reason =>
    meets_abandon closes standing (fails (proper.resolve_left improper) reason)
      (dies (proper.resolve_left improper))
  unfold loadTopic
  by_cases key : name ≠ dt.name
  · rw [if_pos key]
    exact stop (fun proper => key proper.name.symm) _
  rw [if_neg key]
  by_cases valid : topicNameMatches dt.name
  swap
  · rw [if_pos valid]
    exact stop (fun proper => valid (by rw [proper.name]; exact proper.valid)) _
  rw [if_neg (not_not.mpr valid)]
  split_ifs with range
  · refine stop (fun proper => ?_) _
    have low := proper.low
    have high := proper.high
    omega
  have nonnegative : 0 ≤ dt.partitionCount := by omega
  apply Meets.bind
  rw [List.range_eq_range']
  refine meets_loadPartitions loads shaky [] same standing (fun _ _ nothing => by cases nothing)
    (fun id inside => present id (by simpa using inside)) ?_ fails dies
  intro stores tree' length standing' frame opened
  rw [List.length_nil, Nat.zero_add] at length
  refine Meets.pure (returns ⟨dt.name, stores, dt.retention⟩ tree' ?_ standing' frame opened)
  rw [Topic.entry, length, Int.toNat_of_nonneg nonnegative]

end Topic

/-! ## All topics -/

structure Loaded (config : Config) (ready : Bytes → Nat → Store → Directory → Prop)
    (topics : TopicsMetadata) (done : List Bytes) (mgr : Manager) (tree : Tree) : Prop where
  config : mgr.config = config
  found : ∀ name ∈ done, (mgr.topics.lookup name).map Topic.entry = topics.lookup name
  absent : ∀ name, name ∉ done → mgr.topics.lookup name = none
  stores : ∀ name id s, mgr.store? name id = some s → ready name id s (tree.partitions name id)

theorem Loaded.insert {topics : TopicsMetadata} {done : List Bytes} {t : Topic} {tree' : Tree}
    (loaded : Loaded config ready topics done mgr tree) (entry : topics.lookup name = some t.entry)
    (frame : ∀ other id, other ≠ name → tree'.partitions other id = tree.partitions other id)
    (opened : ∀ id s, t.partitions[id]? = some s → ready name id s (tree'.partitions name id)) :
    Loaded config ready topics (done ++ [name]) { mgr with topics := mgr.topics.insert name t }
      tree' := by
  refine ⟨loaded.config, fun other member => ?_, fun other absent => ?_, fun other id s found => ?_⟩
  · by_cases same : other = name
    · rw [same, AList.lookup_insert, entry]
      rfl
    · rw [AList.lookup_insert_ne same]
      exact loaded.found other (by simpa [same] using member)
  · rw [List.mem_append, List.mem_singleton, not_or] at absent
    rw [AList.lookup_insert_ne absent.2]
    exact loaded.absent other absent.1
  · by_cases same : other = name
    · subst same
      rw [store?_eq (AList.lookup_insert _)] at found
      exact opened id s found
    · rw [frame other id same]
      refine loaded.stores other id s ?_
      rw [← found]
      simp only [Manager.store?]
      rw [AList.lookup_insert_ne same]

section Topics

variable (loads : ∀ name id, Opening allowed trouble config (kept name id) (ready name id))
  (shaky : Shaky allowed → trouble)

include loads shaky

theorem meets_loadTopics {topics : TopicsMetadata} {names : List Bytes} (done : List Bytes)
    {post : Post μ Tree TopicError Manager}
    (proper : ∀ name dt, topics.lookup name = some dt → dt.Proper name ∨ trouble)
    (present : ∀ name dt,
      topics.lookup name = some dt → ∀ id, id < dt.partitionCount.toNat → ∀ d, kept name id d →
      d.present = true ∨ trouble)
    (standing : Standing kept metadata tree) (loaded : Loaded config ready topics done mgr tree)
    (returns : ∀ mgr' tree',
      Standing kept metadata tree' → Loaded config ready topics (done ++ names) mgr' tree' →
      post.returns mgr' m tree')
    (fails : trouble → ∀ reason tree', Standing kept metadata tree' → post.fails reason m tree')
    (dies : trouble → ∀ tree', Standing kept metadata tree' → post.dies tree') :
    Meets allowed (loadTopics order topics names mgr) m tree post := by
  induction names generalizing done mgr tree with
  | nil => exact Meets.pure (returns mgr tree standing (by rwa [List.append_nil]))
  | cons name rest ih =>
    have split : done ++ name :: rest = (done ++ [name]) ++ rest := by simp
    unfold loadTopics
    cases entry : topics.lookup name with
    | none =>
      dsimp only
      refine ih (done ++ [name]) standing ?_ (by rwa [split] at returns)
      refine ⟨loaded.config, fun other member => ?_, fun other absent => ?_, loaded.stores⟩
      · rcases List.mem_append.mp member with earlier | new
        · exact loaded.found other earlier
        · rw [List.mem_singleton.mp new, entry]
          by_cases before : name ∈ done
          · rw [loaded.found name before, entry]
          · rw [loaded.absent name before]
            rfl
      · exact loaded.absent other fun earlier => absent (List.mem_append_left _ earlier)
    | some dt =>
      dsimp only
      apply Meets.bind
      refine meets_loadTopic loads shaky loaded.config standing (proper name dt entry)
        (present name dt entry) ?_ fails dies
      intro t tree' same standing' frame opened
      exact ih (done ++ [name]) standing' (loaded.insert (by rw [entry, same]) frame opened)
        (by rwa [split] at returns)

theorem newManager_run {faults : List Fault} (whole : tree.metadata ≠ some .cut)
    (proper : ∀ name dt, tree.recorded.lookup name = some dt → dt.Proper name ∨ trouble)
    (present : ∀ name dt,
      tree.recorded.lookup name = some dt →
        ∀ id, id < dt.partitionCount.toNat → ∀ d, kept name id d →
      d.present = true ∨ trouble)
    (standing : Standing kept tree.metadata tree) (permitted : ∀ fault ∈ faults, allowed fault)
    (firm : Firm faults) :
    Post.met ⟨fun mgr _ tree' =>
      Standing kept tree.metadata tree' ∧
        mgr.config = config ∧ Serves ready tree.recorded mgr tree',
      fun _ _ tree' => trouble ∧ Standing kept tree.metadata tree',
      fun tree' => trouble ∧ Standing kept tree.metadata tree'⟩
      (newManager order config ⟨m, tree, faults⟩) := by
  have nothing : Loaded config ready tree.recorded [] ⟨∅, config, 0, 0⟩ tree := by
    refine ⟨rfl, fun _ member => absurd member List.not_mem_nil, fun _ _ => rfl,
      fun _ _ _ found => ?_⟩
    cases found
  unfold newManager statMetadata treeOperation
  refine met_firm permitted firm ?_ ?_
  swap
  · exact fun _ possible => ⟨shaky ⟨_, possible⟩, standing⟩
  cases found : tree.metadata with
  | none =>
    have empty : tree.recorded = ∅ := by simp [Tree.recorded, found]
    refine Meets.pure ⟨by rw [← found]; exact standing, rfl, fun name => ?_, nothing.stores⟩
    rw [empty]
    rfl
  | some text =>
    cases text with
    | cut => exact absurd found whole
    | encoded topics =>
      have same : tree.recorded = topics := by simp [Tree.recorded, found]
      rw [found] at standing
      rw [same] at proper present nothing ⊢
      dsimp only
      apply Meets.bind
      refine meets_treeOperation ?_ (fun bad => ⟨shaky bad, standing⟩)
        (fun bad => ⟨shaky bad, standing⟩)
      rw [found]
      refine Meets.bind (Meets.pure ?_)
      refine meets_loadTopics loads shaky [] proper present standing nothing ?_
        (fun bad _ _ standing' => ⟨bad, standing'⟩) (fun bad _ standing' => ⟨bad, standing'⟩)
      intro mgr' tree' standing' loaded
      rw [List.nil_append] at loaded
      refine ⟨standing', loaded.config, fun name => ?_, loaded.stores⟩
      by_cases member : name ∈ order.visit topics.keys
      · exact loaded.found name member
      · have absent : name ∉ topics :=
          fun inside => member ((order.perm _).mem_iff.mpr (AList.mem_keys.mp inside))
        rw [loaded.absent name member, AList.lookup_eq_none.mpr absent]
        rfl

end Topics

end Load

end MessageBroker.Topics
