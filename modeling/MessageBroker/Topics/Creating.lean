import MessageBroker.Storage.Closing
import MessageBroker.Topics.TreeRules

namespace MessageBroker.Topics

open Faulty Program Storage

/-- A class of directories that removing files does not leave, either. -/
structure Keeping (allowed : Fault → Prop) (config : Config) (kept : Directory → Prop)
    (ready : Store → Directory → Prop) :
    Prop extends Opening allowed True config kept ready where
  erases : ∀ name d, kept d → kept (d.erase name)
  vanishes : ∀ d, kept d → kept { d with present := false }

/-- The directories of one topic are in the class, and those of the others what they were at the
    start. -/
def Own (kept : Directory → Prop) (name : Bytes) (start : Tree) (other : Bytes) (id : Nat)
    (d : Directory) : Prop :=
  if other = name then kept d else d = start.partitions other id

abbrev Confined (kept : Directory → Prop) (name : Bytes) (start : Tree) :
    Option MetadataText → Tree → Prop :=
  Standing (Own kept name start)

section Confined

variable {kept : Directory → Prop} {name : Bytes} {metadata : Option MetadataText}
  {start tree : Tree}

theorem own_self {id : Nat} {d : Directory} : Own kept name start name id d ↔ kept d := by
  simp [Own]

theorem Standing.own (confined : Confined kept name start metadata tree) (id : Nat) :
    kept (tree.partitions name id) :=
  own_self.mp (confined.kept name id)

theorem Standing.others (confined : Confined kept name start metadata tree) {other : Bytes}
    (differs : other ≠ name) (id : Nat) : tree.partitions other id = start.partitions other id := by
  have same := confined.kept other id
  rwa [Own, if_neg differs] at same

theorem confined_start (before : ∀ id, kept (start.partitions name id)) :
    Confined kept name start start.metadata start := by
  refine ⟨rfl, fun other id => ?_⟩
  unfold Own
  split_ifs with same
  · rw [same]
    exact before id
  · rfl

end Confined

/-! ## Taking a topic's directories back -/

section RollBack

variable {μ : Type} {m : μ} {allowed : Fault → Prop} {config : Config} {kept : Directory → Prop}
  {ready : Store → Directory → Prop} {name : Bytes} {metadata : Option MetadataText}
  {start tree : Tree}

variable (keeping : Keeping allowed config kept ready)

include keeping

theorem Keeping.closing (id : Nat) (s : Store) (d : Directory)
    (here : Own kept name start name id d) :
    Meets allowed closeStore s d (.always (Own kept name start name id)) :=
  (keeping.closes s d (own_self.mp here)).mono (fun _ _ _ => own_self.mpr)
    (fun _ _ _ => own_self.mpr) fun _ => own_self.mpr

theorem meets_removeFiles {id : Nat} {files : List FileName} {post : Post μ Tree TopicError Unit}
    (confined : Confined kept name start metadata tree)
    (returns : ∀ tree', Confined kept name start metadata tree' → post.returns () m tree')
    (dies : ∀ tree', Confined kept name start metadata tree' → post.dies tree') :
    Meets allowed (removeFiles name id files) m tree post := by
  induction files generalizing tree with
  | nil => exact Meets.pure (returns tree confined)
  | cons file rest ih =>
    have here := confined.kept name id
    have removal :
        Meets allowed (remove file) () (tree.partitions name id)
          (.always (Own kept name start name id)) :=
      meets_remove_any (own_self.mpr (keeping.erases file _ (confined.own id))) (fun _ => here)
        (fun _ => here)
    apply Meets.bind
    apply Meets.ignore
    refine (confined.inPartition removal).mono ?_ ?_ dies
    · rintro _ _ tree' ⟨rfl, after⟩
      exact ih after
    · rintro _ _ tree' ⟨rfl, after⟩
      exact ih after

theorem meets_removeAll {id : Nat} {post : Post μ Tree TopicError Unit}
    (confined : Confined kept name start metadata tree)
    (returns : ∀ tree', Confined kept name start metadata tree' → post.returns () m tree')
    (fails : ∀ reason tree', Confined kept name start metadata tree' → post.fails reason m tree')
    (dies : ∀ tree', Confined kept name start metadata tree' → post.dies tree') :
    Meets allowed (removeAll name id) m tree post := by
  have here := confined.kept name id
  have listing :
      Meets allowed readDir () (tree.partitions name id) (.always (Own kept name start name id)) :=
    meets_readDir here (fun _ => here) (fun _ => here)
  apply Meets.bind
  refine (confined.inPartition listing).mono ?_ ?_ dies
  · rintro files _ tree' ⟨rfl, after⟩
    apply Meets.bind
    refine meets_removeFiles keeping after (fun tree'' after' => ?_) dies
    refine meets_treeOperation ?_ (fun _ => fails _ tree'' after') (fun _ => dies tree'' after')
    dsimp only
    split_ifs
    · exact returns _ (after'.setPartition (own_self.mpr (keeping.vanishes _ (after'.own id))))
    · exact fails _ tree'' after'
  · rintro reason _ tree' ⟨rfl, after⟩
    exact fails _ tree' after

theorem meets_removeDirectories {ids : List Nat} {post : Post μ Tree TopicError Unit}
    (confined : Confined kept name start metadata tree)
    (returns : ∀ tree', Confined kept name start metadata tree' → post.returns () m tree')
    (dies : ∀ tree', Confined kept name start metadata tree' → post.dies tree') :
    Meets allowed (removeDirectories name ids) m tree post := by
  induction ids generalizing tree with
  | nil => exact Meets.pure (returns tree confined)
  | cons id rest ih =>
    apply Meets.bind
    apply Meets.ignore
    exact meets_removeAll keeping confined (fun _ after => ih after) (fun _ _ after => ih after)
      dies

theorem meets_rollBack {stores : List Store} {created : Nat} {post : Post μ Tree TopicError Unit}
    (confined : Confined kept name start metadata tree)
    (returns : ∀ tree', Confined kept name start metadata tree' → post.returns () m tree')
    (dies : ∀ tree', Confined kept name start metadata tree' → post.dies tree') :
    Meets allowed (rollBack name stores created) m tree post := by
  apply Meets.bind
  refine meets_closeStores 0 keeping.closing confined (fun tree₁ closed => ?_) dies
  apply Meets.bind
  refine meets_removeDirectories keeping closed (fun tree₂ removed => ?_) dies
  apply Meets.ignore
  exact meets_treeOperation (returns tree₂ removed) (fun _ => returns tree₂ removed)
    fun _ => dies tree₂ removed

theorem meets_createPartitions (stores : List Store) {count : Nat}
    {post : Post μ Tree TopicError (List Store)} (confined : Confined kept name start metadata tree)
    (opened : ∀ id s, stores[id]? = some s → ready s (tree.partitions name id))
    (returns : ∀ stores' tree', stores'.length = stores.length + count →
      Confined kept name start metadata tree' →
      (∀ id s, stores'[id]? = some s → ready s (tree'.partitions name id)) →
        post.returns stores' m tree')
    (fails : ∀ reason tree', Confined kept name start metadata tree' → post.fails reason m tree')
    (dies : ∀ tree', Confined kept name start metadata tree' → post.dies tree') :
    Meets allowed (createPartitions config name (List.range' stores.length count) stores) m tree
      post := by
  induction count generalizing stores tree with
  | zero => exact Meets.pure (returns stores tree rfl confined opened)
  | succ count ih =>
    rw [List.range'_succ]
    apply Meets.bind
    apply Meets.attempt
    refine meets_inPartition ((keeping.opens _ (confined.own stores.length)).mono ?_ ?_ ?_)
    · intro s _ d after
      have longer : stores.length + 1 = (stores ++ [s]).length := by simp
      have confined' : Confined kept name start metadata (tree.setPartition name stores.length d) :=
        confined.setPartition (own_self.mpr (keeping.drops s d after))
      dsimp only
      rw [longer]
      exact ih _ confined' (@opened_append tree name (fun _ => ready) stores s d opened after)
        (fun stores' tree' length => returns stores' tree' (by rw [length, ← longer]; omega))
    · intro reason _ d after
      apply Meets.bind
      refine meets_rollBack keeping (confined.setPartition (own_self.mpr after.2))
        (fun tree' done => ?_) dies
      exact Meets.throw (fails _ tree' done)
    · exact fun d after => dies _ (confined.setPartition (own_self.mpr after.2))

end RollBack

/-! ## Replacing the metadata file -/

section Metadata

variable {μ : Type} {m : μ} {allowed : Fault → Prop} {tree : Tree} {newName : Bytes}
  {newTopic : DiskTopic}

structure SameContent (tree tree' : Tree) : Prop where
  metadata : tree'.metadata = tree.metadata
  partitions : tree'.partitions = tree.partitions

theorem SameContent.refl (tree : Tree) : SameContent tree tree := ⟨rfl, rfl⟩

theorem SameContent.trans {tree' tree'' : Tree} (first : SameContent tree tree')
    (second : SameContent tree' tree'') :
    SameContent tree tree'' :=
  ⟨second.metadata.trans first.metadata, second.partitions.trans first.partitions⟩

theorem SameContent.recorded {tree' : Tree} (same : SameContent tree tree') :
    tree'.recorded = tree.recorded := by
  unfold Tree.recorded
  rw [same.metadata]

theorem meets_existingMetadata {post : Post μ Tree TopicError TopicsMetadata}
    (whole : tree.metadata ≠ some .cut) (returns : post.returns tree.recorded m tree)
    (fails : ∀ reason, post.fails reason m tree) (dies : post.dies tree) :
    Meets allowed existingMetadata m tree post := by
  apply Meets.bind
  apply Meets.attempt
  refine meets_treeOperation ?_ (fun _ => Meets.throw (fails _)) (fun _ => dies)
  unfold Tree.recorded at returns
  cases found : tree.metadata with
  | none =>
    rw [found] at returns
    exact Meets.pure returns
  | some text =>
    cases text with
    | cut => exact absurd found whole
    | encoded topics =>
      rw [found] at returns
      apply Meets.bind
      refine meets_treeOperation ?_ (fun _ => fails _) (fun _ => dies)
      rw [found]
      exact Meets.pure returns

theorem meets_removeTmp {post : Post μ Tree TopicError Unit}
    (returns : ∀ tree', SameContent tree tree' → post.returns () m tree')
    (fails : ∀ reason, post.fails reason m tree) (dies : post.dies tree) :
    Meets allowed removeTmp m tree post := by
  refine meets_treeOperation ?_ (fun _ => fails _) (fun _ => dies)
  cases tree.metadataTmp with
  | none => exact fails _
  | some text => exact returns _ ⟨rfl, rfl⟩

theorem meets_discardTmp {post : Post μ Tree TopicError Unit}
    (returns : ∀ tree', SameContent tree tree' → post.returns () m tree')
    (fails : ∀ reason, post.fails reason m tree) (dies : post.dies tree) :
    Meets allowed (do ignore closeTmp; removeTmp) m tree post := by
  apply Meets.bind
  apply Meets.ignore
  have removal : Meets allowed removeTmp m tree post := meets_removeTmp returns fails dies
  exact meets_treeOperation removal (fun _ => removal) (fun _ => dies)

/-- Up to the rename the topics are what they were, and behind it they have the new one. -/
theorem meets_replaceMetadata {post : Post μ Tree TopicError Unit}
    (whole : tree.metadata ≠ some .cut)
    (returns : ∀ tree', tree'.metadata = some (.encoded (tree.recorded.insert newName newTopic)) →
      tree'.partitions = tree.partitions → post.returns () m tree')
    (fails : ∀ reason tree', SameContent tree tree' → post.fails reason m tree')
    (dies : ∀ tree', SameContent tree tree' → post.dies tree') :
    Meets allowed (replaceMetadata newName newTopic) m tree post := by
  apply Meets.bind
  refine meets_treeOperation ?_ (fun _ => fails _ tree (.refl tree))
    (fun _ => dies tree (.refl tree))
  have made : SameContent tree { tree with metadataDir := true } := ⟨rfl, rfl⟩
  apply Meets.bind
  refine meets_existingMetadata whole ?_ (fun reason => fails reason _ made) (dies _ made)
  rw [made.recorded]
  apply Meets.bind
  refine meets_treeOperation ?_ (fun _ => fails _ _ made) (fun _ => dies _ made)
  have discard : ∀ (tree' : Tree), SameContent tree tree' → ∀ reason, Meets allowed
      (do ignore closeTmp; removeTmp : Program μ Tree TopicError Unit) m tree'
      ⟨fun _ => post.fails reason, fun _ => post.fails reason, post.dies⟩ :=
      fun tree' same reason =>
    meets_discardTmp (fun tree'' later => fails reason tree'' (same.trans later))
      (fun _ => fails reason tree' same) (dies tree' same)
  have remove : ∀ (tree' : Tree), SameContent tree tree' → ∀ reason, Meets allowed
      (removeTmp : Program μ Tree TopicError Unit) m tree'
      ⟨fun _ => post.fails reason, fun _ => post.fails reason, post.dies⟩ :=
      fun tree' same reason =>
    meets_removeTmp (fun tree'' later => fails reason tree'' (same.trans later))
      (fun _ => fails reason tree' same) (dies tree' same)
  have opened : SameContent tree { tree with metadataDir := true, metadataTmp := some .cut } :=
    ⟨rfl, rfl⟩
  have written : SameContent tree { tree with
      metadataDir := true
      metadataTmp := some (.encoded (tree.recorded.insert newName newTopic)) } := ⟨rfl, rfl⟩
  apply Meets.bind
  apply Meets.onError
  refine Meets.operate ?_ (fun _ _ => discard _ opened _) (fun _ _ => dies _ opened)
  apply Meets.bind
  apply Meets.onError
  refine meets_treeOperation ?_ (fun _ => discard _ written _) (fun _ => dies _ written)
  apply Meets.bind
  apply Meets.onError
  refine meets_treeOperation ?_ (fun _ => remove _ written _) (fun _ => dies _ written)
  apply Meets.onError
  exact meets_treeOperation (returns _ rfl rfl) (fun _ => remove _ written _)
    (fun _ => dies _ written)

theorem meets_saveMetadata {post : Post μ Tree TopicError (Bool × Option TopicError)}
    (whole : tree.metadata ≠ some .cut)
    (saved : ∀ failure tree',
      tree'.metadata = some (.encoded (tree.recorded.insert newName newTopic)) →
      tree'.partitions = tree.partitions → post.returns (true, failure) m tree')
    (unsaved : ∀ reason tree', SameContent tree tree' → post.returns (false, some reason) m tree')
    (dies : ∀ tree', tree'.partitions = tree.partitions → (tree'.metadata = tree.metadata ∨
      tree'.metadata = some (.encoded (tree.recorded.insert newName newTopic))) → post.dies tree') :
    Meets allowed (saveMetadata newName newTopic) m tree post := by
  apply Meets.bind
  apply Meets.attempt
  refine meets_replaceMetadata whole ?_ ?_
    (fun tree' same => dies tree' same.partitions (Or.inl same.metadata))
  · intro tree' renamed partitions
    have died := dies tree' partitions (Or.inr renamed)
    have failed : ∀ reason, Meets allowed (pure (true, some reason)) m tree' post := fun reason =>
      Meets.pure (saved (some reason) tree' renamed partitions)
    apply Meets.bind
    apply Meets.attempt
    apply Meets.bind
    refine meets_treeOperation ?_ (fun _ => failed _) (fun _ => died)
    exact meets_treeOperation (Meets.pure (saved none tree' renamed partitions)) (fun _ => failed _)
      (fun _ => died)
  · exact fun reason tree' same => Meets.pure (unsaved reason tree' same)

end Metadata

/-! ## Creating a topic -/

section Create

variable {allowed : Fault → Prop} {kept : Directory → Prop} {ready : Store → Directory → Prop}
  {m : Manager} {tree : Tree} {name : Bytes} {count : Int} {retention : RetentionPolicy}

/-- A topic that is not in memory is created in its own directories and with its own entry in the
    metadata file, or its directories are taken back. -/
theorem meets_createTopic {post : Post Manager Tree TopicError Topic}
    (keeping : Keeping allowed m.config kept ready) (whole : tree.metadata ≠ some .cut)
    (before : m.topics.lookup name = none → ∀ id, kept (tree.partitions name id))
    (refused : ∀ reason, post.fails reason m tree)
    (created : m.topics.lookup name = none →
      topicNameMatches name → 0 < count → count ≤ maxPartitionsPerTopic →
      ∀ stores tree', stores.length = count.toNat →
      Confined kept name tree
        (some (.encoded (tree.recorded.insert name ⟨name, count, m.resolve retention⟩))) tree' →
      (∀ id s, stores[id]? = some s → ready s (tree'.partitions name id)) →
      post.returns ⟨name, stores, m.resolve retention⟩
        { m with topics := m.topics.insert name ⟨name, stores, m.resolve retention⟩ } tree')
    (undone : m.topics.lookup name = none →
      ∀ reason tree', Confined kept name tree tree.metadata tree' →
      post.fails reason m tree')
    (dies : m.topics.lookup name = none →
      ∀ tree', Confined kept name tree tree.metadata tree' → post.dies tree')
    (savedDies : m.topics.lookup name = none →
      topicNameMatches name → 0 < count → count ≤ maxPartitionsPerTopic →
      ∀ (stores : List Store) tree', stores.length = count.toNat →
      Confined kept name tree
        (some (.encoded (tree.recorded.insert name ⟨name, count, m.resolve retention⟩))) tree' →
      (∀ id s, stores[id]? = some s → ready s (tree'.partitions name id)) → post.dies tree') :
    Meets allowed (createTopic name count retention) m tree post := by
  unfold createTopic
  by_cases valid : topicNameMatches name
  swap
  · rw [if_pos valid]
    exact Meets.throw (refused _)
  rw [if_neg (not_not.mpr valid)]
  split_ifs with few many
  · exact Meets.throw (refused _)
  · exact Meets.throw (refused _)
  apply Meets.bind
  apply Meets.memory
  dsimp only
  split_ifs with exists_
  · exact Meets.throw (refused _)
  have absent : m.topics.lookup name = none := by simpa using exists_
  have confined := confined_start (before absent)
  apply Meets.bind
  rw [List.range_eq_range']
  refine meets_createPartitions keeping [] confined (fun _ _ nothing => by cases nothing) ?_
    (undone absent) (dies absent)
  intro stores tree₁ length opened ready₁
  have same : tree₁.recorded = tree.recorded := by
    unfold Tree.recorded
    rw [opened.metadata]
  rw [List.length_nil, Nat.zero_add] at length
  apply Meets.bind
  refine meets_saveMetadata (by rw [opened.metadata]; exact whole) ?_ ?_ ?_
  · intro failure tree₂ renamed partitions
    rw [same] at renamed
    dsimp only
    apply Meets.bind
    apply Meets.modify
    refine Meets.pure (created absent valid (by omega) (by omega) stores tree₂ length
      (opened.samePartitions renamed partitions) ?_)
    rw [partitions]
    exact ready₁
  · intro reason tree₂ unchanged
    have after := opened.samePartitions (unchanged.metadata.trans opened.metadata)
      unchanged.partitions
    apply Meets.bind
    refine meets_rollBack keeping after (fun tree₃ done => ?_) (dies absent)
    exact Meets.throw (undone absent _ tree₃ done)
  · intro tree₂ partitions metadata
    rw [same, opened.metadata] at metadata
    rcases metadata with unchanged | renamed
    · exact dies absent tree₂ (opened.samePartitions unchanged partitions)
    · refine savedDies absent valid (by omega) (by omega) stores tree₂ length
        (opened.samePartitions renamed partitions) ?_
      rw [partitions]
      exact ready₁

end Create

end MessageBroker.Topics
