import MessageBroker.Storage.FileRules
import MessageBroker.Topics.Manager

namespace MessageBroker.Topics

open Faulty Program Storage

/-! ## One partition of many -/

section Lookup

variable {tree : Tree} {m : Manager} {name other : Bytes} {id otherId : Nat} {d : Directory}
  {s : Store}

@[simp] theorem partitions_setPartition_self :
    (tree.setPartition name id d).partitions name id = d := by
  simp [Tree.setPartition]

theorem partitions_setPartition_other (differs : (other, otherId) ≠ (name, id)) :
    (tree.setPartition name id d).partitions other otherId = tree.partitions other otherId := by
  have apart : ¬ (other = name ∧ otherId = id) := by simpa using differs
  simp [Tree.setPartition, apart]

theorem store?_eq {t : Topic} (found : m.topics.lookup name = some t) :
    m.store? name id = t.partitions[id]? := by
  simp [Manager.store?, found]

theorem store?_setStore_other (differs : (other, otherId) ≠ (name, id)) :
    (m.setStore name id s).store? other otherId = m.store? other otherId := by
  unfold Manager.setStore
  cases found : m.topics.lookup name with
  | none => rfl
  | some t =>
    by_cases same : other = name
    · subst same
      have apart : id ≠ otherId := by
        rintro rfl
        exact differs rfl
      rw [store?_eq found, store?_eq (AList.lookup_insert _)]
      exact List.getElem?_set_ne apart
    · simp only [Manager.store?]
      rw [AList.lookup_insert_ne same]

theorem getPartition_ok : m.getPartition name id = .ok s ↔ m.store? name id = some s := by
  unfold Manager.getPartition Manager.store?
  cases m.topics.lookup name with
  | none => simp
  | some t =>
    show t.partition id = _ ↔ t.partitions[id]? = _
    unfold Topic.partition
    cases t.partitions[id]? <;> simp

theorem store?_setStore_self {s' : Store} (found : m.store? name id = some s) :
    (m.setStore name id s').store? name id = some s' := by
  cases here : m.topics.lookup name with
  | none => simp [Manager.store?, here] at found
  | some t =>
    rw [store?_eq here] at found
    unfold Manager.setStore
    rw [here]
    dsimp only
    rw [store?_eq (AList.lookup_insert _)]
    exact List.getElem?_set_self (List.getElem?_eq_some_iff.mp found).1

end Lookup

/-! ## Rules -/

section Rules

variable {μ α : Type} {allowed : Fault → Prop} {tree : Tree} {name : Bytes} {id : Nat}

theorem meets_treeOperation {m : μ} {post : Post μ Tree TopicError α} {operation : Operation}
    {action : Tree → Except TopicError α × Tree} (passes : post.accepts m (action tree))
    (fails : Shaky allowed → post.fails (.io operation) m tree)
    (dies : Shaky allowed → post.dies tree) :
    Meets allowed (treeOperation operation action) m tree post :=
  Meets.operate passes (fun _ possible => fails ⟨_, possible⟩)
    (fun _ possible => dies ⟨_, possible⟩)

theorem meets_inPartition {ν : Type} {m : μ} {inner : ν} {p : Program ν Directory StoreError α}
    {post : Post μ Tree TopicError α} (meets : Meets allowed p inner (tree.partitions name id)
      ⟨fun value _ d => post.returns value m (tree.setPartition name id d),
       fun reason _ d => post.fails (.storage reason) m (tree.setPartition name id d),
       fun d => post.dies (tree.setPartition name id d)⟩) :
    Meets allowed (inPartition name id inner p) m tree post :=
  Meets.mapError (Meets.focus meets)

theorem meets_onStore {m : Manager} {s : Store} {call : StoreProgram α}
    {post : Post Manager Tree TopicError α} (found : m.store? name id = some s)
    (meets : Meets allowed call s (tree.partitions name id)
      ⟨fun value s' d => post.returns value (m.setStore name id s') (tree.setPartition name id d),
       fun reason s' d =>
         post.fails (.storage reason) (m.setStore name id s') (tree.setPartition name id d),
       fun d => post.dies (tree.setPartition name id d)⟩) :
    Meets allowed (onStore name id call) m tree post := by
  apply Meets.bind
  apply Meets.memory
  dsimp only
  rw [found]
  exact Meets.mapError (Meets.focus meets)

end Rules

/-! ## What every directory keeps to -/

def Tree.recorded (tree : Tree) : TopicsMetadata :=
  match tree.metadata with
  | some (.encoded topics) => topics
  | _ => ∅

/-- The metadata file is `metadata`, and every directory is in its class. -/
structure Standing (kept : Bytes → Nat → Directory → Prop) (metadata : Option MetadataText)
    (tree : Tree) : Prop where
  metadata : tree.metadata = metadata
  kept : ∀ name id, kept name id (tree.partitions name id)

/-- A class of directories that opening and closing a store do not leave. `ready` is what an opened
    store and its directory are. -/
structure Opening (allowed : Fault → Prop) (trouble : Prop) (config : Config)
    (kept : Directory → Prop) (ready : Store → Directory → Prop) : Prop where
  drops : ∀ s d, ready s d → kept d
  opens : ∀ d, kept d → Meets allowed (openStore config) () d
    ⟨fun s _ d' => ready s d', fun _ _ d' => trouble ∧ kept d', fun d' => trouble ∧ kept d'⟩
  closes : ∀ s d, kept d → Meets allowed closeStore s d (.always kept)

section Standing

variable {μ : Type} {m : μ} {allowed : Fault → Prop} {kept : Bytes → Nat → Directory → Prop}
  {metadata : Option MetadataText} {tree : Tree} {name : Bytes} {id : Nat}

theorem Standing.setPartition {d : Directory} (standing : Standing kept metadata tree)
    (stays : kept name id d) :
    Standing kept metadata (tree.setPartition name id d) := by
  refine ⟨standing.metadata, fun other otherId => ?_⟩
  by_cases same : (other, otherId) = (name, id)
  · cases same
    rw [partitions_setPartition_self]
    exact stays
  · rw [partitions_setPartition_other same]
    exact standing.kept other otherId

theorem Standing.samePartitions {other : Option MetadataText} {tree' : Tree}
    (standing : Standing kept metadata tree) (changed : tree'.metadata = other)
    (same : tree'.partitions = tree.partitions) : Standing kept other tree' :=
  ⟨changed, by rw [same]; exact standing.kept⟩

theorem Standing.inPartition {ν α : Type} {inner : ν} {p : Program ν Directory StoreError α}
    (standing : Standing kept metadata tree)
    (meets : Meets allowed p inner (tree.partitions name id) (.always (kept name id))) :
    Meets allowed (inPartition name id inner p) m tree
      ⟨fun _ m' tree' => m' = m ∧ Standing kept metadata tree',
        fun _ m' tree' => m' = m ∧ Standing kept metadata tree',
       Standing kept metadata⟩ :=
  meets_inPartition (meets.mono (fun _ _ _ stays => ⟨rfl, standing.setPartition stays⟩)
    (fun _ _ _ stays => ⟨rfl, standing.setPartition stays⟩)
    fun _ stays => standing.setPartition stays)

theorem opened_append {ready : Nat → Store → Directory → Prop} {stores : List Store} {s : Store}
    {d : Directory} (opened : ∀ id s, stores[id]? = some s → ready id s (tree.partitions name id))
    (after : ready stores.length s d) (id : Nat) (other : Store)
    (found : (stores ++ [s])[id]? = some other) :
    ready id other ((tree.setPartition name stores.length d).partitions name id) := by
  rcases Nat.lt_trichotomy id stores.length with less | rfl | greater
  · rw [List.getElem?_append_left less] at found
    rw [partitions_setPartition_other (by simp [Nat.ne_of_lt less])]
    exact opened id other found
  · rw [List.getElem?_append_right (le_refl _), Nat.sub_self, List.getElem?_cons_zero,
      Option.some.injEq] at found
    rw [partitions_setPartition_self, ← found]
    exact after
  · rw [List.getElem?_eq_none (by simp; omega)] at found
    cases found

theorem meets_closeStores {stores : List Store} {post : Post μ Tree TopicError Unit} (id : Nat)
    (closes : ∀ id s d, kept name id d → Meets allowed closeStore s d (.always (kept name id)))
    (standing : Standing kept metadata tree)
    (returns : ∀ tree', Standing kept metadata tree' → post.returns () m tree')
    (dies : ∀ tree', Standing kept metadata tree' → post.dies tree') :
    Meets allowed (closeStores name id stores) m tree post := by
  induction stores generalizing id tree with
  | nil => exact Meets.pure (returns tree standing)
  | cons s rest ih =>
    apply Meets.bind
    apply Meets.ignore
    refine (standing.inPartition (closes id s _ (standing.kept name id))).mono ?_ ?_ dies
    · rintro _ _ tree' ⟨rfl, after⟩
      exact ih (id + 1) after
    · rintro _ _ tree' ⟨rfl, after⟩
      exact ih (id + 1) after

end Standing

end MessageBroker.Topics
