import MessageBroker.Storage.Files

namespace MessageBroker.Storage

open Faulty

/-! ## Looking files up -/

section Lookup

variable {d : Directory} {name other : FileName} {file : File}

@[simp] theorem file?_put_self : (d.put name file).file? name = some file :=
  AList.lookup_insert d.files

@[simp] theorem file?_put_other (differs : other ≠ name) :
    (d.put name file).file? other = d.file? other :=
  AList.lookup_insert_ne differs

@[simp] theorem file?_erase_self : (d.erase name).file? name = none :=
  AList.lookup_erase name d.files

@[simp] theorem file?_erase_other (differs : other ≠ name) :
    (d.erase name).file? other = d.file? other :=
  AList.lookup_erase_ne differs

@[simp] theorem file?_durable (names : List FileName) :
    ({ d with durableNames := names } : Directory).file? name = d.file? name := rfl

theorem mem_keys_iff : name ∈ d.files.keys ↔ d.file? name ≠ none := by
  rw [← AList.mem_keys, ← AList.lookup_isSome]
  unfold Directory.file?
  cases d.files.lookup name <;> simp

/-- What creating a file does: nothing when it is there. -/
def Directory.touch (d : Directory) (name : FileName) : Directory :=
  match d.file? name with
  | none => d.put name ⟨[], []⟩
  | some _ => d

theorem file?_touch_other (differs : other ≠ name) :
    (d.touch name).file? other = d.file? other := by
  unfold Directory.touch
  split
  · exact file?_put_other differs
  · rfl

theorem touch_found (found : d.file? name = some file) : d.touch name = d := by
  simp [Directory.touch, found]

theorem file?_touch_missing (missing : d.file? name = none) :
    (d.touch name).file? name = some ⟨[], []⟩ := by
  simp [Directory.touch, missing]

theorem file?_touch_self (d : Directory) (name : FileName) :
    ∃ file, (d.touch name).file? name = some file ∧
    (d.file? name = some file ∨ d.file? name = none ∧ file = ⟨[], []⟩) := by
  cases found : d.file? name with
  | none => exact ⟨_, file?_touch_missing found, Or.inr ⟨rfl, rfl⟩⟩
  | some file => exact ⟨file, by rw [touch_found found, found], Or.inl rfl⟩

def SameBut (name : FileName) (d d' : Directory) : Prop :=
  ∀ other, other ≠ name → d'.file? other = d.file? other

theorem SameBut.refl (name : FileName) (d : Directory) : SameBut name d d := fun _ _ => rfl

theorem SameBut.trans {d' d'' : Directory} (first : SameBut name d d')
    (second : SameBut name d' d'') :
    SameBut name d d'' := fun other differs => (second other differs).trans (first other differs)

theorem sameBut_put : SameBut name d (d.put name file) := fun _ differs => file?_put_other differs

theorem sameBut_erase : SameBut name d (d.erase name) := fun _ differs => file?_erase_other differs

end Lookup

/-! ## Contents -/

theorem overwrite_end (data bytes : Bytes) : overwrite data data.length bytes = data ++ bytes := by
  simp [overwrite]

theorem overwrite_inside {data bytes : Bytes} {position : Nat} (inside : position ≤ data.length) :
    overwrite data position bytes =
      data.take position ++ bytes ++ data.drop (position + bytes.length) := by
  have nothing : position - data.length = 0 := by omega
  simp [overwrite, nothing]

theorem writeFile_found {d : Directory} {name : FileName} {file : File} {position : Nat}
    {bytes : Bytes} (found : d.file? name = some file) :
    writeFile name position bytes d =
      d.put name { file with data := overwrite file.data position bytes } := by
  simp [writeFile, found]

theorem file?_writeFile_other {d : Directory} {name other : FileName} {position : Nat}
    {bytes : Bytes} (differs : other ≠ name) :
    (writeFile name position bytes d).file? other = d.file? other := by
  unfold writeFile
  split
  · rfl
  · exact file?_put_other differs

/-! ## One rule for each operation -/

section Rules

variable {μ α : Type} {allowed : Fault → Prop} {m : μ} {d : Directory} {name : FileName}
  {file : File}

/-- Some fault is possible: the excuse of every error exit that is the environment's doing. -/
def Shaky (allowed : Fault → Prop) : Prop := ∃ fault, allowed fault

theorem not_shaky_never : ¬ Shaky (fun _ => False) := fun ⟨_, impossible⟩ => impossible

theorem meets_unitary {post : Post μ Directory StoreError α} {operation : Operation}
    {action : Directory → Except StoreError α × Directory}
    (passes : post.accepts m (action d))
    (fails : Shaky allowed → post.fails (.io operation) m d) (dies : Shaky allowed → post.dies d) :
    Meets allowed (unitary operation action) m d post :=
  Meets.operate passes (fun _ possible => fails ⟨_, possible⟩)
    (fun _ possible => dies ⟨_, possible⟩)

theorem meets_mkdirAll {post : Post μ Directory StoreError Unit}
    (returns : post.returns () m { d with present := true })
    (fails : Shaky allowed → post.fails (.io .mkdirAll) m d) (dies : Shaky allowed → post.dies d) :
    Meets allowed mkdirAll m d post :=
  meets_unitary returns fails dies

theorem meets_readDir {post : Post μ Directory StoreError (List FileName)}
    (returns : post.returns d.files.keys m d)
    (fails : Shaky allowed → post.fails (.io .readDir) m d) (dies : Shaky allowed → post.dies d) :
    Meets allowed readDir m d post :=
  meets_unitary returns fails dies

theorem meets_openCreate {post : Post μ Directory StoreError Unit}
    (returns : post.returns () m (d.touch name))
    (fails : Shaky allowed → post.fails (.io .open_) m d) (dies : Shaky allowed → post.dies d) :
    Meets allowed (openCreate name) m d post := by
  apply meets_unitary _ fails dies
  unfold Directory.touch at returns
  cases found : d.file? name <;> rw [found] at returns <;> exact returns

theorem meets_openTruncate {post : Post μ Directory StoreError Unit}
    (returns : ∀ synced, post.returns () m (d.put name ⟨[], synced⟩))
    (fails : Shaky allowed → post.fails (.io .open_) m d) (dies : Shaky allowed → post.dies d) :
    Meets allowed (openTruncate name) m d post := by
  apply meets_unitary _ fails dies
  cases found : d.file? name with
  | none => exact returns []
  | some file => exact returns file.synced

theorem meets_openExisting {post : Post μ Directory StoreError Unit}
    (found : d.file? name = some file) (returns : post.returns () m d)
    (fails : Shaky allowed → post.fails (.io .open_) m d) (dies : Shaky allowed → post.dies d) :
    Meets allowed (openExisting name) m d post := by
  apply meets_unitary _ fails dies
  simpa only [Post.accepts, found] using returns

theorem meets_stat {post : Post μ Directory StoreError Nat} (found : d.file? name = some file)
    (returns : post.returns file.data.length m d)
    (fails : Shaky allowed → post.fails (.io .stat) m d) (dies : Shaky allowed → post.dies d) :
    Meets allowed (stat name) m d post := by
  apply meets_unitary _ fails dies
  simpa only [Post.accepts, found] using returns

theorem meets_readAt {post : Post μ Directory StoreError Bytes} {position count : Nat}
    (found : d.file? name = some file) (inside : position + count ≤ file.data.length)
    (returns : post.returns ((file.data.drop position).take count) m d)
    (fails : Shaky allowed → post.fails (.io .readAt) m d) (dies : Shaky allowed → post.dies d) :
    Meets allowed (readAt name position count) m d post := by
  apply meets_unitary _ fails dies
  simpa only [Post.accepts, found, inside, if_true] using returns

theorem meets_readAt_any {post : Post μ Directory StoreError Bytes} {position count : Nat}
    (found : d.file? name = some file)
    (returns : position + count ≤ file.data.length →
      post.returns ((file.data.drop position).take count) m d)
    (fails : ∀ reason, Shaky allowed ∨ file.data.length < position + count → post.fails reason m d)
    (dies : Shaky allowed → post.dies d) :
    Meets allowed (readAt name position count) m d post := by
  apply meets_unitary _ (fun shaky => fails _ (Or.inl shaky)) dies
  simp only [found]
  by_cases inside : position + count ≤ file.data.length
  · simpa only [Post.accepts, inside, if_true] using returns inside
  · simpa only [Post.accepts, inside, if_false] using fails .endOfFile (Or.inr (not_le.mp inside))

theorem meets_readUpTo {post : Post μ Directory StoreError Bytes} {count : Nat}
    (found : d.file? name = some file) (whole : file.data.length = count)
    (returns : post.returns file.data m d)
    (fails : Shaky allowed → post.fails (.io .readAt) m d) (dies : Shaky allowed → post.dies d) :
    Meets allowed (readUpTo name count) m d post := by
  apply meets_unitary _ fails dies
  simpa only [Post.accepts, found, ← whole, List.take_length, Nat.sub_self, List.replicate_zero,
    List.append_nil] using returns

theorem meets_writeAt {post : Post μ Directory StoreError Unit} {position : Nat} {bytes : Bytes}
    (found : d.file? name = some file)
    (returns : post.returns () m
      (d.put name { file with data := overwrite file.data position bytes }))
    (fails : Shaky allowed → ∀ written, written ≤ bytes.length - 1 → post.fails (.io .writeAt) m
      (d.put name { file with data := overwrite file.data position (bytes.take written) }))
    (dies : Shaky allowed → ∀ written, post.dies
      (d.put name { file with data := overwrite file.data position (bytes.take written) })) :
    Meets allowed (writeAt name position bytes) m d post := by
  apply Meets.operate
  · simpa only [Post.accepts, found, writeFile_found found] using returns
  · intro written possible
    rw [writeFile_found found]
    exact fails ⟨_, possible⟩ _ (Nat.min_le_right _ _)
  · intro written possible
    rw [writeFile_found found]
    exact dies ⟨_, possible⟩ written

theorem meets_truncate {post : Post μ Directory StoreError Unit} {size : Nat}
    (found : d.file? name = some file) (inside : size ≤ file.data.length)
    (returns : post.returns () m (d.put name { file with data := file.data.take size }))
    (fails : Shaky allowed → post.fails (.io .truncate) m d) (dies : Shaky allowed → post.dies d) :
    Meets allowed (truncate name size) m d post := by
  have nothing : size - file.data.length = 0 := by omega
  apply meets_unitary _ fails dies
  simpa only [Post.accepts, found, nothing, List.replicate_zero, List.append_nil] using returns

theorem meets_sync {post : Post μ Directory StoreError Unit} (found : d.file? name = some file)
    (returns : post.returns () m (d.put name { file with synced := file.data }))
    (fails : Shaky allowed → post.fails (.io .sync) m d) (dies : Shaky allowed → post.dies d) :
    Meets allowed (sync name) m d post := by
  apply meets_unitary _ fails dies
  simpa only [Post.accepts, found] using returns

theorem meets_close {post : Post μ Directory StoreError Unit}
    (returns : post.returns () m d)
    (fails : Shaky allowed → post.fails (.io .close) m d) (dies : Shaky allowed → post.dies d) :
    Meets allowed (close name) m d post :=
  meets_unitary returns fails dies

theorem meets_rename {post : Post μ Directory StoreError Unit} {target : FileName}
    (found : d.file? name = some file)
    (returns : ∀ names,
      post.returns () m { (d.erase name).put target file with durableNames := names })
    (fails : Shaky allowed → post.fails (.io .rename) m d) (dies : Shaky allowed → post.dies d) :
    Meets allowed (rename name target) m d post := by
  apply meets_unitary _ fails dies
  simpa only [Post.accepts, found] using returns _

theorem meets_remove {post : Post μ Directory StoreError Unit} (found : d.file? name = some file)
    (returns : post.returns () m (d.erase name))
    (fails : Shaky allowed → post.fails (.io .remove) m d) (dies : Shaky allowed → post.dies d) :
    Meets allowed (remove name) m d post := by
  apply meets_unitary _ fails dies
  simpa only [Post.accepts, found] using returns

theorem meets_remove_any {post : Post μ Directory StoreError Unit}
    (returns : post.returns () m (d.erase name)) (fails : ∀ reason, post.fails reason m d)
    (dies : Shaky allowed → post.dies d) : Meets allowed (remove name) m d post := by
  apply meets_unitary _ (fun _ => fails _) dies
  cases found : d.file? name with
  | none => exact fails .notExist
  | some file => exact returns

theorem meets_syncDirectory {post : Post μ Directory StoreError Unit}
    (returns : post.returns () m { d with durableNames := d.files.keys })
    (fails : Shaky allowed → ∀ operation, post.fails (.io operation) m d)
    (dies : Shaky allowed → post.dies d) :
    Meets allowed syncDirectory m d post := by
  apply Meets.bind
  refine meets_unitary ?_ (fun shaky => fails shaky _) dies
  exact meets_unitary returns (fun shaky => fails shaky _) dies

end Rules

end MessageBroker.Storage
