import MessageBroker.Storage.FailedAppend
import MessageBroker.Storage.IndexForgery

namespace MessageBroker.Storage

open Faulty Program Runs BigEndian

/-! ## Power loss -/

/-- What the power's going may leave of a directory. A name survives only if the directory was
    fsynced with it, and its file has at least the bytes of its last `Sync`: these, or what a part
    of the later writes has made of them. -/
structure PowerLoss (d d' : Directory) : Prop where
  names : ∀ name, d'.file? name ≠ none → d.file? name ≠ none ∧ name ∈ d.durableNames
  files : ∀ name file, d.file? name = some file → name ∈ d.durableNames →
    ∃ file', d'.file? name = some file' ∧
      (file'.data = file.synced ∨
        ∃ count, file.synced.length ≤ count ∧ file'.data = file.data.take count)

def Durable (d : Directory) : Prop :=
  ∀ name file, d.file? name = some file → name ∈ d.durableNames ∧ file.synced = file.data

instance (d : Directory) : Decidable (Durable d) :=
  decidable_of_iff
    (∀ name ∈ d.files.keys, ∀ file ∈ d.file? name, name ∈ d.durableNames ∧ file.synced = file.data)
    ⟨fun all name file found => all name (mem_keys_iff.mpr (by rw [found]; simp)) file found,
      fun durable name _ file found => durable name file found⟩

def Exposes (p : Partition) (r : StoredRecord) : Prop :=
  ∀ maxBytes, 0 < maxBytes →
    ∃ rest, (p.perform ⟨.read r.offset maxBytes, []⟩).1 = .found (r :: rest)

section Lost

variable {d d' : Directory} {name : FileName} {file : File}

/-- A log keeps what was synced and at most some of what came behind it. -/
theorem PowerLoss.log (lost : PowerLoss d d') (found : d.file? name = some file)
    (durable : name ∈ d.durableNames) (inside : file.synced <+: file.data) :
    ∃ file', d'.file? name = some file' ∧
      file.synced <+: file'.data ∧ file'.data <+: file.data := by
  obtain ⟨file', found', same | ⟨count, enough, same⟩⟩ := lost.files name file found durable
  · exact ⟨file', found', same ▸ List.prefix_refl _, same ▸ inside⟩
  · exact ⟨file', found', by rw [same]; exact List.prefix_take_iff.mpr ⟨inside, enough⟩,
      same ▸ List.take_prefix _ _⟩

def Directory.crash (d : Directory) : Directory :=
  d.durableNames.foldr (fun name kept => match d.file? name with
    | none => kept
    | some file => kept.put name ⟨file.synced, file.synced⟩) ⟨d.present, ∅, d.durableNames⟩

theorem file?_crash (d : Directory) (name : FileName) : d.crash.file? name =
    if name ∈ d.durableNames then (d.file? name).map fun file => ⟨file.synced, file.synced⟩
    else none := by
  have step : ∀ names : List FileName, (names.foldr (fun name kept => match d.file? name with
      | none => kept
      | some file => kept.put name ⟨file.synced, file.synced⟩)
      (⟨d.present, ∅, d.durableNames⟩ : Directory)).file? name =
      if name ∈ names then (d.file? name).map fun file => ⟨file.synced, file.synced⟩ else none := by
    intro names
    induction names with
    | nil => rfl
    | cons first names ih =>
      rw [List.foldr_cons]
      by_cases here : name = first
      · subst here
        rw [if_pos List.mem_cons_self]
        cases found : d.file? name with
        | none =>
          simp only [found, Option.map_none, ite_self] at ih ⊢
          exact ih
        | some file => exact file?_put_self
      · have same : (name ∈ first :: names) = (name ∈ names) := by simp [here]
        simp only [same]
        cases d.file? first with
        | none => exact ih
        | some file => exact (file?_put_other here).trans ih
  exact step d.durableNames

theorem powerLoss_crash (d : Directory) : PowerLoss d d.crash := by
  refine ⟨?_, ?_⟩
  · intro name found
    rw [file?_crash] at found
    split_ifs at found with durable
    · exact ⟨fun missing => found (by rw [missing]; rfl), durable⟩
    · exact absurd rfl found
  · intro name file found durable
    exact ⟨⟨file.synced, file.synced⟩, by rw [file?_crash, if_pos durable, found]; rfl, Or.inl rfl⟩

end Lost

/-! ## What an append syncs -/

/-- Each file was synced last when it was before, or as it now is. -/
def Reflushed (d d' : Directory) : Prop := ∀ name file', d'.file? name = some file' →
  ∃ file, d.file? name = some file ∧ (file'.synced = file.synced ∨ file'.synced = file'.data)

def SameSynced (d d' : Directory) : Prop :=
  ∀ name, (d'.file? name).map File.synced = (d.file? name).map File.synced

section Syncs

variable {allowed : Fault → Prop} {d d' d'' : Directory} {s : Store}

theorem SameSynced.refl (d : Directory) : SameSynced d d := fun _ => rfl

theorem SameSynced.trans (first : SameSynced d d') (second : SameSynced d' d'') :
    SameSynced d d'' := fun name =>
  (second name).trans (first name)

theorem sameSynced_write (name : FileName) (position : Nat) (bytes : Bytes) (d : Directory) :
    SameSynced d (writeFile name position bytes d) := by
  intro other
  unfold writeFile
  cases found : d.file? name with
  | none => rfl
  | some file =>
    by_cases same : other = name
    · rw [same, file?_put_self, found]
      rfl
    · rw [file?_put_other same]

theorem SameSynced.flushed (same : SameSynced d d') (flushed : Flushed d' d'') :
    Reflushed d d'' := by
  intro name file'' found''
  obtain ⟨file', found', data⟩ := found_of_same (flushed.sameData name).symm found''
  obtain ⟨other, found, _, synced⟩ := flushed.files name file' found'
  rw [found'', Option.some.injEq] at found
  subst found
  obtain ⟨file, before, earlier⟩ : ∃ file,
      d.file? name = some file ∧ file.synced = file'.synced := by
    have known := (same name).symm
    rw [found', Option.map_some, Option.map_eq_some_iff] at known
    exact known
  exact ⟨file, before,
    synced.imp (fun kept => kept.trans earlier.symm) fun whole => whole.trans data⟩

theorem SameSynced.reflushed (same : SameSynced d d') : Reflushed d d' :=
  same.flushed (Flushed.refl d')

theorem meets_writeAt_synced {μ : Type} {m : μ} {name : FileName} {position : Nat} {bytes : Bytes}
    {post : Post μ Directory StoreError Unit}
    (returns : ∀ d', SameSynced d d' → post.returns () m d')
    (fails : ∀ reason d', SameSynced d d' → post.fails reason m d')
    (dies : ∀ d', SameSynced d d' → post.dies d') :
    Meets allowed (writeAt name position bytes) m d post := by
  refine Meets.operate ?_ (fun _ _ => fails _ _ (sameSynced_write _ _ _ d))
    (fun _ _ => dies _ (sameSynced_write _ _ _ d))
  cases found : d.file? name with
  | none => exact fails _ _ (SameSynced.refl d)
  | some file => exact returns _ (sameSynced_write _ _ _ d)

theorem meets_indexBatch_synced {relative position : Nat}
    {post : Post Store Directory StoreError Unit}
    (returns : ∀ s' d', SameSynced d d' → post.returns () s' d')
    (dies : ∀ d', SameSynced d d' → post.dies d') :
    Meets allowed (indexBatch relative position) s d post := by
  unfold indexBatch
  apply Meets.bind
  apply Meets.memory
  dsimp only
  split_ifs
  · apply Meets.bind
    unfold Segment.appendIndexEntry
    apply Meets.bind
    apply Meets.attempt
    refine meets_writeAt_synced ?_ ?_ dies
    · intro d' same
      apply Meets.pure
      dsimp only
      apply Meets.modify
      exact returns _ d' same
    · intro _ d' same
      apply Meets.pure
      dsimp only
      apply Meets.modify
      exact returns _ d' same
  · exact Meets.pure (returns s d (SameSynced.refl d))

theorem meets_flushActive_synced {post : Post Store Directory StoreError Unit}
    (returns : ∀ s' d', Flushed d d' → post.returns () s' d')
    (fails : ∀ reason s' d', Flushed d d' → post.fails reason s' d')
    (dies : ∀ d', Flushed d d' → post.dies d') :
    Meets allowed flushActive s d post := by
  unfold flushActive
  apply Meets.bind
  apply Meets.memory
  apply Meets.bind
  refine meets_segmentFlush ?_ (fun reason d' _ => fails reason s d') (fun _ => dies)
  intro _ d' flushed _
  dsimp only
  apply Meets.modify
  exact returns _ d' flushed

/-- An append that stays in its segment writes first and syncs last. -/
theorem meets_append_reflushed {now : Instant} {b : Batch} (stamp : b.time = unixMilli now)
    (stays : ¬ s.rolls b.size) :
    Meets allowed (append now b.records) s d (.always (Reflushed d)) := by
  have same : Reflushed d d := (SameSynced.refl d).reflushed
  unfold append
  by_cases empty : b.records = []
  · rw [if_pos empty]
    exact Meets.throw same
  rw [if_neg empty]
  apply Meets.bind
  apply Meets.memory
  dsimp only
  split_ifs
  · exact Meets.throw same
  · exact Meets.throw same
  obtain ⟨encoded, length⟩ := b.encode_stored s.logEndOffset empty
  rw [show stampRecords s.logEndOffset (unixMilli now) b.records = b.stored s.logEndOffset by
    rw [← stamp, Batch.stored], encoded]
  dsimp only
  split_ifs
  · exact Meets.throw same
  unfold appendEncoded rollSegment
  apply Meets.bind
  apply Meets.bind
  apply Meets.memory
  dsimp only
  unfold Store.rolls at stays
  rw [length, if_neg stays]
  apply Meets.pure
  unfold writeEncoded
  apply Meets.bind
  apply Meets.memory
  dsimp only
  split
  · apply Meets.bind
    exact meets_poison (Meets.throw same)
  apply Meets.bind
  apply Meets.onError
  apply Meets.bind
  refine meets_writeAt_synced ?_ (fun _ d' synced => meets_poison synced.reflushed)
    (fun d' synced => synced.reflushed)
  intro d' synced
  apply Meets.pure
  apply Meets.bind
  apply Meets.modify
  apply Meets.bind
  refine meets_indexBatch_synced ?_ (fun d'' later => (synced.trans later).reflushed)
  intro s'' d'' later
  dsimp only
  split
  · apply Meets.bind
    apply Meets.onError
    refine meets_flushActive_synced ?_ ?_ fun _ flushed => (synced.trans later).flushed flushed
    · exact fun _ _ flushed => Meets.pure ((synced.trans later).flushed flushed)
    · exact fun _ _ _ flushed => meets_poison ((synced.trans later).flushed flushed)
  · exact Meets.pure (synced.trans later).reflushed

end Syncs

/-! ## What survives -/

theorem Torn.take {limit : Int} {left : Bytes} (torn : Torn limit left) (count : Nat) :
    Torn limit (left.take count) := by
  by_cases short : (left.take count).length < 9
  · exact Or.inl short
  · have enough : 9 ≤ count ∧ 9 ≤ left.length := by
      rw [List.length_take] at short
      omega
    obtain small | ⟨magic, version, least, most, missing⟩ := torn
    · omega
    have header : ((left.take count).drop 5).take 4 = (left.drop 5).take 4 := by
      rw [List.drop_take, List.take_take, Nat.min_eq_left (by omega)]
    refine Or.inr ⟨?_, ?_, by rw [header]; exact least, by rw [header]; exact most, ?_⟩
    · rw [List.take_take, Nat.min_eq_left (by omega), magic]
    · rw [List.drop_take, List.take_take, Nat.min_eq_left (by omega), version]
    · rw [header, List.length_take]
      omega

section Indexes

variable {e : Extent} {data : Bytes}

theorem encodeEntries_take (entries : List IndexEntry) (count : Nat) :
    (encodeEntries entries).take (count * 12) = encodeEntries (entries.take count) := by
  induction entries generalizing count with
  | nil => simp [encodeEntries]
  | cons entry entries ih =>
    cases count with
    | zero => simp [encodeEntries]
    | succ count =>
      have split : encodeEntries (entry :: entries) = entry.encode ++ encodeEntries entries := rfl
      rw [split, show (count + 1) * 12 = entry.encode.length + count * 12 by
        rw [IndexEntry.encode_length]; omega,
        List.take_length_add_append, ih]
      rfl

theorem IndexFile.take (index : IndexFile e data) (count : Nat) :
    IndexFile e (data.take count) := by
  obtain ⟨entries, junk, rfl, short, boundary⟩ := index
  by_cases inside : count ≤ (encodeEntries entries).length
  · refine ⟨entries.take (count / 12), ((encodeEntries entries).take count).drop (count / 12 * 12),
      ?_, ?_, ?_⟩
    · rw [List.take_append_of_le_length inside, ← encodeEntries_take,
        show (encodeEntries entries).take (count / 12 * 12) =
          ((encodeEntries entries).take count).take (count / 12 * 12) by
          rw [List.take_take, Nat.min_eq_left (by omega)], List.take_append_drop]
    · rw [List.length_drop, List.length_take]
      omega
    · exact fun entry member => boundary entry (List.mem_of_mem_take member)
  · rw [List.take_append, List.take_of_length_le (by omega)]
    exact ⟨entries, _, rfl, by rw [List.length_take]; omega, boundary⟩

theorem IndexFile.extend {b : Batch} (index : IndexFile e data) : IndexFile (e.extend b) data :=
  index.imp fun _ holds => holds.extend b

theorem IndexFile.stale (index : IndexFile e data) (valid : e.Valid) : StaleIndex e data :=
  ⟨[], by simpa using valid, by simpa using index⟩

end Indexes

/-- The journal is out of a power loss's reach: its logs are synced under durable names. -/
structure Anchored (J : Journal) (d : Directory) : Prop where
  names : ∀ e ∈ J.extents, .log e.base ∈ d.durableNames
  logs : ∀ e ∈ J.extents,
    ∃ file, d.file? (.log e.base) = some file ∧ file.synced = e.bytes ∧ file.data = e.bytes
  indexes : ∀ e ∈ J.extents, ∀ file, d.file? (.index e.base) = some file → IndexFile e file.synced

/-- Whatever a power loss leaves of the directory has all of the journal in it. -/
def Covered (limit : Int) (J : Journal) (d : Directory) : Prop :=
  ∀ d', PowerLoss d d' →
    ∃ J', Laid (stalePolicy limit) J' d' ∧ J'.floor = J.floor ∧ J.batches <+: J'.batches ∧
    ∀ b ∈ J'.batches, b.Readable

section Covered

variable {limit : Int} {J K : Journal} {d d₁ d' : Directory} {b : Batch} {e : Extent}

theorem Anchored.log (rest : Bytes) (anchored : Anchored J d) (secures : Secures d d₁)
    (lost : PowerLoss d₁ d') (member : e ∈ J.extents)
    (content : ∀ file, d₁.file? (.log e.base) = some file → file.data = e.bytes ++ rest) :
    ∃ file' count,
      d'.file? (.log e.base) = some file' ∧ file'.data = e.bytes ++ rest.take count := by
  obtain ⟨file, found, synced, data⟩ := anchored.logs e member
  obtain ⟨file₁, found₁, grows, inside⟩ :=
    secures.log e.base file found (synced.trans data.symm ▸ List.prefix_refl _)
  obtain ⟨file', found', more, less⟩ :=
    lost.log found₁ (by rw [secures.names]; exact anchored.names e member) inside
  rw [synced] at grows
  obtain ⟨kept, same⟩ := grows.trans more
  rw [← same, content file₁ found₁, List.prefix_append_right_inj, List.prefix_iff_eq_take] at less
  exact ⟨file', kept.length, found', by rw [← same, ← less]⟩

/-- An index file after them. It may know batches that the log has lost. -/
theorem Anchored.index {longer : Extent} {file' : File} (anchored : Anchored J d)
    (reflushed : Reflushed d d₁) (lost : PowerLoss d₁ d') (member : e ∈ J.extents)
    (grown : ∀ data, IndexFile e data → IndexFile longer data)
    (indexes : ∀ file, d₁.file? (.index e.base) = some file → IndexFile longer file.data)
    (found' : d'.file? (.index e.base) = some file') : IndexFile longer file'.data := by
  obtain ⟨present, durable⟩ := lost.names _ (by rw [found']; simp)
  obtain ⟨file₁, found₁⟩ := Option.ne_none_iff_exists'.mp present
  obtain ⟨file, found, synced⟩ := reflushed _ file₁ found₁
  obtain ⟨other, same, data⟩ := lost.files _ file₁ found₁ durable
  rw [found', Option.some.injEq] at same
  subst same
  rcases data with data | ⟨count, _, data⟩
  · rw [data]
    rcases synced with synced | synced
    · rw [synced]
      exact grown _ (anchored.indexes e member file found)
    · rw [synced]
      exact indexes file₁ found₁
  · rw [data]
    exact (indexes file₁ found₁).take count

theorem Anchored.closed (anchored : Anchored J d) (secures : Secures d d₁)
    (reflushed : Reflushed d d₁) (lost : PowerLoss d₁ d') (valid : J.Valid)
    (member : e ∈ J.closedExtents) (onDisk : OnDisk IndexFile (· = []) e d₁) :
    OnDisk StaleIndex (· = []) e d' := by
  have present : e ∈ J.extents := List.mem_append_left _ member
  obtain ⟨file₁, left, found₁, content, rfl⟩ := onDisk.log
  obtain ⟨file', count, found', data⟩ := anchored.log [] secures lost present fun file found => by
    rw [found₁, Option.some.injEq] at found
    rw [← found, content]
  refine ⟨⟨file', [], found', by rw [data, List.take_nil], rfl⟩, ?_⟩
  intro index placed
  exact (anchored.index reflushed lost present (fun _ same => same) onDisk.index placed).stale
    (valid.extents e present)

theorem Anchored.covered (anchored : Anchored J d) (secures : Secures d d₁)
    (reflushed : Reflushed d d₁) (laid : Laid (crashPolicy limit) J d₁)
    (readable : ∀ b ∈ J.batches, b.Readable) : Covered limit J d₁ := by
  intro d' lost
  refine ⟨J, ⟨laid.valid, laid.limit, ?_, ⟨?_, ?_⟩, ?_, ?_⟩, rfl, List.prefix_refl _, readable⟩
  · exact fun e member =>
      anchored.closed secures reflushed lost laid.valid member (laid.closed e member)
  · obtain ⟨file₁, left, found₁, content, torn⟩ := laid.active.log
    obtain ⟨file', count, found', data⟩ :=
      anchored.log left secures lost J.active_mem fun file found => by
      rw [found₁, Option.some.injEq] at found
      rw [← found, content]
    exact ⟨file', _, found', data, Torn.take torn count⟩
  · intro index placed
    exact (anchored.index reflushed lost J.active_mem (fun _ same => same) laid.active.index
      placed).stale
      (laid.valid.extents _ J.active_mem)
  · exact fun base found => laid.only base (lost.names _ found).1
  · intro base above
    by_contra found
    exact (lost.names _ found).1 (laid.above base above)

theorem Anchored.covered_extend (anchored : Anchored J d) (secures : Secures d d₁)
    (reflushed : Reflushed d d₁) (valid : J.Valid) (laid : Laid (crashPolicy limit) (J.extend b) d₁)
    (readable : ∀ b ∈ J.batches, b.Readable) (batch : b.Readable) :
    Covered limit J d₁ := by
  intro d' lost
  have longer := laid.valid.extents _ (J.extend b).active_mem
  have next : b.Valid J.activeExtent.next := by
    have all := longer.batches
    rw [Journal.extend_activeExtent, Extent.extend, validFrom_append] at all
    exact all.2.1
  have small : (b.size : Int) ≤ limit := laid.limit b (by rw [J.extend_batches]; simp)
  have closed : ∀ e ∈ J.closedExtents, OnDisk StaleIndex (· = []) e d' := fun e member =>
    anchored.closed secures reflushed lost valid member (laid.closed e member)
  have only : ∀ base, d'.file? (.log base) ≠ none → ∃ e ∈ (J.extend b).extents, e.base = base :=
    fun base found => laid.only base (lost.names _ found).1
  have above : ∀ base, J.activeBase < base → d'.file? (.index base) = none := by
    intro base beyond
    by_contra found
    exact (lost.names _ found).1 (laid.above base beyond)
  have index : ∀ file, d'.file? (.index J.activeExtent.base) = some file →
      IndexFile (J.activeExtent.extend b) file.data :=
    fun file placed =>
      anchored.index reflushed lost J.active_mem (fun _ => IndexFile.extend) laid.active.index
        placed
  obtain ⟨file₁, left, found₁, content, torn⟩ := laid.active.log
  obtain ⟨file', count, found', data⟩ :=
    anchored.log (b.bytes J.activeExtent.next ++ left) secures lost J.active_mem
    fun file found => by
      rw [show d₁.file? (.log J.activeExtent.base) = some file₁ from found₁, Option.some.injEq]
        at found
      rw [← found, content, Journal.extend_activeExtent, Extent.extend_bytes, List.append_assoc]
  have length := b.bytes_length next
  by_cases whole : b.size ≤ count
  · refine ⟨J.extend b,
      ⟨laid.valid, laid.limit, closed,
        ⟨⟨file', left.take (count - b.size), found', ?_, torn.take _⟩, ?_⟩,
      only, above⟩, rfl, by rw [J.extend_batches]; exact List.prefix_append _ _, ?_⟩
    · rw [data, Journal.extend_activeExtent, Extent.extend_bytes, List.take_append,
        List.take_of_length_le (by omega), length, List.append_assoc]
    · exact fun file placed => (index file placed).stale longer
    · rw [J.extend_batches]
      exact List.forall_mem_append.mpr ⟨readable, List.forall_mem_singleton.mpr batch⟩
  · refine ⟨J, ⟨valid,
      fun other member =>
        laid.limit other (by rw [J.extend_batches]; exact List.mem_append_left _ member), closed,
      ⟨⟨file', (b.bytes J.activeExtent.next).take count, found', ?_,
        torn_take next small (by omega)⟩, ?_⟩, ?_, above⟩, rfl,
      List.prefix_refl _, readable⟩
    · rw [data, List.take_append_of_le_length (by omega)]
    · exact fun file placed => ⟨[b], longer, index file placed⟩
    · intro base found
      obtain ⟨e, member, start⟩ := only base found
      rcases List.mem_append.mp member with member | member
      · exact ⟨e, List.mem_append_left _ member, start⟩
      · rw [List.mem_singleton.mp member] at start
        exact ⟨J.activeExtent, J.active_mem, start⟩

end Covered

/-! ## Runs of appends -/

/-- The next append of a run: whatever fails in it, it does not roll over to a new segment, and its
    batch can be read back. -/
def SyncCall (_ : List Event) (p : Partition) (step : Step) : Prop :=
  match step.action with
  | .append now records => ∀ s ∈ p.store, s.logEndOffset + records.length < 2 ^ 64 ∧
      ¬ s.rolls (Batch.size ⟨unixMilli now, records⟩) ∧ Batch.Readable ⟨unixMilli now, records⟩ ∧
      (s.Takes ⟨unixMilli now, records⟩ → Batch.size ⟨unixMilli now, records⟩ < 2 ^ 31)
  | _ => False

instance (past : List Event) (p : Partition) : ∀ step, Decidable (SyncCall past p step)
  | ⟨.append now records, _⟩ =>
    inferInstanceAs (Decidable (∀ s ∈ p.store, s.logEndOffset + records.length < 2 ^ 64 ∧
      ¬ s.rolls (Batch.size ⟨unixMilli now, records⟩) ∧ Batch.Readable ⟨unixMilli now, records⟩ ∧
      (s.Takes ⟨unixMilli now, records⟩ → Batch.size ⟨unixMilli now, records⟩ < 2 ^ 31)))
  | ⟨.openStore _, _⟩ | ⟨.read _ _, _⟩ | ⟨.applyRetention _ _ _, _⟩ | ⟨.closeStore, _⟩ =>
    inferInstanceAs (Decidable False)

/-- The acknowledged batches are the journal, and no power loss can take one of them. -/
inductive SyncState (config : Config) (J : Journal) : Partition → Prop where
  | running {s : Store} {d : Directory} :
      Represents config.maxBatchBytes J s d → s.config = config → Anchored J d →
      SyncState config J ⟨some s, d⟩
  | broken {s : Store} {d : Directory} : s.writeFailed = true → Covered config.maxBatchBytes J d →
      SyncState config J ⟨some s, d⟩
  | stopped {d : Directory} : Covered config.maxBatchBytes J d → SyncState config J ⟨none, d⟩

section Runs

variable {config : Config} {J : Journal} {s s' : Store} {d d' : Directory} {p : Partition}
  {b : Batch} {step : Step}

theorem SyncState.covered (state : SyncState config J p) (readable : ∀ b ∈ J.batches, b.Readable) :
    Covered config.maxBatchBytes J p.directory := by
  cases state with
  | running represents _ anchored =>
    exact anchored.covered (Secures.refl _) (SameSynced.refl _).reflushed
      (represents.laid (le_refl _)) readable
  | broken _ covered => exact covered
  | stopped covered => exact covered

/-- After a flush in sync mode the longer journal is anchored. -/
theorem Anchored.extend (anchored : Anchored J d) (secures : Secures d d')
    (reflushed : Reflushed d d') (after : Represents config.maxBatchBytes (J.extend b) s' d')
    (flushed : ∃ log, d'.file? (.log J.activeBase) = some log ∧ log.synced = log.data) :
    Anchored (J.extend b) d' := by
  have members : ∀ e ∈ (J.extend b).extents, e ∈ J.closedExtents ∨ e = J.activeExtent.extend b :=
    fun e member => (List.mem_append.mp member).imp id List.mem_singleton.mp
  refine ⟨?_, ?_, ?_⟩
  · intro e member
    rw [secures.names]
    rcases members e member with closed | rfl
    · exact anchored.names e (List.mem_append_left _ closed)
    · exact anchored.names J.activeExtent J.active_mem
  · intro e member
    obtain ⟨_, _, mirrors⟩ := mem_mirrored after.segments member
    obtain ⟨file', found', data'⟩ := mirrors.log
    refine ⟨file', found', ?_, data'⟩
    rcases members e member with closed | rfl
    · obtain ⟨file, found, synced, data⟩ := anchored.logs e (List.mem_append_left _ closed)
      obtain ⟨other, same, grows, inside⟩ :=
        secures.log e.base file found (synced.trans data.symm ▸ List.prefix_refl _)
      rw [found', Option.some.injEq] at same
      subst same
      rw [synced] at grows
      rw [data'] at inside
      exact inside.eq_of_length_le grows.length_le
    · obtain ⟨log, found, synced⟩ := flushed
      rw [show d'.file? (.log J.activeBase) = some file' from found', Option.some.injEq] at found
      rw [found, synced, ← found, data']
  · intro e member file' found'
    obtain ⟨_, _, mirrors⟩ := mem_mirrored after.segments member
    obtain ⟨index, entries, foundIndex, holds, _⟩ := mirrors.index
    rw [found', Option.some.injEq] at foundIndex
    subst foundIndex
    obtain ⟨file, found, synced | synced⟩ := reflushed _ file' found'
    · rw [synced]
      rcases members e member with closed | rfl
      · exact anchored.indexes e (List.mem_append_left _ closed) file found
      · exact (anchored.indexes _ J.active_mem file found).extend
    · rw [synced]
      exact ⟨entries, holds⟩

/-- What an append leaves, whatever goes wrong in it. -/
theorem meets_append_sync {now : Instant} (represents : Represents config.maxBatchBytes J s d)
    (settings : s.config = config) (sync : config.flushMode = .sync) (anchored : Anchored J d)
    (readable : ∀ b ∈ J.batches, b.Readable) (stamp : b.time = unixMilli now)
    (room : J.logEnd + b.records.length < 2 ^ 64) (stays : ¬ s.rolls b.size)
    (batch : b.Readable) (fits : s.Takes b → b.size < 2 ^ 31) :
    Meets anything (append now b.records) s d
      ⟨fun value s' d' =>
        value = (J.logEnd, J.logEnd + b.records.length - 1) ∧
          SyncState config (J.extend b) ⟨some s', d'⟩,
       fun _ s' d' => SyncState config J ⟨some s', d'⟩,
       fun d' => SyncState config J ⟨none, d'⟩⟩ := by
  have remains : ¬ J.Rolls s.config.segmentMaxBytes b.size := by
    unfold Store.rolls at stays
    rwa [represents.activeSize] at stays
  have pushed : J.push s.config.segmentMaxBytes b = J.extend b := if_neg remains
  -- the log the store has open does not vanish, so the directory is never that of a new partition
  have laidOf : ∀ {J' : Journal} {d' : Directory}, Holds (crashPolicy config.maxBatchBytes) J' d' →
      Secures d d' →
      Laid (crashPolicy config.maxBatchBytes) J' d' := by
    intro J' d' holds secures
    refine holds.resolve_right ?_
    rintro ⟨_, fresh⟩
    obtain ⟨file, found, synced, data⟩ := anchored.logs _ J.active_mem
    obtain ⟨file', found', _⟩ :=
      secures.log _ file found (synced.trans data.symm ▸ List.prefix_refl _)
    rw [(fresh _).1] at found'
    cases found'
  have covered : ∀ {J' : Journal} {d' : Directory}, J.Reaches s.config.segmentMaxBytes b J' →
      Holds (crashPolicy config.maxBatchBytes) J' d' →
        Secures d d' → Reflushed d d' → Covered config.maxBatchBytes J d' := by
    intro J' d' reaches holds secures reflushed
    have laid := laidOf holds secures
    cases reaches with
    | same => exact anchored.covered secures reflushed laid readable
    | rolled rolls => exact absurd rolls remains
    | pushed =>
      rw [pushed] at laid
      exact anchored.covered_extend secures reflushed represents.valid laid readable batch
  have exits : Meets anything (append now b.records) s d
      ⟨fun value s' d' => Reflushed d d' →
        value = (J.logEnd, J.logEnd + b.records.length - 1) ∧
          SyncState config (J.extend b) ⟨some s', d'⟩,
       fun _ s' d' => Reflushed d d' → SyncState config J ⟨some s', d'⟩,
       fun d' => Reflushed d d' → SyncState config J ⟨none, d'⟩⟩ := by
    refine meets_append (P := crashPolicy config.maxBatchBytes) represents (le_refl _)
      (fun _ _ _ torn => torn) (fun takes => ⟨by rw [← settings]; exact takes.2.2.2, fits takes⟩)
      stamp room ?_ ?_ ?_ ?_ ?_
    · exact fun _ _ _ => .running represents settings anchored
    · exact fun _ _ _ _ =>
        .broken rfl (anchored.covered (Secures.refl _) (SameSynced.refl _).reflushed
        (represents.laid (le_refl _)) readable)
    · intro _ _ _ _ s' d' after keeps secured reflushed
      obtain ⟨secures, flushed⟩ := secured remains
      rw [pushed] at after
      exact ⟨rfl, .running after (keeps.config.trans settings)
        (anchored.extend secures reflushed after (flushed (by rw [settings, sync])))⟩
    · exact fun _ _ _ _ _ _ reaches poisoned secured reflushed =>
        .broken poisoned.writeFailed (covered reaches poisoned.disk (secured remains) reflushed)
    · exact fun _ _ _ _ reaches holds secured reflushed =>
        .stopped (covered reaches holds (secured remains) reflushed)
  exact (exits.both (meets_append_reflushed stamp stays)).mono (fun _ _ _ both => both.1 both.2)
    (fun _ _ _ both => both.1 both.2) fun _ both => both.1 both.2

def SyncPast (config : Config) (J : Journal) (past : List Event) (p : Partition) : Prop :=
  ∃ K, SyncState config K p ∧
    K.floor = J.floor ∧ K.records = J.records ++ acknowledged past ∧ ∀ b ∈ K.batches, b.Readable

theorem Journal.extend_records (J : Journal) (b : Batch) :
    (J.extend b).records = J.records ++ b.stored J.logEnd := by
  rw [Journal.records, J.extend_batches, storedFrom_append]
  simp [Journal.records, Journal.extend, Journal.logEnd, storedFrom, spread]

theorem SyncState.appends {now : Instant} (state : SyncState config J ⟨some s, d⟩)
    (sync : config.flushMode = .sync) (readable : ∀ b ∈ J.batches, b.Readable)
    (stamp : b.time = unixMilli now) (room : s.logEndOffset + b.records.length < 2 ^ 64)
    (stays : ¬ s.rolls b.size) (batch : b.Readable) (fits : s.Takes b → b.size < 2 ^ 31) :
    Meets anything (append now b.records) s d
      ⟨fun value s' d' =>
        value = (J.logEnd, J.logEnd + b.records.length - 1) ∧
          SyncState config (J.extend b) ⟨some s', d'⟩,
       fun _ s' d' => SyncState config J ⟨some s', d'⟩,
       fun d' => SyncState config J ⟨none, d'⟩⟩ := by
  cases state with
  | running represents settings anchored =>
    rw [represents.logEndOffset] at room
    exact meets_append_sync represents settings sync anchored readable stamp room stays batch fits
  | broken poisoned covered =>
    exact meets_append_refused poisoned fun _ _ => .broken poisoned covered

theorem SyncPast.next {past : List Event} (sync : config.flushMode = .sync)
    (state : SyncPast config J past p) (call : SyncCall past p step) :
    SyncPast config J (past ++ [happen Partition.perform p step]) (p.perform step).2 := by
  obtain ⟨K, state, floor, records, readable⟩ := state
  obtain ⟨action, faults⟩ := step
  obtain ⟨now, batch, rfl⟩ : ∃ now batch, action = .append now batch := by
    cases action with
    | append now batch => exact ⟨now, batch, rfl⟩
    | _ => exact absurd call id
  obtain ⟨store, d⟩ := p
  cases store with
  | none =>
    exact ⟨K, state,
      floor, by rw [acknowledged_append, records]; simp [acknowledgedBy, happen, Partition.perform],
      readable⟩
  | some s =>
    obtain ⟨room, stays, stamp, fits⟩ := call s rfl
    have exits := state.appends (b := ⟨unixMilli now, batch⟩) sync readable rfl room stays stamp
      fits
    -- only an acknowledged append adds to the journal
    have silent : ∀ outcome p', (∀ base last, outcome ≠ .appended base last) →
        SyncState config K p' →
        SyncPast config J (past ++ [⟨⟨some s, d⟩, ⟨.append now batch, faults⟩, outcome, p'⟩])
          p' := by
      intro outcome p' unacknowledged after
      refine ⟨K, after, floor, ?_, readable⟩
      rw [acknowledged_append, records]
      cases outcome with
      | appended base last => exact absurd rfl (unacknowledged base last)
      | _ => simp [acknowledgedBy]
    refine settled
      (fun outcome p' =>
        SyncPast config J (past ++ [⟨⟨some s, d⟩, ⟨.append now batch, faults⟩, outcome, p'⟩]) p')
      (fun _ _ => trivial)
      (exits.mono ?_ (fun reason s' d' after => silent _ _ (by simp) after) fun d' after =>
        silent _ _ (by simp) after)
    rintro _ s' d' ⟨rfl, after⟩
    refine ⟨K.extend ⟨unixMilli now, batch⟩, after, floor, ?_, ?_⟩
    · rw [acknowledged_append, K.extend_records, records, List.append_assoc]
      rfl
    · rw [K.extend_batches]
      exact List.forall_mem_append.mpr ⟨readable, List.forall_mem_singleton.mpr stamp⟩

/-- A process that opens what a journal's directory holds finds every record of the journal. -/
theorem Laid.exposes {P : Policy} {r : StoredRecord} (laid : Laid P J d)
    (limit : P.limit ≤ config.maxBatchBytes) (readable : ∀ b ∈ J.batches, b.Readable)
    (member : r ∈ J.records) :
    (reopened config d).1 = .opened ∧ Exposes (reopened config d).2 r := by
  obtain ⟨s, d', opened, represents, _, running⟩ := Holds.opens (Or.inl laid) limit readable
  obtain ⟨i, inside, rfl⟩ := List.getElem_of_mem member
  have offset := laid.valid.consecutive i _ (List.getElem?_eq_getElem inside)
  have length := J.records_length
  rw [show reopened config d = (.opened, ⟨some s, d'⟩) from opened]
  refine ⟨rfl, fun maxBytes positive => ?_⟩
  have found := represents.read_finds running readable positive
    (show J.floor ≤ J.records[i].offset by omega) (show J.records[i].offset ≤ J.logEnd by omega)
  rw [offset, Nat.add_sub_cancel_left, List.drop_eq_getElem_cons inside, greedy] at found
  rw [offset]
  exact ⟨_, found⟩

/-- A process that has opened a directory has the journal in memory, and can decode all of it. -/
theorem Laid.opened {P : Policy} (laid : Laid P J d) (limit : P.limit ≤ config.maxBatchBytes)
    (opened : (reopened config d).1 = .opened) :
    ∃ s d', reopened config d = (.opened, ⟨some s, d'⟩) ∧
      Represents P.limit J s d' ∧ s.config = config ∧
      ∀ b ∈ J.batches, b.Readable := by
  have readable := laid.readable limit opened
  obtain ⟨s, d', ran, represents, settings, _⟩ := Holds.opens (Or.inl laid) limit readable
  exact ⟨s, d', ran, represents, settings, readable⟩

theorem Represents.anchored {limit : Int} (represents : Represents limit J s d)
    (durable : Durable d) : Anchored J d := by
  refine ⟨?_, ?_, ?_⟩
  · intro e member
    obtain ⟨_, _, mirrors⟩ := mem_mirrored represents.segments member
    obtain ⟨file, found, _⟩ := mirrors.log
    exact (durable _ file found).1
  · intro e member
    obtain ⟨_, _, mirrors⟩ := mem_mirrored represents.segments member
    obtain ⟨file, found, data⟩ := mirrors.log
    exact ⟨file, found, (durable _ file found).2.trans data, data⟩
  · intro e member file found
    obtain ⟨_, _, mirrors⟩ := mem_mirrored represents.segments member
    obtain ⟨index, entries, foundIndex, holds, _⟩ := mirrors.index
    rw [found, Option.some.injEq] at foundIndex
    rw [(durable _ file found).2, foundIndex]
    exact ⟨entries, holds⟩

/-- No power loss takes an acknowledged record from a partition that has not rolled over since it
    was durable. -/
theorem sync_survives {past : List Event} (laid : Laid (crashPolicy config.maxBatchBytes) J d)
    (sync : config.flushMode = .sync) (opened : (reopened config d).1 = .opened)
    (durable : Durable (reopened config d).2.directory)
    (run : Run Partition.perform SyncCall (reopened config d).2 past p)
    (lost : PowerLoss p.directory d') :
    (reopened config d').1 = .opened ∧
      ∀ r ∈ J.records ++ acknowledged past, Exposes (reopened config d').2 r := by
  obtain ⟨s, d₁, ran, represents, settings, readable⟩ := laid.opened (le_refl _) opened
  rw [ran] at run durable
  have first : SyncPast config J [] ⟨some s, d₁⟩ :=
    ⟨J, .running represents settings (represents.anchored durable), rfl, by simp [acknowledged],
      readable⟩
  obtain ⟨K, state, floor, records, readable'⟩ :=
    run.invariant first fun _ _ _ state call => state.next sync call
  obtain ⟨J', kept, floor', ⟨more, batches⟩, decodable⟩ := state.covered readable' d' lost
  obtain ⟨s', d'', reopens, _⟩ := Holds.opens (Or.inl kept) (le_refl _) decodable
  refine ⟨congrArg Prod.fst reopens, fun r member => (kept.exposes (le_refl _) decodable ?_).2⟩
  rw [Journal.records, ← batches, storedFrom_append, floor', ← Journal.records, records]
  exact List.mem_append_left _ member

def firstSegment : Directory :=
  ((⟨true, ∅, [.log 0, .index 0]⟩ : Directory).touch (.log 0)).touch (.index 0)

theorem firstSegment_laid {P : Policy} : Laid P Journal.initial firstSegment := by
  have fresh : Fresh ⟨true, ∅, [.log 0, .index 0]⟩ := fun _ => ⟨rfl, fun _ found => by cases found⟩
  refine (fresh.touched (P := P) .both).resolve_right ?_
  rintro ⟨_, still⟩
  have missing := (still 0).1
  rw [file?_touch_other (by simp), file?_touch_missing rfl] at missing
  cases missing

/-- The second append dies while it writes, and only what was synced is left. -/
theorem sync_survives_death :
    let config : Config := ⟨1000, 1000, 10, .sync⟩
    let history := execute Partition.perform [] (reopened config firstSegment).2
      [⟨.append 5000000 [⟨none, some [97], [], 0⟩], []⟩,
        ⟨.append 6000000 [⟨none, some [98], [], 0⟩], [.die 20]⟩]
    acknowledged history.1 = [⟨0, 5, none, some [97], []⟩] ∧
      (reopened config history.2.directory.crash).1 = .opened ∧
      ∀ r ∈ acknowledged history.1, Exposes (reopened config history.2.directory.crash).2 r := by
  intro config history
  have run : Run Partition.perform SyncCall (reopened config firstSegment).2 history.1 history.2 :=
    run_execute .start (by decide +kernel)
  have laid : Laid (crashPolicy config.maxBatchBytes) Journal.initial firstSegment :=
    firstSegment_laid
  have survives :=
    sync_survives laid rfl (by decide +kernel) (by decide +kernel) run (powerLoss_crash _)
  exact ⟨by decide +kernel, survives.1,
    fun r member => survives.2 r (List.mem_append_right _ member)⟩

/-- The second append rolls over. Its segment's name was never made durable, so the acknowledged
    record goes with the power. -/
theorem rollover_forgotten :
    let config : Config := ⟨60, 1000, 10, .sync⟩
    let history := execute Partition.perform [] (reopened config firstSegment).2
      [⟨.append 5000000 [⟨none, some [97], [], 0⟩], []⟩,
        ⟨.append 6000000 [⟨none, some [98], [], 0⟩], []⟩]
    (reopened config firstSegment).1 = .opened ∧
      Durable (reopened config firstSegment).2.directory ∧
      acknowledged history.1 = [⟨0, 5, none, some [97], []⟩, ⟨1, 6, none, some [98], []⟩] ∧
      PowerLoss history.2.directory history.2.directory.crash ∧
      (reopened config history.2.directory.crash).1 = .opened ∧
      ((reopened config history.2.directory.crash).2.perform ⟨.read 1 1000, []⟩).1 = .found [] :=
  ⟨by decide +kernel, by decide +kernel, by decide +kernel, powerLoss_crash _, by decide +kernel,
    by decide +kernel⟩

end Runs

end MessageBroker.Storage
