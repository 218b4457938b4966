import MessageBroker.Storage.Appending

namespace MessageBroker.Storage

open Faulty Program BigEndian

/-- What a power loss leaves of a log only ever grows, and the directory's durable names stay. -/
structure Secures (d d' : Directory) : Prop where
  names : d'.durableNames = d.durableNames
  log : ∀ base file, d.file? (.log base) = some file → file.synced <+: file.data →
    ∃ file', d'.file? (.log base) = some file' ∧
      file.synced <+: file'.synced ∧ file'.synced <+: file'.data

theorem Secures.refl (d : Directory) : Secures d d :=
  ⟨rfl, fun _ file found inside => ⟨file, found, List.prefix_refl _, inside⟩⟩

theorem Secures.trans {d d' d'' : Directory} (first : Secures d d') (second : Secures d' d'') :
    Secures d d'' := by
  refine ⟨second.names.trans first.names, ?_⟩
  intro base file found inside
  obtain ⟨file', found', grows, inside'⟩ := first.log base file found inside
  obtain ⟨file'', found'', grows', inside''⟩ := second.log base file' found' inside'
  exact ⟨file'', found'', grows.trans grows', inside''⟩

theorem Flushed.secures {d d' : Directory} (flushed : Flushed d d') : Secures d d' := by
  refine ⟨flushed.names, ?_⟩
  intro base file found inside
  obtain ⟨file', found', data, synced⟩ := flushed.files _ file found
  rcases synced with same | whole
  · exact ⟨file', found', same ▸ List.prefix_refl _, by rw [same, data]; exact inside⟩
  · exact ⟨file', found', by rw [whole]; exact inside, whole.trans data.symm ▸ List.prefix_refl _⟩

theorem secures_append {base : Nat} {d : Directory} {file : File} {more : Bytes}
    (found : d.file? (.log base) = some file) :
    Secures d (d.put (.log base) { file with data := file.data ++ more }) := by
  refine ⟨rfl, ?_⟩
  intro other file' found' inside
  by_cases same : other = base
  · subst same
    rw [found, Option.some.injEq] at found'
    subst found'
    exact ⟨_, file?_put_self, List.prefix_refl _, inside.trans (List.prefix_append _ _)⟩
  · exact ⟨file', by rw [file?_put_other (by simpa using same), found'], List.prefix_refl _, inside⟩

theorem secures_index {base : Nat} {d : Directory} {index : File} :
    Secures d (d.put (.index base) index) :=
  ⟨rfl, fun _ file found inside =>
    ⟨file, by rw [file?_put_other (by simp), found], List.prefix_refl _, inside⟩⟩

/-- Where writes may be torn, the policy has to know of torn tails. -/
def Policy.Tolerates (P : Policy) (allowed : Fault → Prop) : Prop :=
  Shaky allowed → ∀ e left, Torn P.limit left → P.tail e left

section Grown

variable {limit : Int} {J : Journal} {s : Store} {d d' : Directory} {P : Policy} {b : Batch}

theorem Represents.grown (represents : Represents limit J s d) (le : limit ≤ P.limit)
    (batch : b.Valid J.logEnd) (relative : span J.active ≤ maxUint32)
    (small : (b.size : Int) ≤ limit) (frame : Frame J.activeBase d d')
    (onDisk : OnDisk P.index (P.tail (J.activeExtent.extend b)) (J.activeExtent.extend b) d') :
    Laid P (J.extend b) d' := by
  have laid := represents.laid (P := P) le
  refine ⟨represents.valid.extend batch relative, ?_, ?_, onDisk, ?_, ?_⟩
  · intro other member
    rw [J.extend_batches] at member
    rcases List.mem_append.mp member with member | member
    · exact laid.limit other member
    · rw [List.mem_singleton.mp member]
      omega
  · intro e member
    exact (laid.closed e member).frame frame (Nat.ne_of_lt (represents.valid.closed_lt member))
  · intro base found
    by_cases same : base = J.activeBase
    · exact ⟨_, (J.extend b).active_mem, same.symm⟩
    · rw [(frame base same).1] at found
      obtain ⟨e, member, start⟩ := represents.only base found
      rcases List.mem_append.mp member with member | member
      · exact ⟨e, List.mem_append_left _ member, start⟩
      · rw [List.mem_singleton.mp member] at start
        exact absurd start.symm same
  · intro base above
    have beyond : J.activeBase < base := above
    rw [(frame base (by omega)).2]
    exact represents.above base beyond

theorem OnDisk.adopt {e : Extent} (onDisk : OnDisk IndexFile (· = []) e d) (valid : e.Valid) :
    OnDisk P.index (P.tail e) e d := by
  obtain ⟨file, left, found, content, nothing⟩ := onDisk.log
  refine ⟨⟨file, left, found, content, by rw [nothing]; exact P.tail_nil e⟩, ?_⟩
  intro index placed
  obtain ⟨entries, holds⟩ := onDisk.index index placed
  exact P.index_holds e entries _ valid holds

/-- The active segment between the write of a batch and the decision about its index entry. -/
structure Lags (e : Extent) (b : Batch) (seg : Segment) (d : Directory) : Prop where
  base : seg.baseOffset = e.base
  next : seg.nextOffset = (e.extend b).next
  size : seg.size = (e.extend b).bytes.length
  sound : e.Sound seg.indexEntries
  maxTimestamp : seg.maxTimestamp = (e.extend b).maxTimestamp
  log : ∃ file, d.file? (.log e.base) = some file ∧ file.data = (e.extend b).bytes
  index : ∃ file entries, d.file? (.index e.base) = some file ∧ IndexHolds e entries file.data ∧
    seg.indexSize = entries.length * 12

end Grown

section Writing

variable {allowed : Fault → Prop} {limit : Int} {J : Journal} {s : Store} {d : Directory}
  {P : Policy} {b : Batch}

/-- The batch gets an index entry or not; either way the active segment mirrors the longer
    extent. -/
theorem meets_indexBatch {init : List Segment} {seg : Segment} {e : Extent}
    {post : Post Store Directory StoreError Unit} (valid : e.Valid)
    (split : s.segments = init ++ [seg]) (place : s.activeSegment = init.length)
    (lags : Lags e b seg d)
    (returns : ∀ seg' d', Mirrors (e.extend b) seg' d' → Frame e.base d d' → Secures d d' →
      post.returns () { s with segments := init ++ [seg'] } d')
    (dies : Shaky allowed →
      ∀ d', OnDisk IndexFile (· = []) (e.extend b) d' → Frame e.base d d' → Secures d d' →
      post.dies d') :
    Meets allowed (indexBatch (span e.batches) e.bytes.length) s d post := by
  obtain ⟨file, found, content⟩ := lags.log
  obtain ⟨index, entries, foundIndex, holds, indexSize⟩ := lags.index
  have framed : ∀ index', Frame e.base d (d.put (.index e.base) index') :=
    fun index' other differs =>
    ⟨file?_put_other (by simp), file?_put_other (by simpa using differs)⟩
  unfold indexBatch
  apply Meets.bind
  apply Meets.memory
  dsimp only
  rw [Store.active_last split place]
  split_ifs with wanted
  · apply Meets.bind
    have path : seg.indexPath = .index e.base := by rw [Segment.indexPath, lags.base]
    refine meets_appendIndexEntry (e := e.extend b) (by rw [path, foundIndex])
      (holds.extend b) indexSize Extent.boundary_end ?_ ?_
    · intro size index' entries' holds' size'
      dsimp only
      rw [path]
      apply Meets.modify
      rw [Store.setActive_last _ split place]
      refine returns _ _ ?_ (framed index') secures_index
      refine ⟨lags.base, lags.next, lags.size, lags.sound.push valid.filled, lags.maxTimestamp, ?_,
        ?_⟩
      · refine ⟨file, ?_, content⟩
        rw [show (e.extend b).base = e.base from rfl, file?_put_other (by simp), found]
      · exact ⟨index', entries', file?_put_self, holds', size'⟩
    · intro shaky index' holds'
      rw [path]
      refine dies shaky _ ⟨⟨file, [], ?_, by rw [content, List.append_nil], rfl⟩, ?_⟩
        (framed index') secures_index
      · rw [show (e.extend b).base = e.base from rfl, file?_put_other (by simp), found]
      · intro other placed
        rw [show (e.extend b).base = e.base from rfl, file?_put_self, Option.some.injEq] at placed
        rw [← placed]
        exact holds'
  · have unchanged : { s with segments := init ++ [seg] } = s := by rw [← split]
    have kept := returns seg d ⟨lags.base, lags.next, lags.size,
      lags.sound.skip fun empty => wanted (Or.inl empty), lags.maxTimestamp, ⟨file, found, content⟩,
      ⟨index, entries, foundIndex, holds.extend b, indexSize⟩⟩ (Frame.refl _ _) (Secures.refl _)
    rw [unchanged] at kept
    exact Meets.pure kept

theorem Store.advance_last {init : List Segment} {seg : Segment} (written : Segment)
    (split : s.segments = init ++ [seg]) (place : s.activeSegment = init.length)
    (nonempty : b.records ≠ []) (offsets : J.logEnd + b.records.length < 2 ^ 64) :
    s.advance written J.logEnd b.records.length b.time =
      { s with
        segments := init ++ [{ written with
          maxTimestamp := max written.maxTimestamp b.time
          nextOffset := J.logEnd + b.records.length }]
        logEndOffset := J.logEnd + b.records.length } := by
  have positive : 0 < b.records.length := List.length_pos_iff.mpr nonempty
  have last : uint64 (J.logEnd + b.records.length - 1) = J.logEnd + b.records.length - 1 := by
    rw [show ((J.logEnd : Int) + b.records.length - 1) = (J.logEnd + b.records.length - 1 : Nat) by
      omega]
    exact uint64_of_nat (by omega)
  have next : uint64 ((J.logEnd + b.records.length - 1 : Nat) + 1) =
      J.logEnd + b.records.length := by
    rw [show (((J.logEnd + b.records.length - 1 : Nat) : Int) + 1) =
      (J.logEnd + b.records.length : Nat) by omega]
    exact uint64_of_nat (by omega)
  have larger : (if written.maxTimestamp < b.time then b.time else written.maxTimestamp) =
      max written.maxTimestamp b.time := by
    split_ifs <;> omega
  simp only [Store.advance, last, next, larger]
  rw [Store.setActive_last _ split place]

theorem frame_put_log {base : Nat} {file : File} : Frame base d (d.put (.log base) file) :=
  fun other differs => ⟨file?_put_other (by simpa using differs), file?_put_other (by simp)⟩

/-- A part of the batch behind the log is a torn tail, and all of it is one more batch. -/
theorem Represents.written {file : File} (written : Nat) (represents : Represents limit J s d)
    (le : limit ≤ P.limit) (tears : ∀ e left, Torn P.limit left → P.tail e left)
    (batch : b.Valid J.logEnd) (relative : span J.active ≤ maxUint32)
    (small : (b.size : Int) ≤ limit) (content : file.data = J.activeExtent.bytes) :
    (written < b.size → Laid P J
      (d.put (.log J.activeBase)
        { file with data := file.data ++ (b.bytes J.logEnd).take written })) ∧
    (b.size ≤ written → Laid P (J.extend b)
      (d.put (.log J.activeBase)
        { file with data := file.data ++ (b.bytes J.logEnd).take written })) := by
  have laid := represents.laid (P := P) le
  constructor
  · intro short
    refine laid.changeActive ⟨⟨_, _, file?_put_self, by rw [content], ?_⟩, ?_⟩ frame_put_log
    · rw [J.logEnd_eq] at batch ⊢
      exact tears _ _ (torn_take batch (by omega) short)
    · intro index placed
      rw [file?_put_other (by simp)] at placed
      exact laid.active.index index placed
  · intro whole
    have longer := (represents.valid.extend batch relative).extents _ (J.extend b).active_mem
    refine represents.grown le batch relative small frame_put_log
      ⟨⟨_, [], file?_put_self, ?_, P.tail_nil _⟩, ?_⟩
    · rw [List.take_of_length_le (by rw [b.bytes_length batch]; exact whole), Extent.extend_bytes,
        content, J.logEnd_eq, List.append_nil]
    · intro index placed
      rw [show (J.activeExtent.extend b).base = J.activeExtent.base from rfl,
        file?_put_other (by simp)] at placed
      obtain ⟨seg, _, mirrors⟩ := mem_mirrored represents.segments J.active_mem
      obtain ⟨index', entries, found', holds, _⟩ := mirrors.index
      rw [found', Option.some.injEq] at placed
      rw [← placed]
      exact P.index_holds _ entries _ longer (holds.extend b)

theorem Journal.distance (bound : J.logEnd < 2 ^ 64) :
    uint64 (J.logEnd - J.activeExtent.base) = span J.active := by
  rw [J.logEnd_eq] at bound ⊢
  rw [Extent.next] at bound ⊢
  rw [show (((J.activeExtent.base + span J.activeExtent.batches : Nat) :
    Int) - J.activeExtent.base) =
    (span J.active : Nat) by simp [Journal.activeExtent]]
  exact uint64_of_nat (by simp [Journal.activeExtent] at bound; omega)

/-- A batch's bytes go behind the active segment's log. Until they are all there the directory holds
    the journal as it was. -/
theorem meets_writeEncoded {post : Post Store Directory StoreError (Nat × Nat)}
    (represents : Represents limit J s d) (le : limit ≤ P.limit) (tolerates : P.Tolerates allowed)
    (batch : b.Valid J.logEnd) (small : (b.size : Int) ≤ limit)
    (returns : span J.active ≤ maxUint32 →
      ∀ s' d', Represents limit (J.extend b) s' d' → Keeps s s' → Secures d d' →
      (s.config.flushMode = .sync →
        ∃ log, d'.file? (.log J.activeBase) = some log ∧ log.synced = log.data) →
      post.returns (J.logEnd, J.logEnd + b.records.length - 1) s' d')
    (overflow : maxUint32 < span J.active →
      post.fails .indexOffsetOverflow { s with writeFailed := true } d)
    (fails : Shaky allowed →
      ∀ operation s' d', Poisoned P J s s' d' ∨ Poisoned P (J.extend b) s s' d' → Secures d d' →
      post.fails (.io operation) s' d')
    (dies : Shaky allowed →
      ∀ d', Laid P J d' ∨ Laid P (J.extend b) d' → Secures d d' → post.dies d') :
    Meets allowed (writeEncoded J.logEnd b.records.length b.time (b.bytes J.logEnd)) s d post := by
  obtain ⟨init, seg, split, place, closed, mirrors⟩ := represents.split
  have valid := represents.valid.extents _ J.active_mem
  have start : J.activeExtent.base = J.activeBase := rfl
  have distance : uint64 (J.logEnd - seg.baseOffset) = span J.active := by
    rw [mirrors.base]
    exact J.distance represents.valid.logEnd_lt
  unfold writeEncoded
  apply Meets.bind
  apply Meets.memory
  dsimp only
  rw [Store.active_last split place, distance]
  by_cases far : maxUint32 < span J.active
  · rw [if_pos far]
    apply Meets.bind
    apply meets_poison
    exact Meets.throw (overflow far)
  rw [if_neg far]
  have relative : span J.active ≤ maxUint32 := not_lt.mp far
  have longer := (represents.valid.extend batch relative).extents _ (J.extend b).active_mem
  have path : seg.path = .log J.activeBase := by rw [Segment.path, mirrors.base, start]
  obtain ⟨file, found, content⟩ := mirrors.log
  rw [start] at found
  have positive : 0 < b.records.length := List.length_pos_iff.mpr batch.someRecord
  have length := b.bytes_length batch
  apply Meets.bind
  apply Meets.onError
  refine meets_segmentAppend (by rw [path, found]) (by rw [mirrors.size, content]) ?_ ?_ ?_
  · have lags : Lags J.activeExtent b
        { seg with
          size := seg.size + (b.bytes J.logEnd).length
          maxTimestamp := max seg.maxTimestamp b.time, nextOffset := J.logEnd + b.records.length }
        (d.put (.log J.activeBase) { file with data := file.data ++ b.bytes J.logEnd }) := by
      obtain ⟨index, entries, foundIndex, holds, indexSize⟩ := mirrors.index
      refine ⟨mirrors.base, ?_, ?_, mirrors.sound, ?_, ⟨_, file?_put_self, ?_⟩,
        ⟨index, entries, ?_, holds, indexSize⟩⟩
      · rw [Extent.extend_next, J.logEnd_eq]
      · rw [Extent.extend_bytes, List.length_append, mirrors.size, J.logEnd_eq]
      · rw [Extent.extend_maxTimestamp, mirrors.maxTimestamp]
      · rw [Extent.extend_bytes, content, J.logEnd_eq]
      · rw [file?_put_other (by simp), foundIndex]
    dsimp only
    rw [path]
    apply Meets.bind
    apply Meets.modify
    rw [Store.advance_last _ split place batch.someRecord batch.offsets]
    apply Meets.bind
    rw [mirrors.size] at lags ⊢
    refine meets_indexBatch (e := J.activeExtent) valid rfl place lags ?_ ?_
    · intro seg' d' mirrors' frame secures
      have wrote := (secures_append found).trans secures
      have grown := represents.grown (P := P) le batch relative small (frame_put_log.trans frame)
        (mirrors'.onDisk longer (P.tail_nil _))
      have last : uint64 (J.logEnd + b.records.length - 1) = J.logEnd + b.records.length - 1 := by
        have offsets := batch.offsets
        rw [show ((J.logEnd : Int) + b.records.length - 1) =
          (J.logEnd + b.records.length - 1 : Nat) by omega]
        exact uint64_of_nat (by omega)
      have after : Represents limit (J.extend b)
          { s with segments := init ++ [seg'], logEndOffset := J.logEnd + b.records.length }
          d' := by
        refine Represents.join grown.valid ?_ rfl place ?_ mirrors' (J.extend_logEnd b).symm
          represents.earliestOffset grown.only grown.above
        · intro other member
          rw [J.extend_batches] at member
          rcases List.mem_append.mp member with member | member
          · exact represents.limit other member
          · rw [List.mem_singleton.mp member]
            exact small
        · exact mirrors_all closed fun e member _ known =>
            known.frame (frame_put_log.trans frame)
              (Nat.ne_of_lt (represents.valid.closed_lt member))
      dsimp only
      rw [last]
      by_cases sync : s.config.flushMode = .sync
      · rw [if_pos sync]
        apply Meets.bind
        apply Meets.onError
        refine meets_flushActive after ?_ ?_ ?_
        · intro s'' d'' after' keeps flushed synced
          exact Meets.pure
            (returns relative s'' d'' after' ⟨keeps.config, keeps.closed, keeps.writeFailed⟩
            (wrote.trans flushed.secures) fun _ => synced)
        · intro shaky d'' after' flushed
          apply meets_poison
          exact fails shaky _ _ d''
            (Or.inr ⟨rfl, rfl, rfl, after'.logEndOffset, after'.earliestOffset,
            Or.inl (after'.laid le)⟩) (wrote.trans flushed.secures)
        · exact fun shaky d'' after' flushed =>
            dies shaky d'' (Or.inr (after'.laid le)) (wrote.trans flushed.secures)
      · rw [if_neg sync]
        exact Meets.pure
          (returns relative _ d' after ⟨rfl, rfl, rfl⟩ wrote fun mode => absurd mode sync)
    · intro shaky d' onDisk frame secures
      refine dies shaky d' (Or.inr ?_) ((secures_append found).trans secures)
      exact represents.grown le batch relative small (frame_put_log.trans frame)
        (onDisk.adopt longer)
  · intro shaky written short
    have size := b.size_ge batch
    rw [length] at short
    rw [path]
    apply meets_poison
    refine fails shaky _ _ _
      (Or.inl ⟨rfl, rfl, rfl, represents.logEndOffset, represents.earliestOffset, Or.inl ?_⟩)
      (secures_append found)
    exact (represents.written written le (tolerates shaky) batch relative small content).1
      (by omega)
  · intro shaky written
    rw [path]
    refine dies shaky _ ?_ (secures_append found)
    have outcome := represents.written written le (tolerates shaky) batch relative small content
    exact (lt_or_ge written b.size).imp outcome.1 outcome.2

end Writing

/-! ## Append -/

inductive Refused (s : Store) (b : Batch) : StoreError → Prop where
  | empty : b.records = [] → Refused s b .emptyBatch
  | closed : s.closed = true → Refused s b .storeClosed
  | poisoned : s.writeFailed = true → Refused s b .storeCorrupt
  | tooLarge : s.config.maxBatchBytes < b.size → Refused s b .batchTooLarge

def Store.Takes (s : Store) (b : Batch) : Prop :=
  b.records ≠ [] ∧
    s.closed = false ∧ s.writeFailed = false ∧ (b.size : Int) ≤ s.config.maxBatchBytes

instance (s : Store) (b : Batch) : Decidable (s.Takes b) :=
  inferInstanceAs (Decidable (_ ∧ _ ∧ _ ∧ _))

theorem Refused.not_takes {s : Store} {b : Batch} {reason : StoreError}
    (refused : Refused s b reason) : ¬ s.Takes b := by
  rintro ⟨nonempty, closed, running, size⟩
  cases refused with
  | empty nothing => exact nonempty nothing
  | closed closed' => simp [closed] at closed'
  | poisoned failed => simp [running] at failed
  | tooLarge large => omega

/-- The journals a directory may hold while a batch is appended. -/
inductive Journal.Reaches (J : Journal) (segmentMaxBytes : Int) (b : Batch) : Journal → Prop where
  | same : Reaches J segmentMaxBytes b J
  | rolled : J.Rolls segmentMaxBytes b.size → Reaches J segmentMaxBytes b J.roll
  | pushed : Reaches J segmentMaxBytes b (J.push segmentMaxBytes b)

section Append

variable {allowed : Fault → Prop} {limit : Int} {J : Journal} {s : Store} {d : Directory}
  {P : Policy} {b : Batch}

/-- An accepted append pushes its batch to the journal. One that fails on the disk poisons the store
    and leaves all of the batch or nothing; one that is refused changes nothing. -/
theorem meets_append {now : Instant} {post : Post Store Directory StoreError (Nat × Nat)}
    (represents : Represents limit J s d) (le : limit ≤ P.limit) (tolerates : P.Tolerates allowed)
    (fits : s.Takes b → (b.size : Int) ≤ limit ∧ b.size < 2 ^ 31) (stamp : b.time = unixMilli now)
    (room : J.logEnd + b.records.length < 2 ^ 64)
    (refused : ∀ reason, Refused s b reason → post.fails reason s d)
    (overflow : s.Takes b → ¬ J.Rolls s.config.segmentMaxBytes b.size → maxUint32 < span J.active →
      post.fails .indexOffsetOverflow { s with writeFailed := true } d)
    (returns : b.records ≠ [] →
      s.closed = false → s.writeFailed = false → (b.size : Int) ≤ s.config.maxBatchBytes →
      ∀ s' d', Represents limit (J.push s.config.segmentMaxBytes b) s' d' → Keeps s s' →
      (¬ J.Rolls s.config.segmentMaxBytes b.size → Secures d d' ∧
        (s.config.flushMode = .sync →
          ∃ log, d'.file? (.log J.activeBase) = some log ∧ log.synced = log.data)) →
      post.returns (J.logEnd, J.logEnd + b.records.length - 1) s' d')
    (fails : s.writeFailed = false →
      Shaky allowed → ∀ operation J' s' d', J.Reaches s.config.segmentMaxBytes b J' →
      Poisoned P J' s s' d' → (¬ J.Rolls s.config.segmentMaxBytes b.size → Secures d d') →
        post.fails (.io operation) s' d')
    (dies : s.writeFailed = false →
      Shaky allowed → ∀ J' d', J.Reaches s.config.segmentMaxBytes b J' → Holds P J' d' →
      (¬ J.Rolls s.config.segmentMaxBytes b.size → Secures d d') → post.dies d') :
    Meets allowed (append now b.records) s d post := by
  unfold append
  by_cases empty : b.records = []
  · rw [if_pos empty]
    exact Meets.throw (refused _ (.empty empty))
  rw [if_neg empty]
  apply Meets.bind
  apply Meets.memory
  dsimp only
  split_ifs with closed poisoned
  · exact Meets.throw (refused _ (.closed closed))
  · exact Meets.throw (refused _ (.poisoned poisoned))
  have stamped : stampRecords s.logEndOffset (unixMilli now) b.records = b.stored J.logEnd := by
    rw [represents.logEndOffset, ← stamp, Batch.stored]
  obtain ⟨encoded, length⟩ := b.encode_stored J.logEnd empty
  rw [stamped, encoded]
  dsimp only
  split_ifs with large
  · rw [length] at large
    exact Meets.throw (refused _ (.tooLarge large))
  rw [length] at large
  have size : (b.size : Int) ≤ s.config.maxBatchBytes := not_lt.mp large
  have takes : s.Takes b := ⟨empty, by simpa using closed, by simpa using poisoned, size⟩
  obtain ⟨within, small⟩ := fits takes
  have batch : b.Valid J.logEnd := by
    refine ⟨empty, ?_, room, small⟩
    rw [stamp]
    exact int64_range _
  have running : s.writeFailed = false := by simpa using poisoned
  have accepted := returns empty (by simpa using closed) running size
  replace fails := fails running
  replace dies := dies running
  unfold appendEncoded
  rw [represents.logEndOffset, ← stamp, length]
  apply Meets.bind
  refine meets_rollSegment (P := P) represents le ?_ ?_ ?_ ?_
  · intro stays
    have pushed : J.push s.config.segmentMaxBytes b = J.extend b := if_neg stays
    rw [pushed] at accepted
    refine meets_writeEncoded represents le tolerates batch within ?_ (overflow takes stays) ?_ ?_
    · exact fun _ s' d' after keeps secures synced =>
        accepted s' d' after keeps fun _ => ⟨secures, synced⟩
    · intro shaky operation s' d' poisoned secures
      rcases poisoned with poisoned | poisoned
      · exact fails shaky operation J s' d' .same poisoned fun _ => secures
      · exact fails shaky operation _ s' d' (pushed ▸ .pushed) poisoned fun _ => secures
    · intro shaky d' laid secures
      rcases laid with laid | laid
      · exact dies shaky J d' .same (Or.inl laid) fun _ => secures
      · exact dies shaky _ d' (pushed ▸ .pushed) (Or.inl laid) fun _ => secures
  · intro rolls s' d' after keeps
    have pushed : J.push s.config.segmentMaxBytes b = J.roll.extend b := if_pos rolls
    have nothing : span J.roll.active = 0 := rfl
    rw [pushed] at accepted
    rw [← J.roll_logEnd] at batch accepted ⊢
    refine meets_writeEncoded after le tolerates batch within ?_ ?_ ?_ ?_
    · exact fun _ s'' d'' after' keeps' _ _ =>
        accepted s'' d'' after' (keeps.trans keeps') fun stays => absurd rolls stays
    · intro far
      rw [nothing] at far
      exact absurd far (Nat.not_lt_zero _)
    · intro shaky operation s'' d'' poisoned _
      rcases poisoned with poisoned | poisoned
      · exact fails shaky operation _ s'' d'' (.rolled rolls) (poisoned.after keeps)
          fun stays => absurd rolls stays
      · exact fails shaky operation _ s'' d'' (pushed ▸ .pushed) (poisoned.after keeps)
          fun stays => absurd rolls stays
    · intro shaky d'' laid _
      rcases laid with laid | laid
      · exact dies shaky _ d'' (.rolled rolls) (Or.inl laid) fun stays => absurd rolls stays
      · exact dies shaky _ d'' (pushed ▸ .pushed) (Or.inl laid) fun stays => absurd rolls stays
  · intro shaky rolls operation s' d' poisoned
    rcases poisoned with poisoned | poisoned
    · exact fails shaky operation J s' d' .same poisoned fun stays => absurd rolls stays
    · exact fails shaky operation _ s' d' (.rolled rolls) poisoned fun stays => absurd rolls stays
  · intro shaky rolls d' holds
    rcases holds with holds | holds
    · exact dies shaky J d' .same holds fun stays => absurd rolls stays
    · exact dies shaky _ d' (.rolled rolls) holds fun stays => absurd rolls stays

end Append

end MessageBroker.Storage
