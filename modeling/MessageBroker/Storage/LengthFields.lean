import MessageBroker.Configuration
import MessageBroker.Storage.DecodeSound
import MessageBroker.Storage.RecoveryScan
import MessageBroker.Storage.Session

namespace MessageBroker.Storage

open Faulty Program BigEndian MessageBroker.Configuration

/-! ## The batches that can be read back -/

section Batches

variable {b : Batch} {base : Nat}

theorem Batch.timestamp_field (placed : b.Placed base) :
    int64 (get (((b.bytes base).drop 25).take 8) : Nat) = max 0 b.time := by
  obtain ⟨maxTimestamp, frame, largest, _, _⟩ := b.bytes_frame placed
  have range := placed.time
  have bodyAt : Occurs (b.bytes base) 13 (batchBody base maxTimestamp (b.stored base)) := by
    rw [frame, ← List.append_nil (frameBatch _ _)]
    exact frame_body
  have timestampAt := bodyAt.left_part.right_part
  simp only [List.length_append, put_length, Nat.reduceAdd] at timestampAt
  have field := timestampAt.extract
  rw [put_length] at field
  rw [field, get_put_eight (uint64_lt _), int64_uint64, largest, Batch.maxTimestamp_eq placed,
    int64_of_range (by omega) (by omega)]

/-- Only a batch that the fields can hold decodes to its records. -/
theorem Batch.exact_of_decode (placed : b.Placed base)
    (decoded : decodeBatch (b.bytes base) = .ok (b.stored base)) :
    b.Exact := by
  obtain ⟨fits, filled⟩ := decodeBatch_sound decoded (b.stored_ne_nil placed)
  have whole := b.payload_eq placed
  have declared := declaredSize_lt (b.bytes base)
  have stored : ∀ (i : Nat) (r : Record),
      b.records[i]? = some r →
        ⟨uint64 (base + i), b.time, r.key, r.value, r.headers⟩ ∈ b.stored base :=
    fun i r found => List.mem_of_getElem? (Batch.stored_get found)
  refine ⟨?_, by omega, ?_⟩
  · intro least
    obtain ⟨r, rest, records⟩ := List.exists_cons_of_ne_nil placed.someRecord
    have delta := (fits _ (stored 0 r (by rw [records]; rfl))).timestampDelta
    rw [b.timestamp_field placed, least] at delta
    exact absurd (show 0 ≤ int64 (max 0 (-2 ^ 63) - -2 ^ 63) from delta) (by decide)
  · intro r member
    obtain ⟨i, inside, found⟩ := List.getElem_of_mem member
    have kept := fits _ (stored i r (by rw [List.getElem?_eq_getElem inside, found]))
    exact ⟨kept.key, kept.value⟩

/-- The decoder gives the appended records back, and recovery takes the batch wherever it is in a
    log. -/
structure ReadBack (maxBatchBytes : Int) (b : Batch) (base : Nat) (bytes : Bytes) : Prop where
  decoded : decodeBatch bytes = .ok (b.stored base)
  recovered : ∀ log position, Occurs log position bytes →
    scanRound maxBatchBytes log position base = .batch (b.stored base) bytes.length

theorem readBack_iff {maxBatchBytes : Int} (placed : b.Placed base)
    (limit : (b.size : Int) ≤ maxBatchBytes) :
    ReadBack maxBatchBytes b base (b.bytes base) ↔ b.Exact := by
  refine ⟨fun readBack => b.exact_of_decode placed readBack.decoded,
    fun precise => ⟨b.decode_exact placed precise, ?_⟩⟩
  intro log position occurs
  rw [scanRound_occurs occurs placed precise.size limit, acceptedBatch_exact placed precise,
    (b.encode_stored base placed.someRecord).2]

end Batches

/-! ## The bytes an append writes -/

section Writes

variable {s : Store} {d : Directory}

def Wrote (baseOffset : Nat) (bytes : Bytes) (d : Directory) : Prop :=
  ∃ file position, d.file? (.log baseOffset) = some file ∧ Occurs file.data position bytes

theorem Wrote.sameBut {baseOffset : Nat} {bytes : Bytes} {name : FileName} {d' : Directory}
    (wrote : Wrote baseOffset bytes d) (same : SameBut name d d') (other : .log baseOffset ≠ name) :
    Wrote baseOffset bytes d' := by
  obtain ⟨file, position, found, occurs⟩ := wrote
  exact ⟨file, position, by rw [same _ other, found], occurs⟩

theorem Wrote.synced {baseOffset : Nat} {bytes : Bytes} (wrote : Wrote baseOffset bytes d)
    (name : FileName) {file : File} (found : d.file? name = some file) :
    Wrote baseOffset bytes (d.put name { file with synced := file.data }) := by
  by_cases same : .log baseOffset = name
  · subst same
    obtain ⟨known, position, there, occurs⟩ := wrote
    rw [found, Option.some.injEq] at there
    subst there
    exact ⟨_, position, file?_put_self, occurs⟩
  · exact wrote.sameBut sameBut_put same

theorem overwrite_occurs (data bytes : Bytes) (position : Nat) :
    Occurs (overwrite data position bytes) position bytes := by
  refine ⟨(data ++ List.replicate (position - data.length) 0).take position,
    _, by rw [overwrite, List.append_assoc], ?_⟩
  rw [List.length_take, List.length_append, List.length_replicate]
  omega

theorem meets_writeAt_any {μ : Type} {m : μ} {name : FileName} {position : Nat} {bytes : Bytes}
    {post : Post μ Directory StoreError Unit}
    (returns : ∀ file, d.file? name = some file →
      post.returns () m (d.put name { file with data := overwrite file.data position bytes }))
    (fails : ∀ reason d', SameBut name d d' → post.fails reason m d') (dies : ∀ d', post.dies d') :
    Meets (fun _ => True) (writeAt name position bytes) m d post := by
  have same : ∀ bytes, SameBut name d (writeFile name position bytes d) :=
    fun bytes other differs => file?_writeFile_other differs
  refine Meets.operate ?_ (fun _ _ => fails _ _ (same _)) (fun _ _ => dies _)
  cases found : d.file? name with
  | none => exact fails _ d (SameBut.refl name d)
  | some file =>
    have returned := returns file found
    rw [← writeFile_found found] at returned
    exact returned

theorem meets_sync_wrote {μ : Type} {m : μ} {baseOffset : Nat} {bytes : Bytes} {name : FileName}
    {post : Post μ Directory StoreError Unit} (wrote : Wrote baseOffset bytes d)
    (returns : ∀ d', Wrote baseOffset bytes d' → post.returns () m d')
    (fails : ∀ reason d', post.fails reason m d') (dies : ∀ d', post.dies d') :
    Meets (fun _ => True) (sync name) m d post := by
  refine meets_unitary ?_ (fun _ => fails _ _) (fun _ => dies _)
  cases found : d.file? name with
  | none => exact fails _ _
  | some file => exact returns _ (wrote.synced name found)

theorem active_path_kept {seg : Segment} (base : seg.baseOffset = s.active.baseOffset) :
    (s.setActive seg).active.baseOffset = s.active.baseOffset := by
  rcases Nat.lt_or_ge s.activeSegment s.segments.length with inside | outside
  · rw [show (s.setActive seg).active = seg by simp [Store.active, Store.setActive, inside]]
    exact base
  · simp [Store.active, Store.setActive, outside]

theorem meets_indexBatch_wrote {relative position : Nat} {bytes : Bytes}
    {post : Post Store Directory StoreError Unit} (wrote : Wrote s.active.baseOffset bytes d)
    (returns : ∀ s' d', s'.active.baseOffset = s.active.baseOffset →
      Wrote s.active.baseOffset bytes d' → post.returns () s' d')
    (dies : ∀ d', post.dies d') :
    Meets (fun _ => True) (indexBatch relative position) s d post := by
  unfold indexBatch
  apply Meets.bind
  apply Meets.memory
  dsimp only
  split_ifs
  · unfold Segment.appendIndexEntry
    apply Meets.bind
    apply Meets.bind
    apply Meets.attempt
    refine meets_writeAt_any ?_ ?_ dies
    · intro file found
      apply Meets.pure
      dsimp only
      apply Meets.modify
      exact returns _ _ (active_path_kept rfl)
        (wrote.sameBut sameBut_put (by simp [Segment.indexPath]))
    · intro reason d' same
      apply Meets.pure
      dsimp only
      apply Meets.modify
      exact returns _ _ (active_path_kept rfl) (wrote.sameBut same (by simp [Segment.indexPath]))
  · exact Meets.pure (returns s d rfl wrote)

theorem meets_flushActive_wrote {bytes : Bytes} {post : Post Store Directory StoreError Unit}
    (wrote : Wrote s.active.baseOffset bytes d)
    (returns : ∀ s' d', s'.active.baseOffset = s.active.baseOffset →
      Wrote s.active.baseOffset bytes d' → post.returns () s' d')
    (fails : ∀ reason s' d', post.fails reason s' d') (dies : ∀ d', post.dies d') :
    Meets (fun _ => True) flushActive s d post := by
  unfold flushActive
  apply Meets.bind
  apply Meets.memory
  apply Meets.bind
  unfold Segment.flush
  apply Meets.bind
  refine meets_sync_wrote wrote ?_ (fun _ _ => fails _ _ _) dies
  intro d' wrote'
  unfold Segment.flushIndex
  dsimp only
  split_ifs
  · apply Meets.bind
    refine meets_sync_wrote wrote' ?_ (fun _ _ => fails _ _ _) dies
    intro d'' wrote''
    apply Meets.pure
    dsimp only
    apply Meets.modify
    exact returns _ _ (active_path_kept rfl) wrote''
  · apply Meets.pure
    dsimp only
    apply Meets.modify
    exact returns _ _ (active_path_kept rfl) wrote'

theorem meets_writeEncoded_wrote {base count : Nat} {timestamp : Int} {encoded : Bytes}
    {post : Post Store Directory StoreError (Nat × Nat)}
    (returns : ∀ last s' d',
      Wrote s'.active.baseOffset encoded d' → post.returns (base, last) s' d')
    (fails : ∀ reason s' d', post.fails reason s' d') (dies : ∀ d', post.dies d') :
    Meets (fun _ => True) (writeEncoded base count timestamp encoded) s d post := by
  unfold writeEncoded
  apply Meets.bind
  apply Meets.memory
  dsimp only
  by_cases far : maxUint32 < uint64 (base - s.active.baseOffset)
  · rw [if_pos far]
    exact Meets.bind (Meets.modify (Meets.throw (fails _ _ _)))
  rw [if_neg far]
  apply Meets.bind
  apply Meets.onError
  unfold Segment.append
  apply Meets.bind
  have poisons : ∀ reason s' d', Meets (fun _ => True) poison s' d'
      ⟨fun _ => post.fails reason, fun _ => post.fails reason, post.dies⟩ :=
    fun reason s' d' => Meets.modify (fails reason _ _)
  refine meets_writeAt_any ?_ (fun reason d' _ => poisons reason s d') dies
  intro file found
  apply Meets.pure
  dsimp only
  apply Meets.bind
  apply Meets.modify
  generalize advanced : s.advance { s.active with size := s.active.size + encoded.length } base
    count timestamp = t
  have kept : t.active.baseOffset = s.active.baseOffset := by
    rw [← advanced]
    exact active_path_kept rfl
  have wrote : Wrote t.active.baseOffset encoded
      (d.put s.active.path { file with data := overwrite file.data s.active.size encoded }) := by
    rw [kept]
    exact ⟨_, s.active.size, file?_put_self, overwrite_occurs _ _ _⟩
  apply Meets.bind
  refine meets_indexBatch_wrote wrote ?_ dies
  intro s' d' kept' wrote'
  rw [← kept'] at wrote'
  dsimp only
  split_ifs
  · apply Meets.bind
    apply Meets.onError
    refine meets_flushActive_wrote wrote' ?_ poisons dies
    intro s'' d'' kept'' wrote''
    rw [← kept''] at wrote''
    exact Meets.pure (returns _ _ _ wrote'')
  · exact Meets.pure (returns _ _ _ wrote')

/-- What an acknowledged append has done, on whatever store and disk it was called. -/
theorem append_acknowledged {now : Instant} {records : List Record} {faults : List Fault}
    {base last : Nat} {after : World Store Directory}
    (ran : append now records ⟨s, d, faults⟩ = (.ok (base, last), after)) :
    base = s.logEndOffset ∧
      records ≠ [] ∧ (Batch.size ⟨unixMilli now, records⟩ : Int) ≤ s.config.maxBatchBytes ∧
      Wrote after.memory.active.baseOffset (Batch.bytes ⟨unixMilli now, records⟩ base)
        after.disk := by
  have meets : Meets (fun _ => True) (append now records) s d
      ⟨fun value s' d' => value.1 = s.logEndOffset ∧ records ≠ [] ∧
        (Batch.size ⟨unixMilli now, records⟩ : Int) ≤ s.config.maxBatchBytes ∧
        Wrote s'.active.baseOffset (Batch.bytes ⟨unixMilli now, records⟩ value.1) d',
       fun _ _ _ => True, fun _ => True⟩ := by
    unfold append
    by_cases empty : records = []
    · rw [if_pos empty]
      exact Meets.throw trivial
    rw [if_neg empty]
    apply Meets.bind
    apply Meets.memory
    dsimp only
    split_ifs
    · exact Meets.throw trivial
    · exact Meets.throw trivial
    obtain ⟨encoded, length⟩ := @Batch.encode_stored ⟨unixMilli now, records⟩ s.logEndOffset empty
    rw [Batch.stored] at encoded
    rw [encoded]
    dsimp only
    rw [length]
    split_ifs with large
    · exact Meets.throw trivial
    apply Meets.bind
    refine (Meets.any _ s d).mono (fun _ s' d' _ => ?_) (fun _ _ _ _ => trivial)
      (fun _ _ => trivial)
    refine meets_writeEncoded_wrote ?_ (fun _ _ _ => trivial) (fun _ => trivial)
    exact fun _ s'' d'' wrote => ⟨rfl, empty, not_lt.mp large, wrote⟩
  exact meets.returned (fun _ _ => trivial) ran

/-- What an append wrote can be read back exactly when the format's fields hold it. -/
theorem acknowledged_readBack {now : Instant} {records : List Record} {faults : List Fault}
    {base last : Nat} {after : World Store Directory} (offset : s.logEndOffset < 2 ^ 64)
    (ran : append now records ⟨s, d, faults⟩ = (.ok (base, last), after)) :
    let b : Batch := ⟨unixMilli now, records⟩
    ∃ bytes, Wrote after.memory.active.baseOffset bytes after.disk ∧ bytes = b.bytes base ∧
      (ReadBack s.config.maxBatchBytes b base bytes ↔ b.Exact) := by
  obtain ⟨rfl, someRecord, limit, wrote⟩ := append_acknowledged ran
  exact ⟨_, wrote, rfl, readBack_iff ⟨someRecord, int64_range _, offset⟩ limit⟩

end Writes

theorem first_append {records : List Record} {config : Config} (empty : records ≠ [])
    (mode : config.flushMode = .async)
    (limit : (Batch.size ⟨5, records⟩ : Int) ≤ config.maxBatchBytes) :
    (Partition.new.perform ⟨.openStore config, []⟩).2.perform ⟨.append 5000000 records, []⟩ =
      (.appended 0 (uint64 (0 + records.length - 1)),
        ⟨some ⟨config, false, false, [⟨0, uint64 ((uint64 (0 + records.length - 1) : Nat) + 1),
            0 + (Batch.bytes ⟨5, records⟩ 0).length, [⟨0, 0⟩], 0, 12, true, true, 5, false⟩], 0,
          uint64 ((uint64 (0 + records.length - 1) : Nat) + 1), 0⟩,
        writeFile (.index 0) 0 (IndexEntry.encode ⟨0, 0⟩)
          (writeFile (.log 0) 0 (Batch.bytes ⟨5, records⟩ 0)
          (((⟨true, ∅, []⟩ : Directory).touch (.log 0)).touch (.index 0)))⟩) := by
  obtain ⟨encoded, length⟩ := @Batch.encode_stored ⟨5, records⟩ 0 empty
  obtain ⟨segmentMaxBytes, maxBatchBytes, indexIntervalBytes, flushMode⟩ := config
  dsimp only at mode limit
  subst mode
  generalize opened : (⟨⟨segmentMaxBytes, maxBatchBytes, indexIntervalBytes, .async⟩, false, false,
    [⟨0, 0, 0, [], -1, 0, false, true, 0, false⟩], 0, 0, 0⟩ : Store) = s
  generalize files : ((⟨true, ∅, []⟩ : Directory).touch (.log 0)).touch (.index 0) = d
  have start : Partition.new.perform
      ⟨.openStore ⟨segmentMaxBytes, maxBatchBytes, indexIntervalBytes, .async⟩, []⟩ =
      (.opened, ⟨some s, d⟩) := by
    rw [← opened, ← files]
    rfl
  have accepted : append 5000000 records ⟨s, d, []⟩ =
      appendEncoded 0 records.length 5 (Batch.bytes ⟨5, records⟩ 0) ⟨s, d, []⟩ := by
    rw [append, if_neg empty, ← opened]
    change Program.bind Program.memory _ _ = _
    unfold Program.bind Program.memory
    dsimp only
    rw [if_neg (by simp), if_neg (by simp),
      show encodeBatch (stampRecords 0 (unixMilli 5000000) records) = _ from encoded]
    dsimp only
    rw [length, if_neg (not_lt.mpr limit)]
    rfl
  rw [start]
  show settle _ (append 5000000 records ⟨s, d, []⟩) = _
  rw [accepted, ← opened, ← files]
  rfl

theorem single_placed (value : Bytes) : Batch.Placed ⟨5, [⟨none, some value, [], 0⟩]⟩ 0 :=
  ⟨by simp, (by decide : (-2 ^ 63 : Int) ≤ 5 ∧ (5 : Int) < 2 ^ 63), by decide⟩

theorem single_size (value : Bytes) :
    Batch.size ⟨5, [⟨none, some value, [], 0⟩]⟩ = 57 + value.length := by
  have whole := Batch.payload_eq (single_placed value)
  simp only [Batch.stored, stampRecords, List.mapIdx_cons, List.mapIdx_nil, List.map_cons,
    List.map_nil, List.sum_cons, List.sum_nil, recordPayloadSize, minimumRecordSize,
    optionalLength] at whole
  omega

theorem single_lost {value : Bytes} {config : Config} (mode : config.flushMode = .async)
    (large : 2 ^ 31 ≤ value.length) (limit : (57 + value.length : Nat) ≤ config.maxBatchBytes) :
    ((Partition.new.perform ⟨.openStore config, []⟩).2.perform
      ⟨.append 5000000 [⟨none, some value, [], 0⟩], []⟩).1 =
        .appended 0 0 ∧
      ¬ ReadBack config.maxBatchBytes ⟨5, [⟨none, some value, [], 0⟩]⟩ 0
        (Batch.bytes ⟨5, [⟨none, some value, [], 0⟩]⟩ 0) := by
  rw [← single_size] at limit
  refine ⟨congrArg Prod.fst (first_append (by simp) mode limit), fun readBack => ?_⟩
  have lengths :=
    ((readBack_iff (single_placed value) limit).mp readBack).lengths _ (List.mem_singleton_self _)
  exact absurd lengths.2 (not_lt.mpr large)

/-- A value of 2 GiB, which the limits allow: its length is negative to the decoder. -/
theorem large_value_lost :
    loadStorage ⟨"./data", 2 ^ 32, 2 ^ 32, 2 ^ 32, 4096, "async"⟩ =
      .ok ⟨2 ^ 32, 2 ^ 32, 4096, .async⟩ ∧
      ((Partition.new.perform ⟨.openStore ⟨2 ^ 32, 2 ^ 32, 4096, .async⟩, []⟩).2.perform
        ⟨.append 5000000 [⟨none, some (List.replicate (2 ^ 31) 0), [], 0⟩], []⟩).1 = .appended 0 0 ∧
      ¬ ReadBack (2 ^ 32) ⟨5, [⟨none, some (List.replicate (2 ^ 31) 0), [], 0⟩]⟩ 0
        (Batch.bytes ⟨5, [⟨none, some (List.replicate (2 ^ 31) 0), [], 0⟩]⟩ 0) :=
  ⟨by decide +kernel, @single_lost (List.replicate (2 ^ 31) 0) ⟨2 ^ 32, 2 ^ 32, 4096, .async⟩ rfl
    (by rw [List.length_replicate]) (by rw [List.length_replicate]; decide)⟩

/-- The first append of a run, with a key, a nil value and a header. -/
theorem acknowledged_readBack_first :
    let s : Store :=
      ⟨⟨1000, 1000, 10, .sync⟩, false, false, [⟨0, 0, 0, [], -1, 0, false, true, 0, false⟩], 0, 0,
        0⟩
    let d := (Directory.empty.touch (.log 0)).touch (.index 0)
    let b : Batch := ⟨5, [⟨some [107], none, [⟨[104], [1]⟩], 0⟩]⟩
    ∃ bytes, Wrote 0 bytes (append 5000000 b.records ⟨s, d, []⟩).2.disk ∧
      bytes = b.bytes 0 ∧ ReadBack 1000 b 0 bytes := by
  intro s d b
  have ran : append 5000000 b.records ⟨s, d, []⟩ =
      (.ok (0, 0), (append 5000000 b.records ⟨s, d, []⟩).2) := by
    exact Prod.ext (by decide +kernel) rfl
  have active : (append 5000000 b.records ⟨s, d, []⟩).2.memory.active.baseOffset = 0 := by
    decide +kernel
  obtain ⟨bytes, wrote, same, iff⟩ := acknowledged_readBack (by decide) ran
  rw [active] at wrote
  exact ⟨bytes, wrote, same, iff.mpr ⟨by decide, by decide +kernel, by decide⟩⟩

end MessageBroker.Storage
