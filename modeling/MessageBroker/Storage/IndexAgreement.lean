import MessageBroker.Storage.LengthFields
import MessageBroker.Storage.SampledAppend

namespace MessageBroker.Storage

open Faulty Program Runs BigEndian

/-! ## Three views of an index -/

/-- The entries in memory, those the index file decodes to and those a rebuild finds in the log are
    the same. `ReadIndexEntries` gives them too, if the file is within its limit. -/
structure IndexAgrees (interval : Int) (seg : Segment) (d : Directory) : Prop where
  decoded : ∃ file, d.file? seg.indexPath = some file ∧
    readEntries file.data (file.data.length / 12) 0 0 0 = .ok seg.indexEntries ∧
    (file.data.length ≤ 64 * 1024 * 1024 → ∃ after : World Unit Directory,
      seg.readIndexEntries ⟨(), d, []⟩ = (.ok seg.indexEntries, after))
  rebuilt : ∃ (seg' : Segment) (after : World Unit Directory),
    rebuildIndex interval seg seg.size ⟨(), d, []⟩ = (.ok seg', after) ∧
    seg'.indexEntries = seg.indexEntries ∧ seg'.lastIndexedPosition = seg.lastIndexedPosition

section IndexAgrees

variable {interval : Int} {e : Extent} {seg : Segment} {d : Directory} {tail : Bytes → Prop}

theorem Indexed.agrees (indexed : Indexed interval tail e seg d) (measured : e.Measured) :
    IndexAgrees interval seg d := by
  obtain ⟨file, left, found, content, _⟩ := indexed.log
  obtain ⟨index, foundIndex, entries⟩ := indexed.index
  have path : d.file? seg.path = some file := by rw [Segment.path, indexed.base, found]
  have indexPath : d.file? seg.indexPath = some index := by
    rw [Segment.indexPath, indexed.base, foundIndex]
  have size : seg.indexSize = index.data.length := by
    rw [indexed.indexSize, entries, encodeEntries_length]
  have decoded : readEntries index.data (index.data.length / 12) 0 0 0 = .ok seg.indexEntries := by
    rw [entries, indexed.entries]
    exact measured.decode_sampled interval
  refine ⟨⟨index, indexPath, decoded, ?_⟩, ?_⟩
  · intro small
    have parsed : parseIndex index.data = .ok seg.indexEntries := by
      have whole : index.data.length % 12 = 0 := by
        rw [entries, encodeEntries_length]
        omega
      unfold parseIndex
      by_cases empty : index.data.length = 0
      · rw [empty] at decoded
        rw [if_pos empty]
        exact decoded
      · rw [if_neg empty, if_neg (by omega), if_neg (by omega)]
        exact decoded
    have reads : Meets (fun _ => False) seg.readIndexEntries () d
        ⟨fun value _ _ => value = seg.indexEntries, fun _ _ _ => False, fun _ => False⟩ := by
      refine meets_readIndexEntries indexPath size ?_ (fun _ cause => unshaken (cause _ parsed))
        unshaken
      intro value same
      rw [parsed, Except.ok.injEq] at same
      exact same.symm
    obtain ⟨value, _, _, ran, rfl⟩ :=
      reads.succeeds (fun _ _ _ impossible => impossible) (fun _ impossible => impossible)
    exact ⟨_, ran⟩
  · have rebuilds : Meets (fun _ => False) (rebuildIndex interval seg seg.size) () d
        ⟨fun seg' _ _ =>
          seg'.indexEntries = seg.indexEntries ∧ seg'.lastIndexedPosition = seg.lastIndexedPosition,
         fun _ _ _ => False, fun _ => False⟩ := by
      rw [indexed.size]
      refine meets_rebuildIndex_sampled measured indexed.base path content ?_
      exact fun _ _ _ => ⟨indexed.entries.symm, (congrArg Prod.snd indexed.sampled).symm⟩
    obtain ⟨seg', _, _, ran, same⟩ :=
      rebuilds.succeeds (fun _ _ _ impossible => impossible) (fun _ impossible => impossible)
    exact ⟨seg', _, ran, same⟩

end IndexAgrees

/-! ## Runs -/

/-- The next call of a run under one interval: an append whose batch the length field can count and
    whose index entry, if it comes to that, is written, a read, or the end and the start of a
    process. -/
def IndexCall (interval : Int) (_ : List Event) (p : Partition) (step : Step) : Prop :=
  match step.action with
  | .openStore config =>
    step.faults = [] ∧ config.indexIntervalBytes = interval ∧ config.segmentMaxBytes ≤ maxInt64
  | .append now records => ∀ s ∈ p.store, s.logEndOffset + records.length < 2 ^ 64 ∧
      (s.Takes ⟨unixMilli now, records⟩ → Batch.size ⟨unixMilli now, records⟩ < 2 ^ 32 + 9 ∧
        IndexWrites s (Batch.size ⟨unixMilli now, records⟩) step.faults)
  | .read _ _ => True
  | .applyRetention _ _ _ => False
  | .closeStore => True

theorem pass_alive (written : Nat) : Fault.pass ≠ .die written := by simp

theorem fail_alive (failed written : Nat) : Fault.fail failed ≠ .die written := by simp

instance : ∀ fault : Fault, Decidable (∀ written, fault ≠ .die written)
  | .pass => isTrue pass_alive
  | .fail failed => isTrue (fail_alive failed)
  | .die written => isFalse fun alive => alive written rfl

instance (script : List Fault) (place count : Nat) : Decidable (Passes script place count) :=
  inferInstanceAs (Decidable (∀ k < count, _))

instance (s : Store) (batchSize : Nat) (script : List Fault) :
    Decidable (IndexWrites s batchSize script) :=
  decidable_of_iff ((Passes script 0 (s.rollOperations batchSize) →
      ∀ written, faultAt script (s.rollOperations batchSize) ≠ .die written) ∧
    (Passes script 0 (s.rollOperations batchSize + 1) → s.indexes batchSize →
      faultAt script (s.rollOperations batchSize + 1) = .pass))
    ⟨fun ⟨alive, entry⟩ => ⟨alive, entry⟩, fun writes => ⟨writes.alive, writes.entry⟩⟩

instance (interval : Int) (past : List Event) (p : Partition) :
    ∀ step, Decidable (IndexCall interval past p step)
  | ⟨.openStore config, faults⟩ =>
    inferInstanceAs
      (Decidable (faults = [] ∧
        config.indexIntervalBytes = interval ∧ config.segmentMaxBytes ≤ maxInt64))
  | ⟨.append now records, faults⟩ =>
    inferInstanceAs (Decidable (∀ s ∈ p.store, s.logEndOffset + records.length < 2 ^ 64 ∧
      (s.Takes ⟨unixMilli now, records⟩ → Batch.size ⟨unixMilli now, records⟩ < 2 ^ 32 + 9 ∧
        IndexWrites s (Batch.size ⟨unixMilli now, records⟩) faults)))
  | ⟨.read _ _, _⟩ | ⟨.closeStore, _⟩ => inferInstanceAs (Decidable True)
  | ⟨.applyRetention _ _ _, _⟩ => inferInstanceAs (Decidable False)

/-- The open store's indexes are the sampled ones, and the directory can be opened again. -/
inductive SampledState (interval : Int) : Partition → Prop where
  | stopped {d : Directory} : Shelf interval d → SampledState interval ⟨none, d⟩
  | ready {J : Journal} {s : Store} {d : Directory} :
      Ready interval J s d → SampledState interval ⟨some s, d⟩
  | stuck {s : Store} {d : Directory} : Stuck interval s d → SampledState interval ⟨some s, d⟩

section Runs

variable {allowed : Fault → Prop} {interval : Int} {J : Journal} {s s' : Store} {d d' : Directory}
  {p : Partition} {past : List Event} {step : Step} {faults : List Fault}

theorem SampledState.shelf (state : SampledState interval p) : Shelf interval p.directory := by
  cases state with
  | stopped shelf => exact shelf
  | ready ready => exact Or.inr ⟨_, ready.shelved⟩
  | stuck stuck => exact stuck.shelf

theorem SampledState.openStore {config : Config} (state : SampledState interval p)
    (setting : config.indexIntervalBytes = interval) (limit : config.segmentMaxBytes ≤ maxInt64) :
    SampledState interval (p.perform ⟨.openStore config, []⟩).2 := by
  have quiet : ∀ fault ∈ ([] : List Fault), (fun _ => False) fault := by simp
  have opens : Meets (fun _ => False) (Storage.openStore config) () p.directory
      (leaving (fun s _ d' => SampledState interval ⟨some s, d'⟩) (Shelf interval)) :=
    meets_openStore_sampled state.shelf setting limit fun _ _ _ ready => .ready ready
  exact settledOpen (fun _ after => SampledState interval after) quiet
    (opens.mono (fun _ _ _ returned => returned) (fun _ _ _ shelf => .stopped shelf)
      fun _ shelf => .stopped shelf)

theorem settledGoes {α : Type} {call : StoreProgram α} {report : α → Outcome}
    (holds : Partition → Prop)
    (goes : Goes faults 0 call s d ⟨fun _ _ s' d' => holds ⟨some s', d'⟩,
      fun _ _ s' d' => holds ⟨some s', d'⟩, fun d' => holds ⟨none, d'⟩⟩) :
    holds (settle report (call ⟨s, d, faults⟩)).2 := by
  unfold Goes at goes
  rw [List.drop_zero] at goes
  rcases ran : call ⟨s, d, faults⟩ with ⟨exit, after⟩
  rw [ran] at goes
  cases exit with
  | ok value => exact goes.choose_spec.2
  | error reason => exact goes.choose_spec.2
  | died => exact goes

theorem SampledState.append {now : Instant} {records : List Record}
    (state : SampledState interval ⟨some s, d⟩)
    (call : IndexCall interval past ⟨some s, d⟩ ⟨.append now records, faults⟩) :
    SampledState interval (Partition.perform ⟨some s, d⟩ ⟨.append now records, faults⟩).2 := by
  obtain ⟨room, takes⟩ := call s rfl
  cases state with
  | ready ready =>
    refine settledGoes (SampledState interval)
      ((goes_append_sampled ready room (fun taken => (takes taken).1)
      fun taken => (takes taken).2).mono ?_ ?_ ?_)
    · exact fun _ _ _ _ ⟨_, after⟩ => .ready after
    · exact fun _ _ _ _ after => after.elim (fun ⟨_, ready⟩ => .ready ready) .stuck
    · exact fun _ shelf => .stopped shelf
  | stuck stuck =>
    have everything : ∀ fault ∈ faults, (fun _ => True) fault := fun _ _ => trivial
    exact settled (fun _ after => SampledState interval after) everything
      (meets_append_refused stuck.writeFailed fun _ _ => .stuck stuck)

theorem Indexed.sameContent {tail : Bytes → Prop} {e : Extent} {seg seg' : Segment}
    (indexed : Indexed interval tail e seg d) (same : SameContent seg seg') :
    Indexed interval tail e seg' d := by
  rw [same]
  exact { indexed with }

theorem Ready.closes (ready : Ready interval J s d) (closes : Closes s s') :
    Ready interval J s' d :=
  ⟨by rw [closes.config]; exact ready.setting, by rw [closes.config]; exact ready.limit,
    ready.measured,
    forall₂_sameContent (fun _ _ _ => Indexed.sameContent) ready.segments closes.segments,
    closes.activeSegment.trans ready.activeSegment, closes.logEndOffset.trans ready.logEndOffset,
    ready.only, ready.above⟩

theorem SampledState.closeStore (state : SampledState interval ⟨some s, d⟩) :
    SampledState interval (Partition.perform ⟨some s, d⟩ ⟨.closeStore, faults⟩).2 := by
  have everything : ∀ fault ∈ faults, (fun _ => True) fault := fun _ _ => trivial
  have closed : ∀ s' d', Closes s s' → Flushed d d' → SampledState interval ⟨some s', d'⟩ := by
    intro s' d' closes flushed
    cases state with
    | ready ready => exact .ready ((ready.sameSegments flushed.sameSegments).closes closes)
    | stuck stuck =>
      obtain ⟨J, measured, segments⟩ := stuck.segments
      refine .stuck ⟨closes.writeFailed.trans stuck.writeFailed, ⟨J, measured, ?_⟩,
        stuck.shelf.sameSegments flushed.sameSegments⟩
      refine forall₂_sameContent (fun _ _ _ => Indexed.sameContent) ?_ closes.segments
      exact indexed_all segments fun _ _ _ indexed => indexed.sameSegments flushed.sameSegments
  refine settled (fun _ after => SampledState interval after) everything
    (meets_closeStore closed (fun _ => closed) ?_)
  exact fun _ d' flushed => .stopped (state.shelf.sameSegments flushed.sameSegments)

section Still

variable {offset startPos position count : Nat} {maxBytes : Int} {cursor : ReadCursor}
  {seg : Segment} {segments : List Segment}

theorem meets_readAt_still {post : Post Store Directory StoreError Bytes}
    (returns : ∀ bytes, post.returns bytes s d) (fails : ∀ reason, post.fails reason s d)
    (dies : post.dies d) : Meets allowed (seg.readAt position count) s d post := by
  unfold Segment.readAt Storage.readAt
  refine meets_unitary ?_ (fun _ => fails _) fun _ => dies
  cases found : d.file? seg.path with
  | none => exact fails _
  | some file =>
    dsimp only
    split_ifs
    · exact returns _
    · exact fails _

theorem meets_readBatches_still {post : Post Store Directory StoreError (ReadCursor × Bool)}
    (returns : ∀ value, post.returns value s d) (fails : ∀ reason, post.fails reason s d)
    (dies : post.dies d) :
    Meets allowed (readBatches maxBytes seg startPos cursor) s d post := by
  induction gap : seg.size - startPos using Nat.strong_induction_on generalizing startPos cursor
    with
  | _ gap ih =>
    unfold readBatches
    split_ifs with inside short
    · exact Meets.throw (fails _)
    · apply Meets.bind
      refine meets_readAt_still (fun _ => ?_) fails dies
      dsimp only
      split_ifs
      · exact Meets.throw (fails _)
      apply Meets.bind
      refine meets_readAt_still (fun _ => ?_) fails dies
      apply Meets.bind
      unfold decoded
      split
      · apply Meets.pure
        dsimp only
        split
        · exact Meets.pure (returns _)
        · exact ih _ (by omega) rfl
      · exact Meets.die dies
      · exact Meets.throw (fails _)
    · exact Meets.pure (returns _)

theorem meets_readSegments_still {post : Post Store Directory StoreError (List StoredRecord)}
    (returns : ∀ value, post.returns value s d) (fails : ∀ reason, post.fails reason s d)
    (dies : post.dies d) :
    Meets allowed (readSegments maxBytes segments cursor) s d post := by
  induction segments generalizing cursor with
  | nil => exact Meets.pure (returns _)
  | cons seg rest ih =>
    apply Meets.bind
    refine meets_readBatches_still (fun value => ?_) fails dies
    dsimp only
    split
    · exact Meets.pure (returns _)
    · exact ih

theorem meets_read_still {post : Post Store Directory StoreError (List StoredRecord)}
    (returns : ∀ value, post.returns value s d) (fails : ∀ reason, post.fails reason s d)
    (dies : post.dies d) :
    Meets allowed (read offset maxBytes) s d post := by
  unfold read
  split_ifs
  · exact Meets.throw (fails _)
  apply Meets.bind
  apply Meets.memory
  dsimp only
  split_ifs
  · exact Meets.throw (fails _)
  · exact Meets.throw (fails _)
  · exact Meets.throw (fails _)
  · exact Meets.pure (returns _)
  · exact Meets.throw (fails _)
  · exact meets_readSegments_still returns fails dies

end Still

theorem SampledState.read {offset : Nat} {maxBytes : Int}
    (state : SampledState interval ⟨some s, d⟩) :
    SampledState interval (Partition.perform ⟨some s, d⟩ ⟨.read offset maxBytes, faults⟩).2 := by
  have everything : ∀ fault ∈ faults, (fun _ => True) fault := fun _ _ => trivial
  exact settled (fun _ after => SampledState interval after) everything
    (meets_read_still (fun _ => state) (fun _ => state) (.stopped state.shelf))

theorem SampledState.follows (state : SampledState interval p)
    (call : IndexCall interval past p step) :
    SampledState interval (p.perform step).2 := by
  obtain ⟨store, d⟩ := p
  obtain ⟨action, faults⟩ := step
  cases action with
  | openStore config =>
    obtain ⟨rfl, setting, limit⟩ := call
    exact state.openStore setting limit
  | append now records =>
    cases store with
    | none => exact state
    | some s => exact state.append call
  | read offset maxBytes =>
    cases store with
    | none => exact state
    | some s => exact state.read
  | applyRetention now maxAge maxPartitionBytes => exact call.elim
  | closeStore =>
    cases store with
    | none => exact state
    | some s => exact state.closeStore

theorem SampledState.agrees {seg : Segment} (state : SampledState interval ⟨some s, d⟩)
    (member : seg ∈ s.segments) :
    IndexAgrees interval seg d := by
  obtain ⟨J, measured, segments⟩ :
      ∃ J : Journal,
        J.Measured ∧ List.Forall₂ (fun e seg => Indexed interval Unfinished e seg d) J.extents
          s.segments := by
    cases state with
    | @ready J _ _ ready =>
      exact ⟨J, ready.measured, indexed_all ready.segments fun _ _ _ indexed => indexed.unfinished⟩
    | stuck stuck => exact stuck.segments
  obtain ⟨i, inside, rfl⟩ := List.mem_iff_getElem.mp member
  have within : i < J.extents.length := by rw [segments.length_eq]; exact inside
  exact (segments.get within inside).agrees (measured.extents _ (List.getElem_mem within))

/-- Every segment's index in memory, in its file and rebuilt from its log are one. -/
theorem index_agrees (run : Run Partition.perform (IndexCall interval) Partition.new past p) :
    ∀ s ∈ p.store, ∀ seg ∈ s.segments, IndexAgrees interval seg p.directory := by
  have state : SampledState interval p :=
    @Run.invariant _ _ _ _ _ _ _ _ (fun _ p => SampledState interval p) run
      (.stopped (Or.inl fresh_empty)) fun _ _ _ state call => state.follows call
  obtain ⟨store, d⟩ := p
  rintro s ⟨⟩ seg member
  exact state.agrees member

/-- Three appends, of which the second rolls over and the third fails in its log, and one after a
    restart. -/
theorem index_agrees_reopened :
    let config : Config := ⟨100, 100, 10, .sync⟩
    let records : List Record := [⟨none, some [97], [], 0⟩]
    let p := (execute Partition.perform [] Partition.new
      [⟨.openStore config, []⟩, ⟨.append 5000000 records, []⟩, ⟨.append 6000000 records, []⟩,
       ⟨.append 7000000 records, [.pass, .pass, .pass, .pass, .pass, .fail 7]⟩, ⟨.closeStore, []⟩,
       ⟨.openStore config, []⟩, ⟨.append 8000000 records, []⟩]).2
    (p.store.map fun s => s.segments.map Segment.indexEntries) =
      some [[⟨0, 0⟩], [⟨0, 0⟩], [⟨0, 0⟩]] ∧
      ∀ s ∈ p.store, ∀ seg ∈ s.segments, IndexAgrees 10 seg p.directory :=
  ⟨by decide +kernel, index_agrees (run_execute .start (by decide +kernel))⟩

end Runs

/-! ## A batch that the length field cannot count -/

section Wide

variable {value : Bytes} {seg : Segment} {d : Directory} {file : File} {interval : Int}

theorem single_split (value : Bytes) : ∃ front back,
    Batch.bytes ⟨5, [⟨none, some value, [], 0⟩]⟩ 0 = front ++ 255 :: back ∧
      front.length = 46 ∧ back.length = 10 + value.length := by
  refine ⟨magicBytes ++ [formatVersion1] ++
    put 4 (Batch.size ⟨5, [⟨none, some value, [], 0⟩]⟩ - 9) ++
    put 4 (Crc32.checksumIEEE (batchBody 0 5 (Batch.stored ⟨5, [⟨none, some value, [], 0⟩]⟩ 0))) ++
    put 8 0 ++ put 4 1 ++
    put 8 5 ++ put 4 0 ++ put 8 0 ++ [255], [255, 255] ++ put 4 value.length ++ value ++ put 4 0,
    ?_, ?_, ?_⟩
  · obtain ⟨maxTimestamp, frame, rfl, _⟩ := Batch.bytes_frame (single_placed value)
    have record : encodeRecord 0 5 ⟨0, 5, none, some value, []⟩ =
        put 4 0 ++ put 8 0 ++ [255, 255, 255, 255] ++ (put 4 value.length ++ value) ++ put 4 0 ++
          [] := rfl
    have stored : Batch.stored ⟨5, [⟨none, some value, [], 0⟩]⟩ 0 =
        [⟨0, 5, none, some value, []⟩] := rfl
    rw [frame]
    show frameBatch _ (batchBody 0 5 _) = _
    rw [frameBatch, stored, batchBody, List.flatMap_singleton, record, show uint64 5 = 5 from rfl]
    simp
  · simp [magicBytes]
  · simp
    omega

/-- The rebuild takes the middle of the batch for the next header, whose offset is out of reach. -/
theorem rebuild_derails {seg' : Segment} {after : World Unit Directory}
    (wraps : value.length = 2 ^ 32 - 24) (base : seg.baseOffset = 0)
    (size : seg.size = 57 + value.length) (found : d.file? (.log 0) = some file)
    (content : file.data = Batch.bytes ⟨5, [⟨none, some value, [], 0⟩]⟩ 0) :
    rebuildIndex interval seg seg.size ⟨(), d, []⟩ ≠ (.ok seg', after) := by
  have path : d.file? seg.path = some file := by rw [Segment.path, base, found]
  have length : file.data.length = 57 + value.length := by rw [content, ← single_size]; rfl
  have lengthField : get (((file.data.take 33).drop 5).take 4) = 24 := by
    rw [content, Batch.length_field_mod (single_placed value) (by decide), single_size]
    omega
  have baseField : get (((file.data.take 33).drop 13).take 8) = 0 := by
    rw [content]
    exact (Batch.rest_fields (single_placed value)).1
  have far : maxUint32 <
      uint64 ((get ((((file.data.drop 33).take 33).drop 13).take 8) : Nat) - (0 : Nat)) := by
    obtain ⟨front, back, split, place, rest⟩ := single_split value
    have field : (((file.data.drop 33).take 33).drop 13).take 8 = 255 :: back.take 7 := by
      rw [content, split, List.drop_take, List.drop_drop, List.take_take, List.drop_left' place]
      rfl
    have bound := get_lt (255 :: back.take 7)
    rw [field, get_cons]
    rw [get_cons] at bound
    rw [List.length_cons, List.length_take, Nat.min_eq_left (by omega)] at bound
    rw [List.length_take, Nat.min_eq_left (by omega)]
    rw [Nat.cast_zero, Int.sub_zero, uint64_of_nat (by omega)]
    have byte : (255 : UInt8).toNat = 255 := rfl
    unfold maxUint32
    omega
  have meets : Meets (fun _ => False) (rebuildIndex interval seg seg.size) () d
      ⟨fun _ _ _ => False, fun _ _ _ => True, fun _ => True⟩ := by
    unfold rebuildIndex
    apply Meets.bind
    refine meets_openTruncate ?_ unshaken unshaken
    intro synced
    apply Meets.bind
    apply Meets.onError
    rw [rebuildEntries, dif_pos (by omega)]
    apply Meets.bind
    refine meets_readAt (by rw [file?_put_other (by simp [Segment.path]), path])
      (by omega) ?_ unshaken unshaken
    rw [List.drop_zero]
    simp only [lengthField, baseField, base]
    rw [if_neg (by decide), if_pos (Or.inl trivial)]
    apply Meets.bind
    refine meets_writeAt (by rw [file?_put_self]) ?_ unshaken unshaken
    rw [rebuildEntries, dif_pos (by omega)]
    apply Meets.bind
    refine meets_readAt
      (by rw [file?_put_other (by simp [Segment.path]), file?_put_other (by simp [Segment.path]),
        path])
      (by omega) ?_ unshaken unshaken
    simp only [base]
    rw [if_pos far]
    apply Meets.throw
    apply Meets.bind
    apply Meets.ignore
    exact meets_close (meets_remove_any trivial (fun _ => trivial) unshaken) unshaken unshaken
  exact fun ran => meets.returned (by simp) ran

theorem first_log (bytes entry : Bytes) : (writeFile (.index 0) 0 entry (writeFile (.log 0) 0 bytes
    (((⟨true, ∅, []⟩ : Directory).touch (.log 0)).touch (.index 0)))).file? (.log 0) =
    some ⟨bytes, []⟩ := by
  have created : (((⟨true, ∅, []⟩ : Directory).touch (.log 0)).touch (.index 0)).file? (.log 0) =
      some ⟨[], []⟩ := by
    rw [file?_touch_other (by simp)]
    exact file?_touch_missing rfl
  rw [file?_writeFile_other (by simp), writeFile_found created, file?_put_self]
  exact congrArg (fun data => some (⟨data, []⟩ : File)) (overwrite_end [] bytes)

theorem wide_disagrees {config : Config} (mode : config.flushMode = .async)
    (wraps : value.length = 2 ^ 32 - 24)
    (limit : (57 + value.length : Nat) ≤ config.maxBatchBytes) :
    let after := (Partition.new.perform ⟨.openStore config, []⟩).2.perform
      ⟨.append 5000000 [⟨none, some value, [], 0⟩], []⟩
    after.1 = .appended 0 0 ∧
      ∃ s ∈ after.2.store, ∃ seg ∈ s.segments, ¬ IndexAgrees interval seg after.2.directory := by
  rw [← single_size] at limit
  dsimp only
  rw [first_append (by simp) mode limit]
  refine ⟨rfl, _, rfl, _, List.mem_singleton_self _, fun agrees => ?_⟩
  obtain ⟨seg', after, ran, _⟩ := agrees.rebuilt
  refine rebuild_derails wraps rfl ?_ (first_log _ _) rfl ran
  show 0 + (Batch.bytes ⟨5, [⟨none, some value, [], 0⟩]⟩ 0).length = _
  rw [Nat.zero_add, ← single_size]
  rfl

/-- A batch of 2^32 + 33 bytes: its length field says 24, and a rebuild goes on inside of it. -/
theorem wide_batch_disagrees :
    let after := (Partition.new.perform ⟨.openStore ⟨2 ^ 33, 2 ^ 33, 4096, .async⟩, []⟩).2.perform
      ⟨.append 5000000 [⟨none, some (List.replicate (2 ^ 32 - 24) 0), [], 0⟩], []⟩
    after.1 = .appended 0 0 ∧
      ∃ s ∈ after.2.store, ∃ seg ∈ s.segments, ¬ IndexAgrees 4096 seg after.2.directory :=
  @wide_disagrees (List.replicate (2 ^ 32 - 24) 0) 4096 ⟨2 ^ 33, 2 ^ 33, 4096, .async⟩ rfl
    (by rw [List.length_replicate]) (by rw [List.length_replicate]; decide)

end Wide

end MessageBroker.Storage
