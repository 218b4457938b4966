import MessageBroker.Lib.Touches
import MessageBroker.Storage.Recovery
import MessageBroker.Storage.Retention

namespace MessageBroker.Storage

open Faulty Program

section Footprint

variable {μ α : Type} {may : Directory → Directory → Prop} [IsPreorder Directory may]

theorem touches_unitary {operation : Operation}
    {action : Directory → Except StoreError α × Directory} (passes : ∀ d, may d (action d).2) :
    Touches may (unitary operation action : Program μ Directory StoreError α) :=
  Touches.operate passes (fun _ d => refl_of may d) (fun _ d => refl_of may d)

theorem touches_looks {operation : Operation} {action : Directory → Except StoreError α × Directory}
    (looks : ∀ d, (action d).2 = d) :
    Touches may (unitary operation action : Program μ Directory StoreError α) :=
  touches_unitary fun d => by rw [looks d]; exact refl_of may d

/-! ## Reading -/

section Reading

theorem touches_readAt (name : FileName) (position count : Nat) :
    Touches may (readAt name position count : Program μ Directory StoreError Bytes) := by
  refine touches_looks fun d => ?_
  split
  · rfl
  · split <;> rfl

theorem touches_readUpTo (name : FileName) (count : Nat) :
    Touches may (readUpTo name count : Program μ Directory StoreError Bytes) := by
  refine touches_looks fun d => ?_
  split <;> rfl

theorem touches_stat (name : FileName) :
    Touches may (stat name : Program μ Directory StoreError Nat) := by
  refine touches_looks fun d => ?_
  split <;> rfl

theorem touches_close (name : FileName) :
    Touches may (close name : Program μ Directory StoreError Unit) :=
  touches_looks fun _ => rfl

theorem touches_decoded (position : Nat) (data : Bytes) :
    Touches may (decoded position data : Program μ Directory StoreError (List StoredRecord)) := by
  unfold decoded
  split
  · exact Touches.pure _
  · exact Touches.die
  · exact Touches.throw _

theorem touches_readBatches (maxBytes : Int) (seg : Segment) (startPos : Nat)
    (cursor : ReadCursor) :
    Touches may (readBatches maxBytes seg startPos cursor : Program μ Directory StoreError
      (ReadCursor × Bool)) := by
  fun_induction readBatches maxBytes seg startPos cursor with
  | case1 => exact Touches.throw _
  | case2 startPos cursor inside wide ih =>
    refine (touches_readAt _ _ _).bind fun buffer => ?_
    dsimp only
    split
    · exact Touches.throw _
    · refine (touches_readAt _ _ _).bind fun batch => (touches_decoded _ _).bind fun records => ?_
      split
      · exact Touches.pure _
      · exact ih _ ‹_› _
  | case3 => exact Touches.pure _

theorem touches_readSegments (maxBytes : Int) (segments : List Segment) (cursor : ReadCursor) :
    Touches may (readSegments maxBytes segments cursor : Program μ Directory StoreError
      (List StoredRecord)) := by
  induction segments generalizing cursor with
  | nil => exact Touches.pure _
  | cons seg rest ih =>
    refine (touches_readBatches _ _ _ _).bind fun result => ?_
    obtain ⟨cursor, done⟩ := result
    cases done with
    | true => exact Touches.pure _
    | false => exact ih cursor

theorem touches_read (offset : Nat) (maxBytes : Int) : Touches may (read offset maxBytes) := by
  unfold read
  split
  · exact Touches.throw _
  refine Touches.memory.bind fun s => ?_
  split_ifs
  · exact Touches.throw _
  · exact Touches.throw _
  · exact Touches.throw _
  · exact Touches.pure _
  dsimp only
  split
  · exact Touches.throw _
  · exact touches_readSegments _ _ _

end Reading

/-! ## Removing -/

section Removing

variable (erased : ∀ d name, may d (d.erase name))
  (settled : ∀ d, may d { d with durableNames := d.files.keys })

include erased

theorem touches_remove (name : FileName) :
    Touches may (remove name : Program μ Directory StoreError Unit) := by
  refine touches_unitary fun d => ?_
  split
  · exact refl_of may d
  · exact erased d name

theorem touches_removeIndex (name : FileName) : Touches may (removeIndex name) := by
  refine (touches_remove erased name).attempt.bind fun result => ?_
  split
  · exact Touches.pure ()
  · exact Touches.pure ()
  · exact Touches.throw _

omit erased in
theorem touches_segmentClose (seg : Segment) :
    Touches may (seg.close : Program μ Directory StoreError Unit) := by
  unfold Segment.close
  split
  · exact Touches.pure ()
  refine (touches_close _).attempt.bind
    fun file => (touches_close _).attempt.bind fun indexFile => ?_
  split
  · exact Touches.pure ()
  · exact Touches.throw _

include settled

omit erased in
theorem touches_syncDirectory :
    Touches may (syncDirectory : Program μ Directory StoreError Unit) := by
  refine Touches.bind (touches_looks fun _ => rfl) fun _ => ?_
  exact touches_unitary settled

theorem touches_deleteSegmentAtIndex (idx : Nat) : Touches may (deleteSegmentAtIndex idx) := by
  refine Touches.memory.bind fun s => ?_
  split
  · exact Touches.die
  refine (touches_remove erased _).bind fun _ => (Touches.modify _).bind fun _ =>
    (touches_removeIndex erased _).attempt.bind
      fun index => (touches_segmentClose _).attempt.bind fun handles =>
    (touches_syncDirectory settled).attempt.bind fun directory => ?_
  split
  · exact Touches.pure ()
  · exact Touches.throw _

theorem touches_deleteOldestThen {next : StoreProgram (List StoreError)}
    (later : Touches may next) :
    Touches may (deleteOldestThen next) := by
  refine (touches_deleteSegmentAtIndex erased settled 0).attempt.bind fun result => ?_
  split
  · exact Touches.pure _
  · exact later

theorem touches_retainByAge (cutoff : Int) (rounds : Nat) :
    Touches may (retainByAge cutoff rounds) := by
  induction rounds with
  | zero => exact Touches.pure _
  | succ rounds ih =>
    refine Touches.memory.bind fun s => ?_
    split
    · split_ifs
      · exact Touches.pure _
      · exact touches_deleteOldestThen erased settled ih
      · exact Touches.pure _
    · exact Touches.pure _

omit erased settled in
theorem touches_totalBytes (segments : List Segment) : Touches may (totalBytes segments) := by
  induction segments with
  | nil => exact Touches.pure _
  | cons seg rest ih =>
    exact (touches_stat _).bind
      fun _ => (touches_stat _).bind fun _ => ih.bind fun _ => Touches.pure _

theorem touches_retainBySize (limit rounds : Nat) : Touches may (retainBySize limit rounds) := by
  induction rounds with
  | zero => exact Touches.pure _
  | succ rounds ih =>
    have measures : Touches may calculateTotalBytes :=
      Touches.memory.bind fun s => touches_totalBytes s.segments
    refine Touches.memory.bind fun s => ?_
    split
    · refine measures.attempt.bind fun result => ?_
      split
      · exact Touches.pure _
      · split_ifs
        · exact Touches.pure _
        · exact Touches.pure _
        · exact touches_deleteOldestThen erased settled ih
    · exact Touches.pure _

theorem touches_applyRetention (now : Instant) (maxAge : Int) (limit : Nat) :
    Touches may (applyRetention now maxAge limit) := by
  refine Touches.memory.bind fun s => ?_
  split
  · exact Touches.pure ()
  refine (touches_retainByAge erased settled _ _).bind fun aged => Touches.memory.bind fun s =>
    (touches_retainBySize erased settled _ _).bind fun sized => ?_
  split
  · exact Touches.pure ()
  · exact Touches.throw _

end Removing

/-! ## Writing -/

/-- The changes the operations on a directory are made of. -/
structure Permits (may : Directory → Directory → Prop) : Prop where
  made : ∀ d, may d { d with present := true }
  put : ∀ d name file, may d (d.put name file)
  erased : ∀ d name, may d (d.erase name)
  named : ∀ d names, may d { d with durableNames := names }

section Writing

variable (permits : Permits may)

include permits

theorem touches_mkdirAll : Touches may (mkdirAll : Program μ Directory StoreError Unit) :=
  touches_unitary permits.made

theorem touches_openCreate (name : FileName) :
    Touches may (openCreate name : Program μ Directory StoreError Unit) := by
  refine touches_unitary fun d => ?_
  split
  · exact permits.put d name _
  · exact refl_of may d

theorem touches_openTruncate (name : FileName) :
    Touches may (openTruncate name : Program μ Directory StoreError Unit) := by
  refine touches_unitary fun d => ?_
  split <;> exact permits.put d name _

theorem may_writeFile (name : FileName) (position : Nat) (bytes : Bytes) (d : Directory) :
    may d (writeFile name position bytes d) := by
  unfold writeFile
  split
  · exact refl_of may d
  · exact permits.put d name _

theorem touches_writeAt (name : FileName) (position : Nat) (bytes : Bytes) :
    Touches may (writeAt name position bytes : Program μ Directory StoreError Unit) := by
  refine Touches.operate (fun d => ?_) (fun _ d => may_writeFile permits _ _ _ d)
    (fun _ d => may_writeFile permits _ _ _ d)
  split
  · exact refl_of may d
  · exact may_writeFile permits _ _ _ d

theorem touches_truncate (name : FileName) (size : Nat) :
    Touches may (truncate name size : Program μ Directory StoreError Unit) := by
  refine touches_unitary fun d => ?_
  split
  · exact refl_of may d
  · exact permits.put d name _

theorem touches_sync (name : FileName) :
    Touches may (sync name : Program μ Directory StoreError Unit) := by
  refine touches_unitary fun d => ?_
  split
  · exact refl_of may d
  · exact permits.put d name _

theorem touches_rename (source target : FileName) :
    Touches may (rename source target : Program μ Directory StoreError Unit) := by
  refine touches_unitary fun d => ?_
  split
  · exact refl_of may d
  · exact trans_of may (permits.erased d source)
      (trans_of may (permits.put _ target _) (permits.named _ _))

theorem touches_newSegment (base : Nat) (active : Bool) :
    Touches may (newSegment base active : Program μ Directory StoreError Segment) := by
  refine (touches_openCreate permits _).bind
    fun _ => ((touches_stat _).onError (touches_close _)).bind fun _ =>
    ((touches_openCreate permits _).onError (touches_close _)).bind fun _ =>
    ((touches_stat _).onError ?_).bind fun _ => Touches.pure _
  exact (touches_close _).ignore.bind fun _ => touches_close _

theorem touches_flush (seg : Segment) :
    Touches may (seg.flush : Program μ Directory StoreError Segment) := by
  refine (touches_sync permits _).bind fun _ => ?_
  unfold Segment.flushIndex
  split
  · exact (touches_sync permits _).bind fun _ => Touches.pure _
  · exact Touches.pure _

theorem touches_flushActive : Touches may flushActive :=
  Touches.memory.bind fun _ => (touches_flush permits _).bind fun _ => Touches.modify _

theorem touches_rollSegment (size : Nat) : Touches may (rollSegment size) := by
  refine Touches.memory.bind fun s => ?_
  split
  · exact ((touches_flushActive permits).onError (Touches.modify _)).bind
      fun _ => (Touches.modify _).bind fun _ =>
      ((touches_newSegment permits _ _).onError (Touches.modify _)).bind fun _ => Touches.modify _
  · exact Touches.pure ()

theorem touches_appendIndexEntry (seg : Segment) (entry : IndexEntry) :
    Touches may (seg.appendIndexEntry entry : Program μ Directory StoreError Segment) := by
  refine (touches_writeAt permits _ _ _).attempt.bind fun result => ?_
  split <;> exact Touches.pure _

theorem touches_indexBatch (relative position : Nat) :
    Touches may (indexBatch relative position) := by
  refine Touches.memory.bind fun s => ?_
  split
  · exact (touches_appendIndexEntry permits _ _).bind fun _ => Touches.modify _
  · exact Touches.pure ()

theorem touches_writeEncoded (base count : Nat) (timestamp : Int) (encoded : Bytes) :
    Touches may (writeEncoded base count timestamp encoded) := by
  refine Touches.memory.bind fun s => ?_
  dsimp only
  split
  · exact (Touches.modify _).bind fun _ => Touches.throw _
  have writes : Touches may (s.active.append encoded : StoreProgram (Segment × Nat)) :=
    (touches_writeAt permits _ _ _).bind fun _ => Touches.pure _
  refine (writes.onError (Touches.modify _)).bind fun written => ?_
  obtain ⟨seg, position⟩ := written
  refine (Touches.modify _).bind fun _ => (touches_indexBatch permits _ _).bind fun _ => ?_
  split
  · exact ((touches_flushActive permits).onError (Touches.modify _)).bind fun _ => Touches.pure _
  · exact (Touches.pure ()).bind fun _ => Touches.pure _

theorem touches_append (now : Instant) (records : List Record) :
    Touches may (append now records) := by
  unfold append
  split
  · exact Touches.throw _
  refine Touches.memory.bind fun s => ?_
  split_ifs
  · exact Touches.throw _
  · exact Touches.throw _
  dsimp only
  split
  · exact Touches.throw _
  · split_ifs
    · exact Touches.throw _
    · exact (touches_rollSegment permits _).bind fun _ => touches_writeEncoded permits _ _ _ _

omit permits in
theorem touches_closeSegments (segments : List Segment) : Touches may (closeSegments segments) := by
  induction segments with
  | nil => exact Touches.pure _
  | cons seg rest ih =>
    exact (touches_segmentClose _).attempt.bind fun _ => ih.bind fun _ => Touches.pure _

theorem touches_closeStore : Touches may closeStore := by
  refine Touches.memory.bind fun s => ?_
  split
  · exact Touches.pure ()
  refine (Touches.modify _).bind
    fun _ => (touches_flushActive permits).attempt.bind fun _ => Touches.memory.bind fun s =>
    (touches_closeSegments _).bind fun _ => (Touches.modify _).bind fun _ => ?_
  split
  · exact Touches.pure ()
  · exact Touches.throw _

/-! ### Recovery -/

theorem touches_tornTail (active : Bool) (seg : Segment) (expected valid : Nat)
    (closedError : StoreError) :
    Touches may (tornTail active seg expected valid closedError : Program μ Directory StoreError
      (Segment × Nat × Nat)) := by
  unfold tornTail
  split
  · exact ((touches_truncate permits _ _).bind fun _ => Touches.pure _).bind fun _ => Touches.pure _
  · exact Touches.throw _

omit permits in
theorem touches_acceptBatch (data : Bytes) (expected : Nat) :
    Touches may (acceptBatch data expected : Program μ Directory StoreError
      (List StoredRecord)) := by
  unfold acceptBatch
  split
  · exact Touches.die
  · exact Touches.throw _
  · split
    · exact Touches.throw _
    · exact Touches.pure _

theorem touches_scanBatches (limit : Int) (active : Bool) (seg : Segment)
    (position expected valid : Nat) :
    Touches may (scanBatches limit active seg position expected valid :
      Program μ Directory StoreError (Segment × Nat × Nat)) := by
  fun_induction scanBatches limit active seg position expected valid with
  | case1 => exact touches_tornTail permits _ _ _ _ _
  | case2 seg position expected valid inside wide ih =>
    refine (touches_readAt _ _ _).bind fun buffer => ?_
    dsimp only
    split_ifs
    · exact Touches.throw _
    · exact Touches.throw _
    · exact Touches.throw _
    · exact Touches.throw _
    · exact touches_tornTail permits _ _ _ _ _
    · exact (touches_readAt _ _ _).bind
        fun batch => (touches_acceptBatch _ _).bind fun records => ih buffer ‹_› records
  | case3 => exact Touches.pure _

omit permits in
theorem touches_validateEntry (seg : Segment) (valid : Nat) (entry : IndexEntry) :
    Touches may (validateEntry seg valid entry : Program μ Directory StoreError Bool) := by
  unfold validateEntry
  split
  · exact Touches.pure _
  refine (touches_readAt _ _ _).attempt.bind fun result => ?_
  split
  · exact Touches.pure _
  · split_ifs
    · exact Touches.pure _
    · exact Touches.pure _
    · refine (touches_readAt _ _ _).attempt.bind fun result => ?_
      split <;> exact Touches.pure _

omit permits in
theorem touches_validateEntries (seg : Segment) (valid : Nat) (last : Option IndexEntry)
    (entries : List IndexEntry) :
    Touches may (validateEntries seg valid last entries : Program μ Directory StoreError Bool) := by
  induction entries generalizing last with
  | nil => exact Touches.pure _
  | cons entry rest ih =>
    unfold validateEntries
    split
    · exact Touches.pure _
    refine (touches_validateEntry _ _ _).bind fun good => ?_
    split
    · exact ih _
    · exact Touches.pure _

theorem touches_rebuildEntries (interval : Int) (seg : Segment) (valid position : Nat)
    (state : RebuildState) :
    Touches may (rebuildEntries interval seg valid position state : Program μ Directory StoreError
      RebuildState) := by
  fun_induction rebuildEntries interval seg valid position state with
  | case1 position state inside ih1 ih2 =>
    refine (touches_readAt _ _ _).bind fun buffer => ?_
    have sampled := ih1 buffer
    have skipped := ih2 buffer
    dsimp only at sampled skipped ⊢
    split
    · exact Touches.throw _
    · split
      · exact (touches_writeAt permits _ _ _).bind fun _ => sampled
      · exact skipped
  | case2 => exact Touches.pure _

theorem touches_rebuildIndex (interval : Int) (seg : Segment) (valid : Nat) :
    Touches may (rebuildIndex interval seg valid : Program μ Directory StoreError Segment) := by
  have removes : ∀ name, Touches may (remove name : Program μ Directory StoreError Unit) :=
    touches_remove permits.erased
  have cleans : Touches may (do
      ignore (close (FileName.indexTmp seg.baseOffset))
      remove (FileName.indexTmp seg.baseOffset) : Program μ Directory StoreError Unit) :=
    (touches_close _).ignore.bind fun _ => removes _
  have opens : ∀ name, Touches may (openExisting name : Program μ Directory StoreError Unit) :=
    fun name => touches_looks fun d => by split <;> rfl
  exact (touches_openTruncate permits _).bind
    fun _ => ((touches_rebuildEntries permits _ _ _ _ _).onError cleans).bind fun _ =>
    ((touches_sync permits _).onError cleans).bind
      fun _ => ((touches_close _).onError (removes _)).bind fun _ =>
    (touches_close _).ignore.bind
      fun _ => ((touches_rename permits _ _).onError (removes _)).bind fun _ =>
    (opens _).bind
      fun _ => (touches_syncDirectory fun d => permits.named d _).bind fun _ => Touches.pure _

theorem touches_recoverIndex (interval : Int) (seg : Segment) (valid : Nat) :
    Touches may (recoverIndex interval seg valid : Program μ Directory StoreError Segment) := by
  have reads : Touches may
      (seg.readIndexEntries : Program μ Directory StoreError (List IndexEntry)) := by
    unfold Segment.readIndexEntries
    split_ifs
    · exact Touches.pure _
    · exact Touches.throw _
    · exact Touches.throw _
    · refine (touches_readUpTo _ _).bind fun buffer => ?_
      split
      · exact Touches.throw _
      · exact Touches.pure _
  refine reads.attempt.bind fun result => ?_
  split
  · exact touches_rebuildIndex permits _ _ _
  rename_i entries
  have validates :
      Touches may (validateIndexEntries seg entries valid : Program μ Directory StoreError
        Bool) := by
    unfold validateIndexEntries
    split
    · exact Touches.pure _
    · split
      · exact Touches.pure _
      · exact touches_validateEntries _ _ _ _
  refine validates.bind fun good => ?_
  split
  · exact Touches.pure _
  · exact touches_rebuildIndex permits _ _ _

omit permits in
theorem touches_closeAllOpenSegments (segments : List Segment) :
    Touches may (closeAllOpenSegments segments : Program μ Directory StoreError Unit) := by
  induction segments with
  | nil => exact Touches.pure ()
  | cons seg rest ih => exact (touches_segmentClose _).ignore.bind fun _ => ih

theorem touches_removeTemps (files : List FileName) :
    Touches may (removeTemps files : Program μ Directory StoreError Unit) := by
  induction files with
  | nil => exact Touches.pure ()
  | cons name rest ih =>
    cases name with
    | indexTmp base => exact (touches_remove permits.erased _).ignore.bind fun _ => ih
    | log base => exact ih
    | index base => exact ih

theorem touches_loadSegments (config : Config) (bases : List Nat) (expected : Nat)
    (segments : List Segment) :
    Touches may (loadSegments config bases expected segments : Program μ Directory StoreError
      (List Segment × Nat)) := by
  induction bases generalizing expected segments with
  | nil => exact Touches.pure _
  | cons base rest ih =>
    unfold loadSegments
    split
    · exact (touches_closeAllOpenSegments _).bind fun _ => Touches.throw _
    refine ((touches_newSegment permits _ _).onError (touches_closeAllOpenSegments _)).bind
      fun seg => ?_
    have recovers :
        Touches may (recoverSegment config seg rest.isEmpty : Program μ Directory StoreError
          (Segment × Nat)) := by
      refine (touches_scanBatches permits _ _ _ _ _ _).bind fun scanned => ?_
      obtain ⟨seg, next, valid⟩ := scanned
      exact (touches_recoverIndex permits _ _ _).bind fun _ => Touches.pure _
    refine (recovers.onError (touches_closeAllOpenSegments _)).bind fun recovered => ?_
    obtain ⟨seg, next⟩ := recovered
    exact ih _ _

theorem touches_openFound (config : Config) : Touches may (do
    let files ← readDir
    removeTemps files
    match logBases files with
    | [] => do
      let seg ← newSegment 0 true
      pure ⟨config, false, false, [seg], 0, 0, 0⟩
    | base :: rest => do
      let (segments, logEndOffset) ← loadSegments config (base :: rest) base []
      pure ⟨config, false, false, segments, segments.length - 1, logEndOffset, base⟩ :
    Program μ Directory StoreError Store) := by
  refine Touches.bind (touches_looks fun _ => rfl)
    fun files => (touches_removeTemps permits _).bind fun _ => ?_
  split
  · exact (touches_newSegment permits _ _).bind fun _ => Touches.pure _
  · refine (touches_loadSegments permits _ _ _ _).bind fun loaded => ?_
    obtain ⟨segments, logEnd⟩ := loaded
    exact Touches.pure _

theorem touches_openStore (config : Config) :
    Touches may (openStore config : Program μ Directory StoreError Store) :=
  (touches_mkdirAll permits).bind fun _ => touches_openFound permits config

end Writing

end Footprint

/-! ## The directory itself -/

def Present (d d' : Directory) : Prop := d.present = true → d'.present = true

instance : IsPreorder Directory Present where
  refl _ here := here
  trans _ _ _ first second here := second (first here)

theorem permits_present : Permits Present where
  made _ _ := rfl
  put _ _ _ here := here
  erased _ _ here := here
  named _ _ here := here

theorem leaves_openStore {μ : Type} (config : Config) :
    Leaves (·.present = true) (openStore config : Program μ Directory StoreError Store) := by
  have made : Leaves (·.present = true) (mkdirAll : Program μ Directory StoreError Unit) := by
    intro world value after ran
    unfold mkdirAll unitary operate at ran
    dsimp only at ran
    split at ran <;> cases ran <;> rfl
  exact made.bind fun _ => touches_openFound permits_present config

end MessageBroker.Storage
