import MessageBroker.Storage.FailedAppend
import MessageBroker.Storage.Resampling

namespace MessageBroker.Storage

open Faulty Program BigEndian

/-! ## Journals of measured batches -/

section Journals

variable {J : Journal} {b : Batch}

theorem Journal.Measured.logEnd_lt (measured : J.Measured) : J.logEnd < 2 ^ 64 := by
  have active := measured.extents _ J.active_mem
  rw [J.logEnd_eq]
  exact active.batches.end_lt active.start

theorem Journal.Measured.activeBase_lt (measured : J.Measured) (nonempty : J.active ≠ []) :
    J.activeBase < J.logEnd :=
  J.activeBase_lt (measured.extents _ J.active_mem).batches.filled nonempty

theorem Journal.Measured.extend (measured : J.Measured) (batch : b.Measured J.logEnd)
    (fits : IndexEntry.Fits ⟨span J.active, J.activeExtent.bytes.length⟩) :
    (J.extend b).Measured := by
  refine ⟨?_, measured.closed⟩
  intro e member
  rcases List.mem_append.mp member with member | member
  · exact measured.extents e (List.mem_append_left _ member)
  · rw [List.mem_singleton.mp member]
    rw [J.logEnd_eq] at batch
    exact (measured.extents _ J.active_mem).extend batch fits

theorem Journal.Measured.roll (measured : J.Measured) (nonempty : J.active ≠ []) :
    J.roll.Measured := by
  refine ⟨?_, ?_⟩
  · intro e member
    rw [Journal.extents, Journal.roll_closedExtents, Journal.roll_activeExtent] at member
    rcases List.mem_append.mp member with member | member
    · exact measured.extents e member
    · rw [List.mem_singleton.mp member]
      exact Extent.measured_nil measured.logEnd_lt
  · intro batches member
    rcases List.mem_append.mp member with member | member
    · exact measured.closed batches member
    · rw [List.mem_singleton.mp member]
      exact nonempty

end Journals

/-! ## Stores with sampled indexes -/

/-- A store that takes no batch any more, over a directory that can be opened again. -/
structure Stuck (interval : Int) (s : Store) (d : Directory) : Prop where
  writeFailed : s.writeFailed = true
  segments : ∃ J : Journal,
    J.Measured ∧ List.Forall₂ (fun e seg => Indexed interval Unfinished e seg d) J.extents
      s.segments
  shelf : Shelf interval d

section Ready

variable {interval : Int} {J : Journal} {s : Store} {d d' : Directory}

theorem Indexed.unfinished {e : Extent} {seg : Segment}
    (indexed : Indexed interval (· = []) e seg d) :
    Indexed interval Unfinished e seg d := by
  obtain ⟨file, left, found, content, nothing⟩ := indexed.log
  exact { indexed with log := ⟨file, left, found, content, Or.inl nothing⟩ }

theorem Ready.split (ready : Ready interval J s d) :
    ∃ init seg, s.segments = init ++ [seg] ∧ s.activeSegment = init.length ∧
      List.Forall₂ (fun e seg => Indexed interval (· = []) e seg d) J.closedExtents init ∧
      Indexed interval (· = []) J.activeExtent seg d := by
  rw [ready.activeSegment]
  exact J.split_last ready.segments

theorem Ready.shelved (ready : Ready interval J s d) : Shelved interval J d := by
  refine ⟨ready.measured, ?_, ready.only, ready.above⟩
  intro e member
  obtain ⟨seg, _, indexed⟩ : ∃ seg ∈ s.segments, Indexed interval (· = []) e seg d := by
    obtain ⟨i, inside, rfl⟩ := List.mem_iff_getElem.mp member
    exact ⟨_, List.getElem_mem (ready.segments.length_eq ▸ inside), ready.segments.get inside _⟩
  exact indexed.unfinished.onDisk

theorem Ready.sameSegments (ready : Ready interval J s d) (same : SameSegments d d') :
    Ready interval J s d' :=
  { ready with
    segments := indexed_all ready.segments fun _ _ _ indexed => indexed.sameSegments same
    only := fun base found => ready.only base (mt (none_of_same (same base).1).mpr found)
    above := fun base beyond => (none_of_same (same base).2).mpr (ready.above base beyond) }

theorem Ready.stuck (ready : Ready interval J s d) :
    Stuck interval { s with writeFailed := true } d :=
  ⟨rfl, ⟨J, ready.measured, indexed_all ready.segments fun _ _ _ indexed => indexed.unfinished⟩,
    Or.inr ⟨J, ready.shelved⟩⟩

theorem Ready.setActive {seg : Segment} (ready : Ready interval J s d)
    (indexed : Indexed interval (· = []) J.activeExtent seg d) :
    Ready interval J (s.setActive seg) d := by
  obtain ⟨init, old, split, place, closed, _⟩ := ready.split
  rw [Store.setActive_last _ split place]
  exact { ready with segments := List.rel_append closed (.cons indexed .nil) }

theorem Ready.active (ready : Ready interval J s d) :
    Indexed interval (· = []) J.activeExtent s.active d := by
  obtain ⟨init, seg, split, place, _, indexed⟩ := ready.split
  rw [Store.active_last split place]
  exact indexed

theorem Ready.attached (ready : Ready interval J s d) : Attached s d := by
  obtain ⟨log, _, foundLog, _⟩ := ready.active.log
  obtain ⟨index, foundIndex, _⟩ := ready.active.index
  refine ⟨?_, ?_, ?_⟩
  · rw [ready.activeSegment, ← ready.segments.length_eq, J.extents_eq, extentsFrom_length]
    simp
  · rw [Segment.path, ready.active.base, foundLog]
    simp
  · rw [Segment.indexPath, ready.active.base, foundIndex]
    simp

theorem Ready.nextFiles (ready : Ready interval J s d) (nonempty : J.active ≠ []) :
    d.file? (.log J.logEnd) = none ∧ d.file? (.index J.logEnd) = none := by
  have less := ready.measured.activeBase_lt nonempty
  refine ⟨?_, ready.above _ less⟩
  by_contra found
  obtain ⟨e, member, base⟩ := ready.only _ found
  have bound := J.base_le ready.measured.rising member
  omega

theorem Shelved.created (shelved : Shelved interval J d) (nonempty : J.active ≠ [])
    (frame : Frame J.logEnd d d') (log : d'.file? (.log J.logEnd) = Option.some ⟨[], []⟩)
    (index : ∀ file, d'.file? (.index J.logEnd) = Option.some file → file.data = []) :
    Shelved interval J.roll d' := by
  have less := shelved.measured.activeBase_lt nonempty
  refine ⟨shelved.measured.roll nonempty, ?_, ?_, ?_⟩
  · rw [Journal.extents, Journal.roll_closedExtents, Journal.roll_activeExtent]
    intro e member
    rcases List.mem_append.mp member with member | member
    · have bound := J.base_le shelved.measured.rising member
      exact (shelved.onDisk e member).frame frame (by omega)
    · rw [List.mem_singleton.mp member]
      exact ⟨⟨_, [], log, rfl, Or.inl rfl⟩, fun file found => Or.inl (index file found)⟩
  · intro base found
    by_cases same : base = J.logEnd
    · exact ⟨J.roll.activeExtent, J.roll.active_mem, by rw [Journal.roll_activeExtent, same]⟩
    · rw [(frame base same).1] at found
      obtain ⟨e, member, start⟩ := shelved.only base found
      refine ⟨e, List.mem_append_left _ ?_, start⟩
      rw [Journal.roll_closedExtents]
      exact member
  · intro base above
    rw [Journal.roll_activeBase] at above
    rw [(frame base (by omega)).2]
    exact shelved.above base (by omega)

theorem Ready.touched (ready : Ready interval J s d) (nonempty : J.active ≠ [])
    (touched : Touched J.logEnd d d') :
    Shelf interval d' := by
  obtain ⟨noLog, noIndex⟩ := ready.nextFiles nonempty
  have frame := touched.frame
  have log : (d.touch (.log J.logEnd)).file? (.log J.logEnd) = Option.some ⟨[], []⟩ :=
    file?_touch_missing noLog
  have unindexed : (d.touch (.log J.logEnd)).file? (.index J.logEnd) = none := by
    rw [file?_touch_other (by simp), noIndex]
  refine Or.inr ?_
  cases touched with
  | nothing => exact ⟨J, ready.shelved⟩
  | log =>
    exact ⟨J.roll,
      ready.shelved.created nonempty frame log
        fun file found => by rw [unindexed] at found; cases found⟩
  | both =>
    refine ⟨J.roll, ready.shelved.created nonempty frame (by rw [file?_touch_other (by simp), log])
      fun file found => ?_⟩
    rw [file?_touch_missing unindexed, Option.some.injEq] at found
    rw [← found]

end Ready

/-! ## The rollover -/

section Rolling

variable {allowed : Fault → Prop} {interval : Int} {J : Journal} {s : Store} {d : Directory}

theorem meets_flushActive_any {post : Post Store Directory StoreError Unit}
    (returns : ∀ dirty d',
      Flushed d d' → post.returns () (s.setActive { s.active with indexDirty := dirty }) d')
    (fails : ∀ reason d', Flushed d d' → post.fails reason s d')
    (dies : ∀ d', Flushed d d' → post.dies d') :
    Meets allowed flushActive s d post := by
  unfold flushActive
  apply Meets.bind
  apply Meets.memory
  apply Meets.bind
  refine meets_segmentFlush ?_ (fun reason d' _ flushed => fails reason d' flushed)
    (fun _ d' flushed => dies d' flushed)
  intro dirty d' flushed _
  dsimp only
  apply Meets.modify
  exact returns dirty d' flushed

theorem meets_rollSegment_sampled {batchSize : Nat} {post : Post Store Directory StoreError Unit}
    (ready : Ready interval J s d) (stays : ¬ s.rolls batchSize → post.returns () s d)
    (rolls : s.rolls batchSize → ∀ s' d', Ready interval J.roll s' d' → post.returns () s' d')
    (fails : ∀ reason s' d', Stuck interval s' d' → post.fails reason s' d')
    (dies : ∀ d', Shelf interval d' → post.dies d') :
    Meets allowed (rollSegment batchSize) s d post := by
  unfold rollSegment
  apply Meets.bind
  apply Meets.memory
  dsimp only
  by_cases full : 0 < s.active.size ∧ s.config.segmentMaxBytes < s.active.size + batchSize
  case neg =>
    rw [if_neg full]
    exact Meets.pure (stays full)
  rw [if_pos full]
  have nonempty : J.active ≠ [] := by
    intro empty
    have positive := full.1
    rw [ready.active.size, Journal.activeExtent, Extent.bytes, empty] at positive
    exact absurd positive (by simp [layout, spread])
  apply Meets.bind
  apply Meets.onError
  refine meets_flushActive_any ?_ ?_ ?_
  · intro dirty d' flushed
    have flushedReady := ready.sameSegments flushed.sameSegments
    have after : Ready interval J (s.setActive { s.active with indexDirty := dirty }) d' :=
      flushedReady.setActive { flushedReady.active with }
    generalize s.setActive { s.active with indexDirty := dirty } = t at after
    apply Meets.bind
    apply Meets.modify
    have closed : Ready interval J (t.setActive { t.active with active := false }) d' :=
      after.setActive { after.active with }
    generalize t.setActive { t.active with active := false } = t' at closed
    apply Meets.bind
    apply Meets.onError
    rw [ready.logEndOffset]
    refine meets_newSegment ?_ ?_ (fun _ d'' touched => dies d'' (closed.touched nonempty touched))
    · intro log index foundLog foundIndex
      obtain ⟨noLog, noIndex⟩ := closed.nextFiles nonempty
      have frame : Frame J.logEnd d' ((d'.touch (.log J.logEnd)).touch (.index J.logEnd)) :=
        Touched.both.frame
      have unindexed : ∀ file, d'.file? (.index J.logEnd) = Option.some file → file.data = [] :=
        fun file found => by
        rw [noIndex] at found
        cases found
      obtain ⟨rfl, empty⟩ := created_empty noLog unindexed foundLog foundIndex
      have shelved := closed.shelved.created nonempty frame foundLog fun file found => by
        rw [foundIndex, Option.some.injEq] at found
        rw [← found, empty]
      dsimp only
      apply Meets.modify
      refine rolls full _ _ ⟨closed.setting, closed.limit, shelved.measured, ?_, ?_, ?_,
        shelved.only, shelved.above⟩
      · rw [Journal.extents, Journal.roll_closedExtents, Journal.roll_activeExtent]
        refine List.rel_append
          (indexed_all closed.segments fun e member _ indexed => indexed.frame (frame e.base ?_))
          (.cons (indexed_created true noLog unindexed foundLog foundIndex) .nil)
        have bound := J.base_le closed.measured.rising member
        have less := closed.measured.activeBase_lt nonempty
        omega
      · show t'.segments.length = (J.closed ++ [J.active]).length
        rw [← closed.segments.length_eq, J.extents_eq, extentsFrom_length]
      · rw [Journal.roll_logEnd]
        exact closed.logEndOffset
    · intro _ operation d'' touched
      refine meets_poison
        (fails _ _ _ ⟨rfl, ⟨J, closed.measured, ?_⟩, closed.touched nonempty touched⟩)
      refine indexed_all closed.segments
        fun e member _ indexed => (indexed.frame (touched.frame e.base ?_)).unfinished
      have bound := J.base_le closed.measured.rising member
      have less := closed.measured.activeBase_lt nonempty
      omega
  · intro reason d' flushed
    exact meets_poison (fails _ _ _ (ready.sameSegments flushed.sameSegments).stuck)
  · exact fun d' flushed => dies d' (Or.inr ⟨J, (ready.sameSegments flushed.sameSegments).shelved⟩)

end Rolling

/-! ## The batch and its index entry -/

section Writing

variable {script : List Fault} {place : Nat} {interval : Int} {J : Journal} {s : Store}
  {d : Directory} {b : Batch}

theorem goes_indexBatch_sampled {init : List Segment} {seg : Segment} {e : Extent}
    {exits : Exits Store Directory StoreError Unit}
    (setting : s.config.indexIntervalBytes = interval) (split : s.segments = init ++ [seg])
    (active : s.activeSegment = init.length) (size : seg.size = (e.extend b).bytes.length)
    (indexed : Indexed interval (· = b.bytes e.next) e { seg with size := e.bytes.length } d)
    (passes : s.due e.bytes.length → faultAt script place = .pass)
    (returns : ∀ next seg' d', Indexed interval (· = []) (e.extend b) seg' d' → Frame e.base d d' →
      exits.returns () next { s with segments := init ++ [seg'] } d') :
    Goes script place (indexBatch (span e.batches) e.bytes.length) s d exits := by
  obtain ⟨file, left, found, content, rfl⟩ := indexed.log
  obtain ⟨index, foundIndex, entries⟩ := indexed.index
  rw [← Extent.extend_bytes] at content
  have step := e.sampled_extend interval b
  rw [← indexed.sampled, sampleStep] at step
  unfold indexBatch
  apply Goes.bind
  apply Goes.memory
  dsimp only
  unfold Store.due at passes
  rw [Store.active_last split active, setting] at passes ⊢
  by_cases due : seg.indexEntries = [] ∨ interval ≤ e.bytes.length - seg.lastIndexedPosition
  · have passed := passes due
    have path : seg.indexPath = .index e.base := by
      rw [Segment.indexPath, show seg.baseOffset = e.base from indexed.base]
    rw [if_pos due] at step ⊢
    unfold Segment.appendIndexEntry
    apply Goes.bind
    apply Goes.bind
    apply Goes.attempt
    refine goes_writeAt ?_ ?_ ?_
    · intro _ _
      apply Goes.pure
      dsimp only
      apply Goes.modify
      rw [Store.setActive_last _ split active,
        writeFile_found (by rw [← foundIndex]; exact congrArg d.file? path)]
      have position : seg.indexSize = index.data.length := by
        rw [entries, encodeEntries_length]
        exact indexed.indexSize
      refine returns _ _ _ ⟨indexed.base, size, step.symm, ?_,
        ⟨file, [], ?_, by rw [content, List.append_nil], rfl⟩, ?_⟩ ?_
      · show seg.indexSize + 12 = (seg.indexEntries ++ [_]).length * 12
        rw [show seg.indexSize = seg.indexEntries.length * 12 from indexed.indexSize,
          List.length_append, List.length_singleton]
        omega
      · rw [file?_put_other (by simp [Segment.indexPath])]
        exact found
      · refine ⟨{ index with
          data := overwrite index.data seg.indexSize
            (IndexEntry.encode ⟨span e.batches, e.bytes.length⟩) }, ?_, ?_⟩
        · show (d.put seg.indexPath _).file? (.index e.base) = _
          rw [path, file?_put_self]
        · show overwrite _ _ _ = encodeEntries (seg.indexEntries ++ [_])
          rw [position, overwrite_end, entries, encodeEntries_append]
          simp [encodeEntries]
      · intro other differs
        refine ⟨file?_put_other (by simp [Segment.indexPath]), file?_put_other ?_⟩
        show FileName.index other ≠ seg.indexPath
        rw [path]
        simpa using differs
    · intro _ stopped
      refine absurd stopped (not_or.mpr ⟨not_not.mpr passed, ?_⟩)
      show d.file? seg.indexPath ≠ none
      rw [path, foundIndex]
      simp
    · intro written died
      rw [passed] at died
      cases died
  · rw [if_neg due] at step ⊢
    have unchanged : { s with segments := init ++ [seg] } = s := by rw [← split]
    have kept := returns place seg d ⟨indexed.base, size, step.symm, indexed.indexSize,
      ⟨file, [], found, by rw [content, List.append_nil], rfl⟩, index, foundIndex, entries⟩
      (Frame.refl _ _)
    rw [unchanged] at kept
    exact Goes.pure kept

theorem goes_segmentAppend {μ : Type} {m : μ} {seg : Segment} {file : File} {data : Bytes}
    {exits : Exits μ Directory StoreError (Segment × Nat)} (found : d.file? seg.path = some file)
    (size : seg.size = file.data.length)
    (returns : faultAt script place = .pass →
      exits.returns ({ seg with size := seg.size + data.length }, seg.size) (place + 1) m
      (d.put seg.path { file with data := file.data ++ data }))
    (fails : ∀ reason next written, written ≤ data.length - 1 →
      exits.fails reason next m
        (d.put seg.path { file with data := file.data ++ data.take written }))
    (dies : ∀ written, faultAt script place = .die written → ∀ d', exits.dies d') :
    Goes script place (seg.append data) m d exits := by
  have goes : Goes script place (seg.append data) m d
      ⟨fun _ next _ _ => faultAt script place = .pass ∧ next = place + 1, fun _ _ _ _ => True,
       fun _ => ∃ written, faultAt script place = .die written⟩ := by
    unfold Segment.append
    apply Goes.bind
    exact goes_writeAt (fun passed _ => Goes.pure ⟨passed, rfl⟩) (fun _ _ _ _ _ => trivial)
      fun written died _ => ⟨written, died⟩
  have meets : Meets (fun _ => True) (seg.append data) m d
      ⟨fun value m' d' => value = ({ seg with size := seg.size + data.length }, seg.size) ∧ m' = m ∧
          d' = d.put seg.path { file with data := file.data ++ data },
       fun _ m' d' => m' = m ∧ ∃ written ≤ data.length - 1,
          d' = d.put seg.path { file with data := file.data ++ data.take written },
       fun _ => True⟩ :=
    meets_segmentAppend found size ⟨rfl, rfl, rfl⟩
      (fun _ written short => ⟨rfl, written, short, rfl⟩) fun _ _ => trivial
  refine (goes.both (fun _ _ => trivial) meets).mono ?_ ?_ ?_
  · rintro _ _ _ _ ⟨⟨passed, rfl⟩, rfl, rfl, rfl⟩
    exact returns passed
  · rintro reason next _ _ ⟨_, rfl, written, short, rfl⟩
    exact fails reason next written short
  · rintro d' ⟨⟨written, died⟩, _⟩
    exact dies written died d'

theorem Ready.extended {init : List Segment} {seg : Segment} {d' : Directory}
    (ready : Ready interval J s d)
    (closed : List.Forall₂ (fun e seg => Indexed interval (· = []) e seg d) J.closedExtents init)
    (longer : (J.extend b).Measured)
    (indexed : Indexed interval (· = []) (J.activeExtent.extend b) seg d')
    (frame : Frame J.activeBase d d') :
    Ready interval (J.extend b)
      { s with segments := init ++ [seg], logEndOffset := J.logEnd + b.records.length } d' := by
  have ordered := ready.measured.rising
  refine ⟨ready.setting, ready.limit, longer, ?_, ready.activeSegment, (J.extend_logEnd b).symm, ?_,
    ?_⟩
  · refine List.rel_append
      (indexed_all closed fun e member _ known => known.frame (frame e.base ?_))
      (.cons indexed .nil)
    exact Nat.ne_of_lt (J.closed_lt ordered member)
  · intro base present
    by_cases same : base = J.activeBase
    · exact ⟨_, (J.extend b).active_mem, same.symm⟩
    · rw [(frame base same).1] at present
      obtain ⟨e, member, start⟩ := ready.only base present
      rcases List.mem_append.mp member with member | member
      · exact ⟨e, List.mem_append_left _ member, start⟩
      · rw [List.mem_singleton.mp member] at start
        exact absurd start.symm same
  · intro base above
    have beyond : J.activeBase < base := above
    rw [(frame base (by omega)).2]
    exact ready.above base beyond

theorem Indexed.advanced {init : List Segment} {seg : Segment} {file : File}
    (indexed : Indexed interval (· = []) J.activeExtent seg d) (split : s.segments = init ++ [seg])
    (place : s.activeSegment = init.length) (batch : b.Measured J.logEnd)
    (content : file.data = J.activeExtent.bytes) :
    ∃ grown : Segment,
      s.advance { seg with size := seg.size + (b.bytes J.logEnd).length } J.logEnd b.records.length
        b.time =
        { s with segments := init ++ [grown], logEndOffset := J.logEnd + b.records.length } ∧
      grown.indexEntries = seg.indexEntries ∧ grown.lastIndexedPosition = seg.lastIndexedPosition ∧
      grown.size = (J.activeExtent.extend b).bytes.length ∧
      Indexed interval (· = b.bytes J.activeExtent.next) J.activeExtent
        { grown with size := J.activeExtent.bytes.length }
        (d.put (.log J.activeBase) { file with data := file.data ++ b.bytes J.logEnd }) := by
  refine ⟨_, Store.advance_last _ split place batch.placed.someRecord batch.offsets, rfl, rfl, ?_,
    ?_⟩
  · rw [Extent.extend_bytes, List.length_append, indexed.size, J.logEnd_eq]
  · refine ⟨indexed.base, rfl, indexed.sampled, indexed.indexSize, ⟨_, _, file?_put_self, ?_, rfl⟩,
      ?_⟩
    · rw [content, J.logEnd_eq]
    · rw [file?_put_other (by simp)]
      exact indexed.index

theorem Ready.cut {file : File} {written : Nat} (ready : Ready interval J s d)
    (batch : b.Measured J.logEnd) (content : file.data = J.activeExtent.bytes)
    (short : written < b.size) :
    Stuck interval { s with writeFailed := true }
      (d.put (.log J.activeBase)
        { file with data := file.data ++ (b.bytes J.logEnd).take written }) := by
  have frame : Frame J.activeBase d
      (d.put (.log J.activeBase)
        { file with data := file.data ++ (b.bytes J.logEnd).take written }) := frame_put_log
  have left : Unfinished ((b.bytes J.logEnd).take written) :=
    Or.inr ⟨b, J.logEnd, written, batch.placed, batch.size, short, rfl⟩
  have segments : List.Forall₂ (fun e seg => Indexed interval Unfinished e seg
      (d.put (.log J.activeBase)
        { file with data := file.data ++ (b.bytes J.logEnd).take written })) J.extents
        s.segments := by
    refine indexed_all ready.segments fun e member seg indexed => ?_
    by_cases same : e.base = J.activeBase
    · have equal : e = J.activeExtent := J.same_base ready.measured.rising member J.active_mem same
      subst equal
      refine { indexed with log := ⟨_, _, file?_put_self, by rw [content], left⟩, index := ?_ }
      rw [file?_put_other (by simp)]
      exact indexed.index
    · exact (indexed.frame (frame e.base same)).unfinished
  refine ⟨rfl, ⟨J, ready.measured, segments⟩,
    Or.inr ⟨J, ready.shelved.change J.active_mem ?_ frame⟩⟩
  obtain ⟨_, _, _, _, _, indexed⟩ := J.split_last segments
  exact indexed.onDisk

theorem goes_poison {exits : Exits Store Directory StoreError Unit}
    (returns : exits.returns () place { s with writeFailed := true } d) :
    Goes script place poison s d exits :=
  Goes.modify returns

theorem goes_flushActive_sampled {exits : Exits Store Directory StoreError Unit}
    (ready : Ready interval J s d)
    (returns : ∀ next s' d', Ready interval J s' d' → exits.returns () next s' d')
    (fails : ∀ reason next s' d', Ready interval J s' d' → exits.fails reason next s' d')
    (dies : ∀ d', Shelved interval J d' → exits.dies d') :
    Goes script place flushActive s d exits := by
  have goes : Goes script place flushActive s d ⟨fun _ _ _ _ => True, fun _ _ _ _ => True,
      fun _ => True⟩ :=
    goes_flushActive ready.attached (fun _ _ _ => trivial) (fun _ _ _ _ => trivial)
      fun _ _ _ => trivial
  have meets : Meets (fun _ => True) flushActive s d
      ⟨fun _ s' d' => Ready interval J s' d', fun _ s' d' => Ready interval J s' d',
        Shelved interval J⟩ := by
    have flushed : ∀ d', Flushed d d' → Ready interval J s d' :=
      fun d' same => ready.sameSegments same.sameSegments
    refine meets_flushActive_any ?_ (fun _ d' same => flushed d' same)
      fun d' same => (flushed d' same).shelved
    exact fun dirty d' same => (flushed d' same).setActive { (flushed d' same).active with }
  exact (goes.both (fun _ _ => trivial) meets).mono
    (fun _ next s' d' both => returns next s' d' both.2)
    (fun reason next s' d' both => fails reason next s' d' both.2) fun d' both => dies d' both.2

theorem goes_writeEncoded_sampled {exits : Exits Store Directory StoreError (Nat × Nat)}
    (ready : Ready interval J s d) (batch : b.Measured J.logEnd)
    (position : J.activeExtent.bytes.length ≤ maxInt64)
    (alive : ∀ written, faultAt script place ≠ .die written)
    (passes : faultAt script place = .pass →
      s.due s.active.size → faultAt script (place + 1) = .pass)
    (returns : ∀ value next s' d',
      Ready interval (J.extend b) s' d' → exits.returns value next s' d')
    (fails : ∀ reason next s' d', Stuck interval s' d' → exits.fails reason next s' d')
    (dies : ∀ d', Shelf interval d' → exits.dies d') :
    Goes script place (writeEncoded J.logEnd b.records.length b.time (b.bytes J.logEnd)) s d
      exits := by
  obtain ⟨init, seg, split, active, closed, indexed⟩ := ready.split
  have distance : uint64 (J.logEnd - seg.baseOffset) = span J.active := by
    rw [indexed.base]
    exact J.distance ready.measured.logEnd_lt
  have path : seg.path = .log J.activeBase := by
    rw [Segment.path, indexed.base]
    rfl
  obtain ⟨file, _, found, content, rfl⟩ := indexed.log
  rw [List.append_nil] at content
  unfold writeEncoded
  apply Goes.bind
  apply Goes.memory
  dsimp only
  rw [Store.active_last split active] at passes ⊢
  rw [distance]
  by_cases far : maxUint32 < span J.active
  · rw [if_pos far]
    apply Goes.bind
    exact goes_poison (Goes.throw (fails _ _ _ _ ready.stuck))
  rw [if_neg far]
  have longer : (J.extend b).Measured := by
    refine ready.measured.extend batch ⟨?_, position⟩
    unfold maxUint32 at far
    dsimp only
    omega
  have length := batch.length
  have least := batch.size_ge
  apply Goes.bind
  apply Goes.onError
  refine goes_segmentAppend (by rw [path]; exact found) (by rw [indexed.size, content]) ?_ ?_ ?_
  · intro passed
    dsimp only
    rw [path]
    apply Goes.bind
    apply Goes.modify
    obtain ⟨grown, advanced, sameEntries, sameLast, size, lags⟩ :=
      indexed.advanced split active batch content
    rw [advanced, indexed.size]
    apply Goes.bind
    refine goes_indexBatch_sampled (e := J.activeExtent) (b := b) ready.setting rfl active size lags
      ?_ ?_
    · intro due
      refine passes passed ?_
      unfold Store.due at due ⊢
      rw [Store.active_last split active, indexed.size, ← sameEntries, ← sameLast]
      rwa [show Store.active
        { s with segments := init ++ [grown], logEndOffset := J.logEnd + b.records.length } = grown
        from
        Store.active_last rfl active] at due
    · intro next seg' d' indexed' frame
      have after := ready.extended closed longer indexed' (frame_put_log.trans frame)
      dsimp only
      by_cases mode : s.config.flushMode = .sync
      case neg =>
        rw [if_neg mode]
        exact Goes.bind (Goes.pure (Goes.pure (returns _ _ _ _ after)))
      rw [if_pos mode]
      apply Goes.bind
      apply Goes.onError
      exact goes_flushActive_sampled after
        (fun next s'' d'' flushed => Goes.pure (returns _ _ _ _ flushed))
        (fun reason next s'' d'' flushed => goes_poison (fails _ _ _ _ flushed.stuck))
        fun d'' shelved => dies d'' (Or.inr ⟨_, shelved⟩)
  · intro reason next written short
    rw [path]
    exact goes_poison (fails _ _ _ _ (ready.cut batch content (by omega)))
  · exact fun written died => absurd died (alive written)

end Writing

/-! ## The append -/

section Append

variable {script : List Fault} {interval : Int} {J : Journal} {s : Store} {d : Directory}

/-- An append that comes to its log's write does not die in it, and one that comes to its index
    entry writes it. -/
structure IndexWrites (s : Store) (batchSize : Nat) (script : List Fault) : Prop where
  alive : Passes script 0 (s.rollOperations batchSize) →
    ∀ written, faultAt script (s.rollOperations batchSize) ≠ .die written
  entry : Passes script 0 (s.rollOperations batchSize + 1) → s.indexes batchSize →
    faultAt script (s.rollOperations batchSize + 1) = .pass

theorem goes_appendEncoded_sampled {b : Batch}
    {exits : Exits Store Directory StoreError (Nat × Nat)} (ready : Ready interval J s d)
    (batch : b.Measured J.logEnd) (writes : IndexWrites s b.size script)
    (returns : ∀ J' value next s' d', Ready interval J' s' d' → exits.returns value next s' d')
    (fails : ∀ reason next s' d', Stuck interval s' d' → exits.fails reason next s' d')
    (dies : ∀ d', Shelf interval d' → exits.dies d') :
    Goes script 0 (appendEncoded J.logEnd b.records.length b.time (b.bytes J.logEnd)) s d
      exits := by
  have goes : Goes script 0 (rollSegment b.size) s d
      ⟨fun _ next _ _ => next = s.rollOperations b.size ∧ Passes script 0 (s.rollOperations b.size),
       fun _ _ _ _ => True, fun _ => True⟩ :=
    goes_rollSegment ready.attached (fun passes _ _ _ _ => ⟨rfl, passes⟩)
      (fun _ _ _ _ _ _ => trivial) fun _ _ => trivial
  have meets : Meets (fun _ => True) (rollSegment b.size) s d
      ⟨fun _ s' d' =>
        ¬ s.rolls b.size ∧ s' = s ∧ d' = d ∨ s.rolls b.size ∧ Ready interval J.roll s' d',
       fun _ => Stuck interval, Shelf interval⟩ :=
    meets_rollSegment_sampled ready (fun stays => Or.inl ⟨stays, rfl, rfl⟩)
      (fun rolls _ _ after => Or.inr ⟨rolls, after⟩) (fun _ _ _ stuck => stuck) fun _ shelf => shelf
  have entry : Passes script 0 (s.rollOperations b.size) →
      faultAt script (s.rollOperations b.size) = .pass →
      s.indexes b.size → faultAt script (s.rollOperations b.size + 1) = .pass :=
      fun before passed =>
    writes.entry (passes_split.mpr ⟨before, passes_one.mpr (by rw [Nat.zero_add]; exact passed)⟩)
  unfold appendEncoded
  rw [batch.length]
  apply Goes.bind
  refine (goes.both (fun _ _ => trivial) meets).mono ?_ (fun _ _ _ _ both => fails _ _ _ _ both.2)
    fun _ both => dies _ both.2
  rintro _ _ s' d' ⟨⟨rfl, passes⟩, ⟨stays, rfl, rfl⟩ | ⟨rolls, after⟩⟩
  · refine goes_writeEncoded_sampled ready batch ?_ (writes.alive passes)
      (fun passed due => entry passes passed (Or.inr due))
      (fun value next s' d' => returns _ value next s' d') fails dies
    have limit := ready.limit
    unfold Store.rolls at stays
    rw [← ready.active.size]
    omega
  · rw [← J.roll_logEnd] at batch ⊢
    refine goes_writeEncoded_sampled after batch ?_ (writes.alive passes)
      (fun passed _ => entry passes passed (Or.inl rolls))
      (fun value next s' d' => returns _ value next s' d') fails dies
    rw [J.roll_activeExtent]
    exact Nat.zero_le _

/-- An append leaves a store whose indexes are the sampled ones. -/
theorem goes_append_sampled {now : Instant} {records : List Record} (ready : Ready interval J s d)
    (room : s.logEndOffset + records.length < 2 ^ 64)
    (small : s.Takes ⟨unixMilli now, records⟩ → Batch.size ⟨unixMilli now, records⟩ < 2 ^ 32 + 9)
    (writes : s.Takes ⟨unixMilli now, records⟩ →
      IndexWrites s (Batch.size ⟨unixMilli now, records⟩) script) :
    Goes script 0 (append now records) s d
      ⟨fun _ _ s' d' => ∃ J', Ready interval J' s' d',
        fun _ _ s' d' => (∃ J', Ready interval J' s' d') ∨ Stuck interval s' d',
       Shelf interval⟩ := by
  have same : (∃ J', Ready interval J' s d) ∨ Stuck interval s d := Or.inl ⟨J, ready⟩
  unfold append
  by_cases empty : records = []
  · rw [if_pos empty]
    exact Goes.throw same
  rw [if_neg empty]
  apply Goes.bind
  apply Goes.memory
  dsimp only
  split_ifs with closed poisoned
  · exact Goes.throw same
  · exact Goes.throw same
  obtain ⟨encoded, length⟩ :=
    Batch.encode_stored (b := ⟨unixMilli now, records⟩) s.logEndOffset empty
  rw [Batch.stored] at encoded
  rw [encoded]
  dsimp only
  rw [length]
  split_ifs with large
  · exact Goes.throw same
  have takes : s.Takes ⟨unixMilli now, records⟩ :=
    ⟨empty, by simpa using closed, by simpa using poisoned, not_lt.mp large⟩
  rw [ready.logEndOffset] at room ⊢
  exact goes_appendEncoded_sampled (b := ⟨unixMilli now, records⟩) ready
    ⟨⟨empty, int64_range _, by omega⟩, small takes, room⟩ (writes takes)
    (fun J' _ _ s' d' after => ⟨J', after⟩) (fun _ _ _ _ stuck => Or.inr stuck) fun _ shelf => shelf

end Append

end MessageBroker.Storage
