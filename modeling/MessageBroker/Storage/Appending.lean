import MessageBroker.Storage.Represent

namespace MessageBroker.Storage

open Faulty Program BigEndian

/-- A step of the store that is neither a failure nor a change of its settings. -/
structure Keeps (s s' : Store) : Prop where
  config : s'.config = s.config
  closed : s'.closed = s.closed
  writeFailed : s'.writeFailed = s.writeFailed

theorem Keeps.refl (s : Store) : Keeps s s := ⟨rfl, rfl, rfl⟩

theorem Keeps.trans {s s' s'' : Store} (first : Keeps s s') (second : Keeps s' s'') : Keeps s s'' :=
  ⟨second.config.trans first.config, second.closed.trans first.closed,
    second.writeFailed.trans first.writeFailed⟩

structure Poisoned (P : Policy) (J : Journal) (s s' : Store) (d : Directory) : Prop where
  config : s'.config = s.config
  closed : s'.closed = s.closed
  writeFailed : s'.writeFailed = true
  logEndOffset : s'.logEndOffset = J.logEnd
  earliestOffset : s'.earliestOffset = J.floor
  disk : Holds P J d

theorem Poisoned.after {P : Policy} {J : Journal} {s s' s'' : Store} {d : Directory}
    (keeps : Keeps s s') (poisoned : Poisoned P J s' s'' d) : Poisoned P J s s'' d :=
  { poisoned with
    config := poisoned.config.trans keeps.config
    closed := poisoned.closed.trans keeps.closed }

section Rolling

variable {allowed : Fault → Prop} {limit : Int} {J : Journal} {s : Store} {d : Directory}
  {P : Policy}

theorem Represents.activeFiles (represents : Represents limit J s d) :
    d.file? s.active.path ≠ none ∧ d.file? s.active.indexPath ≠ none := by
  obtain ⟨init, seg, split, place, _, mirrors⟩ := represents.split
  obtain ⟨log, foundLog, _⟩ := mirrors.log
  obtain ⟨index, _, foundIndex, _, _⟩ := mirrors.index
  rw [Store.active_last split place, Segment.path, Segment.indexPath, mirrors.base, foundLog,
    foundIndex]
  simp

theorem meets_flushActive {post : Post Store Directory StoreError Unit}
    (represents : Represents limit J s d)
    (returns : ∀ s' d', Represents limit J s' d' → Keeps s s' → Flushed d d' →
      (∃ log, d'.file? (.log J.activeBase) = some log ∧ log.synced = log.data) →
        post.returns () s' d')
    (fails : Shaky allowed →
      ∀ d', Represents limit J s d' → Flushed d d' → post.fails (.io .sync) s d')
    (dies : Shaky allowed → ∀ d', Represents limit J s d' → Flushed d d' → post.dies d') :
    Meets allowed flushActive s d post := by
  obtain ⟨init, seg, split, place, closed, mirrors⟩ := represents.split
  have present := represents.activeFiles
  unfold flushActive
  apply Meets.bind
  apply Meets.memory
  apply Meets.bind
  refine meets_segmentFlush ?_ ?_
    fun shaky d' flushed => dies shaky d' (represents.sameSegments flushed.sameSegments) flushed
  · intro dirty d' flushed synced
    dsimp only
    apply Meets.modify
    have after := represents.sameSegments flushed.sameSegments
    rw [Store.active_last split place] at synced ⊢
    rw [Store.setActive_last _ split place]
    refine returns _ d' ?_ ⟨rfl, rfl, rfl⟩ flushed (by rwa [Segment.path, mirrors.base] at synced)
    refine Represents.join after.valid after.limit rfl place ?_ ?_
      after.logEndOffset after.earliestOffset after.only after.above
    · exact mirrors_all closed fun _ _ _ known => known.sameSegments flushed.sameSegments
    · exact { mirrors.sameSegments flushed.sameSegments with }
  · intro reason d' cause flushed
    rcases cause with ⟨shaky, rfl⟩ | nothing | nothing
    · exact fails shaky d' (represents.sameSegments flushed.sameSegments) flushed
    · exact absurd nothing present.1
    · exact absurd nothing present.2

theorem Journal.Valid.base_le (valid : J.Valid) {e : Extent} (member : e ∈ J.extents) :
    e.base ≤ J.activeBase :=
  J.base_le valid.rising member

theorem Journal.activeBase_lt (filled : ∀ b ∈ J.active, b.records ≠ []) (nonempty : J.active ≠ []) :
    J.activeBase < J.logEnd := by
  rw [J.logEnd_eq]
  exact @Extent.base_lt_next J.activeExtent filled nonempty

theorem Journal.Valid.activeBase_lt (valid : J.Valid) (nonempty : J.active ≠ []) :
    J.activeBase < J.logEnd :=
  J.activeBase_lt (valid.extents _ J.active_mem).filled nonempty

theorem Represents.nextFiles (represents : Represents limit J s d) (nonempty : J.active ≠ []) :
    d.file? (.log J.logEnd) = none ∧ d.file? (.index J.logEnd) = none := by
  have less := represents.valid.activeBase_lt nonempty
  refine ⟨?_, represents.above _ less⟩
  by_contra found
  obtain ⟨e, member, base⟩ := represents.only _ found
  have bound := represents.valid.base_le member
  omega

theorem Represents.created {d' : Directory} (represents : Represents limit J s d)
    (le : limit ≤ P.limit) (nonempty : J.active ≠ []) (frame : Frame J.logEnd d d')
    (log : d'.file? (.log J.logEnd) = Option.some ⟨[], []⟩)
    (index : ∀ file, d'.file? (.index J.logEnd) = Option.some file → file = ⟨[], []⟩) :
    Laid P J.roll d' := by
  have less := represents.valid.activeBase_lt nonempty
  refine ⟨represents.valid.roll nonempty, ?_, ?_, ?_, ?_, ?_⟩
  · rw [Journal.roll_batches]
    intro b member
    have small := represents.limit b member
    omega
  · rw [Journal.roll_closedExtents]
    intro e member
    obtain ⟨seg, _, mirrors⟩ := mem_mirrored represents.segments member
    have bound := represents.valid.base_le member
    have onDisk : OnDisk P.index (· = []) e d :=
      mirrors.onDisk (represents.valid.extents e member) rfl
    exact onDisk.frame frame (by omega)
  · rw [Journal.roll_activeExtent]
    refine ⟨⟨_, [], log, rfl, P.tail_nil _⟩, ?_⟩
    intro file found
    rw [index file found]
    refine P.index_holds _ [] [] ?_ (indexHolds_nil _)
    exact ⟨represents.valid.logEnd_lt, trivial,
      fun before b after split => by cases before <;> cases split⟩
  · intro base found
    by_cases same : base = J.logEnd
    · exact ⟨J.roll.activeExtent, J.roll.active_mem, by rw [Journal.roll_activeExtent, same]⟩
    · rw [(frame base same).1] at found
      obtain ⟨e, member, start⟩ := represents.only base found
      refine ⟨e, List.mem_append_left _ ?_, start⟩
      rw [Journal.roll_closedExtents]
      exact member
  · intro base above
    rw [Journal.roll_activeBase] at above
    rw [(frame base (by omega)).2]
    exact represents.above base (by omega)

/-- While a new segment's files appear the directory holds the journal before the roll or after
    it. -/
theorem Represents.touched {d' : Directory} (represents : Represents limit J s d)
    (le : limit ≤ P.limit) (nonempty : J.active ≠ []) (touched : Touched J.logEnd d d') :
    Laid P J d' ∨ Laid P J.roll d' := by
  obtain ⟨noLog, noIndex⟩ := represents.nextFiles nonempty
  have frame := touched.frame
  have log : (d.touch (.log J.logEnd)).file? (.log J.logEnd) = Option.some ⟨[], []⟩ :=
    file?_touch_missing noLog
  have unindexed : (d.touch (.log J.logEnd)).file? (.index J.logEnd) = none := by
    rw [file?_touch_other (by simp), noIndex]
  cases touched with
  | nothing => exact Or.inl (represents.laid le)
  | log =>
    exact Or.inr (represents.created le nonempty frame log
      fun file found => by rw [unindexed] at found; cases found)
  | both =>
    refine Or.inr (represents.created le nonempty frame (by rw [file?_touch_other (by simp), log])
      fun file found => ?_)
    rw [file?_touch_missing unindexed, Option.some.injEq] at found
    exact found.symm

theorem Represents.activeSize (represents : Represents limit J s d) :
    s.active.size = J.activeExtent.bytes.length := by
  obtain ⟨init, seg, split, place, _, mirrors⟩ := represents.split
  rw [Store.active_last split place, mirrors.size]

theorem meets_poison {post : Post Store Directory StoreError Unit}
    (returns : post.returns () { s with writeFailed := true } d) : Meets allowed poison s d post :=
  Meets.modify returns

theorem Journal.Rolls.active {segmentMaxBytes : Int} {batchSize : Nat}
    (rolls : J.Rolls segmentMaxBytes batchSize) :
    J.active ≠ [] := by
  intro empty
  have positive := rolls.1
  rw [Journal.activeExtent, Extent.bytes, empty] at positive
  exact absurd positive (by simp [layout, spread])

/-- A new segment is added exactly when the active one would grow too large. -/
theorem meets_rollSegment {batchSize : Nat} {post : Post Store Directory StoreError Unit}
    (represents : Represents limit J s d) (le : limit ≤ P.limit)
    (stays : ¬ J.Rolls s.config.segmentMaxBytes batchSize → post.returns () s d)
    (rolls : J.Rolls s.config.segmentMaxBytes batchSize →
      ∀ s' d', Represents limit J.roll s' d' → Keeps s s' →
      post.returns () s' d')
    (fails : Shaky allowed → J.Rolls s.config.segmentMaxBytes batchSize → ∀ operation s' d',
      Poisoned P J s s' d' ∨ Poisoned P J.roll s s' d' → post.fails (.io operation) s' d')
    (dies : Shaky allowed →
      J.Rolls s.config.segmentMaxBytes batchSize → ∀ d', Holds P J d' ∨ Holds P J.roll d' →
      post.dies d') :
    Meets allowed (rollSegment batchSize) s d post := by
  unfold rollSegment
  apply Meets.bind
  apply Meets.memory
  dsimp only
  rw [represents.activeSize]
  by_cases full : 0 < J.activeExtent.bytes.length ∧
    s.config.segmentMaxBytes < J.activeExtent.bytes.length + batchSize
  case neg =>
    rw [if_neg full]
    exact Meets.pure (stays full)
  rw [if_pos full]
  have nonempty := Journal.Rolls.active full
  apply Meets.bind
  apply Meets.onError
  refine meets_flushActive represents ?_ ?_
    (fun shaky d' after _ => dies shaky full d' (Or.inl (Or.inl (after.laid le))))
  · intro s' d' after keeps _ _
    obtain ⟨init, seg, split, place, closed, mirrors⟩ := after.split
    apply Meets.bind
    apply Meets.modify
    rw [Store.active_last split place, Store.setActive_last _ split place]
    have again : Represents limit J { s' with segments := init ++ [{ seg with active := false }] }
      d' :=
      Represents.join after.valid after.limit rfl place closed { mirrors with } after.logEndOffset
        after.earliestOffset after.only after.above
    apply Meets.bind
    apply Meets.onError
    rw [represents.logEndOffset]
    have created : ∀ d'', Touched J.logEnd d' d'' → Holds P J d'' ∨ Holds P J.roll d'' :=
      fun d'' touched => (after.touched le nonempty touched).imp Or.inl Or.inl
    refine meets_newSegment ?_ ?_
      (fun shaky d'' touched => dies shaky full d'' (created d'' touched))
    · intro log index foundLog foundIndex
      have files := after.nextFiles nonempty
      have mirrorsNew :=
        mirrors_created true files.1 (fun file found => by rw [files.2] at found; cases found)
          foundLog foundIndex
      have frame : Frame J.logEnd d' ((d'.touch (.log J.logEnd)).touch (.index J.logEnd)) :=
        Touched.both.frame
      have less := after.valid.activeBase_lt nonempty
      have laid : Laid P J.roll ((d'.touch (.log J.logEnd)).touch (.index J.logEnd)) := by
        refine after.created le nonempty frame ?_ ?_
        · rw [file?_touch_other (by simp), file?_touch_missing files.1]
        · intro file found
          rw [file?_touch_missing (by rw [file?_touch_other (by simp), files.2]), Option.some.injEq]
            at found
          exact found.symm
      dsimp only
      apply Meets.modify
      refine rolls full _ _ ?_ ⟨keeps.config, keeps.closed, keeps.writeFailed⟩
      refine Represents.join laid.valid (by rw [J.roll_batches]; exact after.limit) rfl rfl ?_ ?_
        (by rw [J.roll_logEnd]; exact after.logEndOffset) after.earliestOffset laid.only laid.above
      · rw [J.roll_closedExtents]
        exact mirrors_all again.segments fun e member _ known =>
          known.frame frame (by have bound := after.valid.base_le member; omega)
      · rw [J.roll_activeExtent]
        exact mirrorsNew
    · intro shaky operation d'' touched
      apply meets_poison
      refine fails shaky full _ _ d'' ((created d'' touched).imp (fun disk => ?_) fun disk => ?_)
      · exact ⟨keeps.config, keeps.closed, rfl, after.logEndOffset, after.earliestOffset, disk⟩
      · exact ⟨keeps.config, keeps.closed, rfl, by rw [J.roll_logEnd]; exact after.logEndOffset,
          after.earliestOffset, disk⟩
  · intro shaky d' after _
    apply meets_poison
    exact fails shaky full _ _ d'
      (Or.inl ⟨rfl, rfl, rfl, after.logEndOffset, after.earliestOffset, Or.inl (after.laid le)⟩)

end Rolling

end MessageBroker.Storage
