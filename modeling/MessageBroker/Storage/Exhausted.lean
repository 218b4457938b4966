import MessageBroker.Storage.HealthyDisk

namespace MessageBroker.Storage

open Faulty Program

section Exhausted

variable {J : Journal} {s : Store} {d : Directory} {limit : Int} {b : Batch} {now : Instant}

theorem meets_indexBatch_logEnd {relative position : Nat}
    {post : Post Store Directory StoreError Unit}
    (returns : ∀ s' d', s'.logEndOffset = s.logEndOffset → post.returns () s' d') :
    Meets never (indexBatch relative position) s d post := by
  unfold indexBatch
  apply Meets.bind
  apply Meets.memory
  dsimp only
  split_ifs
  · apply Meets.bind
    unfold Segment.appendIndexEntry
    apply Meets.bind
    apply Meets.attempt
    apply Meets.operate
    · dsimp only
      cases d.file? _ with
      | none =>
        refine Meets.pure ?_
        dsimp only
        exact Meets.modify (returns _ _ rfl)
      | some file =>
        refine Meets.pure ?_
        dsimp only
        exact Meets.modify (returns _ _ rfl)
    · exact fun _ impossible => impossible.elim
    · exact fun _ impossible => impossible.elim
  · exact Meets.pure (returns s d rfl)

/-- The batch that takes the last offset is written, and the log's end is zero again. -/
theorem Represents.meets_writeLast {encoded : Bytes} {count : Nat} {time : Int}
    (represents : Represents limit J s d) (mode : s.config.flushMode = .async)
    (near : span J.active ≤ maxUint32) (last : J.logEnd + count = 2 ^ 64) :
    Meets never (writeEncoded J.logEnd count time encoded) s d
      ⟨fun _ s' _ => s'.logEndOffset = 0, fun _ _ _ => False, fun _ => False⟩ := by
  obtain ⟨init, seg, split, place, closed, mirrors⟩ := represents.split
  obtain ⟨file, found, content⟩ := mirrors.log
  have distance : uint64 (J.logEnd - seg.baseOffset) = span J.active := by
    rw [mirrors.base]
    exact J.distance represents.valid.logEnd_lt
  unfold writeEncoded
  apply Meets.bind
  apply Meets.memory
  dsimp only
  rw [Store.active_last split place, distance, if_neg (not_lt.mpr near)]
  apply Meets.bind
  apply Meets.onError
  refine meets_segmentAppend (by rw [Segment.path, mirrors.base, found])
    (by rw [mirrors.size, content]) ?_ (fun shaky => absurd shaky not_shaky_never)
    (fun shaky => absurd shaky not_shaky_never)
  dsimp only
  apply Meets.bind
  apply Meets.modify
  apply Meets.bind
  refine meets_indexBatch_logEnd fun s' d' same => ?_
  dsimp only
  rw [mode, if_neg (by simp)]
  refine Meets.bind (Meets.pure (Meets.pure ?_))
  dsimp only
  rw [same]
  show uint64 (uint64 (J.logEnd + count - 1) + 1) = 0
  rw [show ((J.logEnd : Int) + count - 1) = (J.logEnd + count - 1 : Nat) by omega,
    uint64_of_nat (by omega), show (((J.logEnd + count - 1 : Nat) : Int) + 1) = 2 ^ 64 by omega]
  decide

theorem Represents.append_last (represents : Represents limit J s d)
    (stamp : b.time = unixMilli now) (mode : s.config.flushMode = .async)
    (bound : s.config.segmentMaxBytes < segmentBytesBound) (takes : s.Takes b)
    (last : J.logEnd + b.records.length = 2 ^ 64) :
    ∃ value s' d', append now b.records ⟨s, d, []⟩ = (.ok value, ⟨s', d', []⟩) ∧
      s'.logEndOffset = 0 := by
  obtain ⟨nonempty, closed, running, size⟩ := takes
  have meets : Meets never (append now b.records) s d
      ⟨fun _ s' _ => s'.logEndOffset = 0, fun _ _ _ => False, fun _ => False⟩ := by
    obtain ⟨encoded, length⟩ := b.encode_stored J.logEnd nonempty
    have stamped : stampRecords J.logEnd (unixMilli now) b.records = b.stored J.logEnd := by
      rw [← stamp, Batch.stored]
    unfold append
    rw [if_neg nonempty]
    apply Meets.bind
    apply Meets.memory
    dsimp only
    rw [if_neg (by simp [closed]), if_neg (by simp [running]), represents.logEndOffset, stamped,
      encoded]
    dsimp only
    rw [length, if_neg (not_lt.mpr size)]
    apply Meets.bind
    rw [length]
    refine meets_rollSegment (P := quietPolicy limit) represents (le_refl _) ?_ ?_
      (fun shaky => absurd shaky not_shaky_never) (fun shaky => absurd shaky not_shaky_never)
    · exact fun stays =>
        represents.meets_writeLast mode (represents.valid.near bound nonempty stays) last
    · intro _ s' d' after keeps
      rw [← J.roll_logEnd] at last ⊢
      exact after.meets_writeLast (by rw [keeps.config]; exact mode) (Nat.zero_le _) last
  obtain ⟨value, s', d', ran, zero⟩ :=
    meets.succeeds (fun _ _ _ impossible => impossible) (fun _ impossible => impossible)
  exact ⟨value, s', d', ran, zero⟩

end Exhausted

end MessageBroker.Storage
