import MessageBroker.Storage.Appending
import MessageBroker.Storage.Retention

namespace MessageBroker.Storage

open Faulty Program

def Journal.shift (J : Journal) : Journal :=
  match J.closed with
  | [] => J
  | oldest :: rest => ⟨J.floor + span oldest, rest, J.active⟩

/-- A retention pass takes closed segments away, oldest first, each for a reason. -/
inductive Journal.Retains (reason : Journal → Prop) : Journal → Journal → Prop where
  | refl (J : Journal) : Retains reason J J
  | step {J J' : Journal} :
    J.closed ≠ [] → reason J → Retains reason J.shift J' → Retains reason J J'

section Shift

variable {J J' : Journal} {oldest : List Batch} {rest : List (List Batch)}

theorem Journal.shift_eq (split : J.closed = oldest :: rest) :
    J.shift = ⟨J.floor + span oldest, rest, J.active⟩ := by
  simp [Journal.shift, split]

theorem Journal.shift_extents (split : J.closed = oldest :: rest) :
    J.extents = ⟨J.floor, oldest⟩ :: J.shift.extents := by
  rw [Journal.extents_eq, Journal.extents_eq, split, Journal.shift_eq split]
  rfl

theorem Journal.shift_batches (split : J.closed = oldest :: rest) :
    J.batches = oldest ++ J.shift.batches := by
  rw [Journal.batches, Journal.batches, split, Journal.shift_eq split, List.flatten_cons,
    List.append_assoc]

theorem Journal.shift_activeBase (split : J.closed = oldest :: rest) :
    J.shift.activeBase = J.activeBase := by
  rw [Journal.activeBase, Journal.activeBase, split, Journal.shift_eq split]
  simp [Nat.add_assoc]

theorem Journal.shift_logEnd (split : J.closed = oldest :: rest) : J.shift.logEnd = J.logEnd := by
  rw [Journal.logEnd, Journal.logEnd, Journal.shift_batches split, Journal.shift_eq split,
    span_append, Nat.add_assoc]

theorem Journal.Valid.shift (valid : J.Valid) (split : J.closed = oldest :: rest) :
    J.shift.Valid := by
  refine ⟨?_, ?_⟩
  · intro e member
    apply valid.extents
    rw [Journal.shift_extents split]
    exact List.mem_cons_of_mem _ member
  · rw [Journal.shift_eq split]
    intro batches member
    exact valid.closed batches (by rw [split]; exact List.mem_cons_of_mem _ member)

theorem Journal.Retains.mono {reason weaker : Journal → Prop} (retains : J.Retains reason J')
    (le : ∀ J, reason J → weaker J) : J.Retains weaker J' := by
  induction retains with
  | refl J => exact .refl J
  | step nonempty cause _ ih => exact .step nonempty (le _ cause) ih

/-- Retention drops a prefix of the batches and moves the floor to its end. -/
theorem Journal.Retains.batches {reason : Journal → Prop} (retains : J.Retains reason J') :
    ∃ gone, J.batches = gone ++ J'.batches ∧ J'.floor = J.floor + span gone := by
  induction retains with
  | refl J => exact ⟨[], rfl, rfl⟩
  | @step J J' nonempty _ _ ih =>
    obtain ⟨gone, batches, floor⟩ := ih
    obtain ⟨oldest, rest, split⟩ := List.exists_cons_of_ne_nil nonempty
    refine ⟨oldest ++ gone, ?_, ?_⟩
    · rw [Journal.shift_batches split, batches, List.append_assoc]
    · rw [floor, Journal.shift_eq split, span_append, Nat.add_assoc]

theorem Journal.Retains.valid {reason : Journal → Prop} (retains : J.Retains reason J')
    (valid : J.Valid) : J'.Valid := by
  induction retains with
  | refl J => exact valid
  | step nonempty _ _ ih =>
    obtain ⟨oldest, rest, split⟩ := List.exists_cons_of_ne_nil nonempty
    exact ih (valid.shift split)

end Shift

section Deleting

variable {allowed : Fault → Prop} {limit : Int} {J : Journal} {s : Store} {d d' : Directory}
  {P : Policy} {oldest : List Batch} {rest : List (List Batch)}

/-- Once the oldest log is gone the store and the directory stand for the shorter journal. -/
theorem Represents.shift (represents : Represents limit J s d) (split : J.closed = oldest :: rest)
    (frame : Frame J.floor d d') (gone : d'.file? (.log J.floor) = none) :
    Represents limit J.shift (s.dropSegment 0) d' := by
  have all := represents.segments
  rw [Journal.shift_extents split] at all
  obtain ⟨seg, segments, mirrors, others, list⟩ := List.forall₂_cons_left_iff.mp all
  have rising := represents.valid.rising
  rw [Journal.shift_extents split] at rising
  have later := (List.pairwise_cons.mp rising).1
  have kept : List.Forall₂ (fun e seg => Mirrors e seg d') J.shift.extents segments :=
    mirrors_all others fun e member _ known => known.frame frame (Nat.ne_of_gt (later e member))
  have dropped : (s.dropSegment 0).segments = segments := by rw [Store.dropSegment, list]; rfl
  refine ⟨represents.valid.shift split, ?_, by rw [dropped]; exact kept, ?_, ?_, ?_, ?_, ?_⟩
  · intro b member
    apply represents.limit
    rw [Journal.shift_batches split]
    exact List.mem_append_right _ member
  · have place := represents.activeSegment
    rw [split, List.length_cons] at place
    rw [Journal.shift_eq split]
    simp [Store.dropSegment, place]
  · rw [Journal.shift_logEnd split]
    exact represents.logEndOffset
  · obtain ⟨first, more, mirrored, _, shape⟩ :
        ∃ first more, Mirrors ⟨J.shift.floor, (J.shift.closed ++ [J.shift.active]).headD []⟩ first
          d' ∧ True ∧
          segments = first :: more := by
      rw [J.shift.extents_eq] at kept
      cases closed : J.shift.closed ++ [J.shift.active] with
      | nil => simp at closed
      | cons batches pieces =>
        rw [closed, extentsFrom] at kept
        obtain ⟨first, more, mirrored, _, shape⟩ := List.forall₂_cons_left_iff.mp kept
        exact ⟨first, more, mirrored, trivial, shape⟩
    rw [Store.dropSegment, list]
    simp only [List.eraseIdx_zero, List.tail_cons, shape]
    exact mirrored.base
  · intro base found
    by_cases same : base = J.floor
    · rw [same] at found
      exact absurd gone found
    · rw [(frame base same).1] at found
      obtain ⟨e, member, start⟩ := represents.only base found
      rw [Journal.shift_extents split] at member
      rcases List.mem_cons.mp member with rfl | member
      · exact absurd start.symm same
      · exact ⟨e, member, start⟩
  · intro base above
    rw [Journal.shift_activeBase split] at above
    have below := represents.valid.base_le (e := ⟨J.floor, oldest⟩)
      (by rw [Journal.shift_extents split]; exact List.mem_cons_self)
    rw [(frame base (by dsimp only at below; omega)).2]
    exact represents.above base above

theorem Represents.head (represents : Represents limit J s d) (split : J.closed = oldest :: rest) :
    ∃ seg segments,
      s.segments = seg :: segments ∧ Mirrors ⟨J.floor, oldest⟩ seg d ∧ segments ≠ [] := by
  have all := represents.segments
  rw [Journal.shift_extents split] at all
  obtain ⟨seg, segments, mirrors, others, list⟩ := List.forall₂_cons_left_iff.mp all
  refine ⟨seg, segments, list, mirrors, ?_⟩
  rintro rfl
  have nothing := List.forall₂_nil_right_iff.mp others
  have nonempty := J.shift.active_mem
  rw [nothing] at nonempty
  cases nonempty

theorem Represents.orphan {floor : Nat} (represents : Represents limit J s d)
    (below : floor < J.floor) (sameLogs : ∀ base, d'.file? (.log base) = d.file? (.log base))
    (sameIndexes : ∀ base, base ≠ floor → d'.file? (.index base) = d.file? (.index base)) :
    Represents limit J s d' := by
  have atLeast : ∀ e ∈ J.extents, J.floor ≤ e.base := by
    intro e member
    rw [J.extents_eq] at member
    obtain ⟨_, _, _, start⟩ := mem_extentsFrom member
    omega
  have frame : Frame floor d d' := fun other differs => ⟨sameLogs other, sameIndexes other differs⟩
  refine { represents with
    segments := mirrors_all represents.segments fun e member _ mirrors =>
      mirrors.frame frame (by have bound := atLeast e member; omega)
    only := fun base found => represents.only base (by rwa [sameLogs] at found)
    above := ?_ }
  intro base beyond
  have bound := atLeast _ J.active_mem
  rw [sameIndexes base (by dsimp only [Journal.activeExtent] at bound; omega)]
  exact represents.above base beyond

theorem meets_removeIndex {name : FileName} {post : Post Store Directory StoreError Unit}
    (returns : ∀ d', SameBut name d d' → d'.file? name = none → post.returns () s d')
    (fails : Shaky allowed → post.fails (.io .remove) s d) (dies : Shaky allowed → post.dies d) :
    Meets allowed (removeIndex name) s d post := by
  apply Meets.bind
  apply Meets.attempt
  refine meets_unitary ?_ (fun shaky => Meets.throw (fails shaky)) dies
  cases found : d.file? name with
  | none => exact Meets.pure (returns d (SameBut.refl name d) found)
  | some file => exact Meets.pure (returns _ sameBut_erase file?_erase_self)

/-- The oldest segment goes with its log. When the log cannot be removed nothing changes; what fails
    later leaves at most an index file without a log. -/
theorem meets_deleteOldest {post : Post Store Directory StoreError Unit}
    (represents : Represents limit J s d) (le : limit ≤ P.limit) (split : J.closed = oldest :: rest)
    (returns : ∀ d', Represents limit J.shift (s.dropSegment 0) d' → Frame J.floor d d' →
      post.returns () (s.dropSegment 0) d')
    (fails : Shaky allowed → post.fails (.io .remove) s d)
    (cleanup : Shaky allowed →
      ∀ failed d', Represents limit J.shift (s.dropSegment 0) d' → Frame J.floor d d' →
      post.fails (.cleanup failed) (s.dropSegment 0) d')
    (dies : Shaky allowed → ∀ d', Laid P J d' ∨ Laid P J.shift d' → post.dies d') :
    Meets allowed (deleteSegmentAtIndex 0) s d post := by
  obtain ⟨seg, segments, list, mirrors, _⟩ := represents.head split
  obtain ⟨log, foundLog, _⟩ := mirrors.log
  have base : seg.baseOffset = J.floor := mirrors.base
  have member : ⟨J.floor, oldest⟩ ∈ J.extents := by
    rw [Journal.shift_extents split]
    exact List.mem_cons_self
  have below : J.floor < J.shift.floor := by
    rw [Journal.shift_eq split]
    exact Extent.base_lt_next (represents.valid.extents _ member).filled
      (represents.valid.closed oldest (by simp [split]))
  have erased : Frame J.floor d (d.erase (.log J.floor)) := by
    intro other differs
    rw [file?_erase_other (by simpa using differs), file?_erase_other (by simp)]
    exact ⟨rfl, rfl⟩
  have shifted := represents.shift split erased file?_erase_self
  let kept (d' : Directory) : Prop :=
    Represents limit J.shift (s.dropSegment 0) d' ∧ Frame J.floor d d'
  have start : kept (d.erase (.log J.floor)) := ⟨shifted, erased⟩
  have gone : ∀ d', Shaky allowed → kept d' → post.dies d' := fun d' shaky after =>
    dies shaky d' (Or.inr (after.1.laid le))
  unfold deleteSegmentAtIndex
  apply Meets.bind
  apply Meets.memory
  dsimp only
  rw [list]
  simp only [List.getElem?_cons_zero]
  rw [Segment.path, Segment.indexPath, base]
  apply Meets.bind
  refine meets_remove foundLog ?_ fails (fun shaky => dies shaky d (Or.inl (represents.laid le)))
  apply Meets.bind
  apply Meets.modify
  apply Meets.bind
  refine meets_noted kept ?_ ?_ (fun shaky d' => gone d' shaky)
  · refine meets_removeIndex ?_ (fun shaky => ⟨rfl, start, shaky⟩) (fun shaky => ⟨start, shaky⟩)
    intro d' same _
    have logs : ∀ other, d'.file? (.log other) = (d.erase (.log J.floor)).file? (.log other) :=
      fun other => same _ (by simp)
    have indexes :
        ∀ other, other ≠ J.floor →
          d'.file? (.index other) = (d.erase (.log J.floor)).file? (.index other) :=
      fun other differs => same _ (by simpa using differs)
    exact ⟨rfl, shifted.orphan below logs indexes,
      erased.trans fun other differs => ⟨logs other, indexes other differs⟩⟩
  intro index d' after indexCause
  apply Meets.bind
  refine meets_noted kept ?_ ?_ (fun shaky d' => gone d' shaky)
  · exact meets_segmentClose ⟨rfl, after⟩ (fun shaky _ => ⟨rfl, after, shaky⟩)
      (fun shaky => ⟨after, shaky⟩)
  intro handles d'' after' handlesCause
  apply Meets.bind
  refine meets_noted kept ?_ ?_ (fun shaky d' => gone d' shaky)
  · have synced : SameSegments d'' { d'' with durableNames := d''.files.keys } :=
      fun _ => ⟨rfl, rfl⟩
    exact meets_syncDirectory ⟨rfl, after'.1.sameSegments synced,
      after'.2.trans fun _ _ => ⟨rfl, rfl⟩⟩
      (fun shaky _ => ⟨rfl, after', shaky⟩) (fun shaky => ⟨after', shaky⟩)
  intro directory d4 after'' directoryCause
  dsimp only
  split
  · exact Meets.pure (returns d4 after''.1 after''.2)
  · rename_i failed nonempty
    refine Meets.throw (cleanup (failures_cause nonempty ?_) _ d4 after''.1 after''.2)
    simp only [List.mem_cons, List.not_mem_nil, or_false]
    rintro step (rfl | rfl | rfl)
    · exact indexCause
    · exact handlesCause
    · exact directoryCause

theorem Represents.closed_cases (represents : Represents limit J s d) :
    (J.closed = [] ∧ ∃ seg, s.segments = [seg]) ∨
      ∃ oldest rest seg next segments,
        J.closed = oldest :: rest ∧ s.segments = seg :: next :: segments ∧
        s.activeSegment ≠ 0 ∧ Mirrors ⟨J.floor, oldest⟩ seg d := by
  have place := represents.activeSegment
  cases closed : J.closed with
  | nil =>
    obtain ⟨init, seg, split, first, _⟩ := represents.split
    rw [closed] at place
    rw [place] at first
    rw [List.length_eq_zero_iff.mp first.symm] at split
    exact Or.inl ⟨rfl, seg, split⟩
  | cons oldest rest =>
    obtain ⟨seg, segments, list, mirrors, nonempty⟩ := represents.head closed
    obtain ⟨next, more, rfl⟩ := List.exists_cons_of_ne_nil nonempty
    rw [closed] at place
    exact Or.inr ⟨oldest, rest, seg, next, more, rfl, list, by rw [place]; simp, mirrors⟩

def Directory.segmentBytes (d : Directory) (base : Nat) : Nat :=
  ((d.file? (.log base)).elim 0 fun file => file.data.length) +
    (d.file? (.index base)).elim 0 fun file => file.data.length

/-- The bytes of all of the journal's files, as the source's `uint64` counts them. -/
def Journal.diskBytes (J : Journal) (weight : Nat → Nat) : Nat :=
  (J.extents.map fun e => weight e.base).sum % 2 ^ 64

def Journal.Aged (cutoff : Int) (J : Journal) : Prop :=
  ∀ e ∈ J.extents.head?, e.maxTimestamp ≤ cutoff

def Journal.Oversized (weight : Nat → Nat) (maxPartitionBytes : Nat) (J : Journal) : Prop :=
  maxPartitionBytes < J.diskBytes weight

/-- One of the two retention loops ended: it went on for as long as it had a reason, unless the disk
    failed it. -/
structure Retained (allowed : Fault → Prop) (limit : Int) (weight : Nat → Nat)
    (reason : Journal → Prop) (J : Journal) (s : Store) (errors : List StoreError) (s' : Store)
    (d' : Directory) : Prop where
  cause : errors ≠ [] → Shaky allowed
  keeps : Keeps s s'
  journal : ∃ J', J.Retains reason J' ∧ Represents limit J' s' d' ∧
    (∀ e ∈ J'.extents, d'.segmentBytes e.base = weight e.base) ∧
      (errors = [] → J'.closed ≠ [] → ¬ reason J')

def loopPost (allowed : Fault → Prop) (limit : Int) (P : Policy) (weight : Nat → Nat)
    (reason : Journal → Prop) (J : Journal) (s : Store) :
    Post Store Directory StoreError (List StoreError) where
  returns := Retained allowed limit weight reason J s
  fails := fun _ _ _ => False
  dies := fun d' => Shaky allowed ∧ ∃ J', J.Retains reason J' ∧ Laid P J' d'

section Loops

variable {weight : Nat → Nat} {reason : Journal → Prop}

theorem meets_deleteOldestThen {next : StoreProgram (List StoreError)}
    (represents : Represents limit J s d) (le : limit ≤ P.limit)
    (weighs : ∀ e ∈ J.extents, d.segmentBytes e.base = weight e.base) (nonempty : J.closed ≠ [])
    (cause : reason J)
    (continues : ∀ d', Represents limit J.shift (s.dropSegment 0) d' →
      (∀ e ∈ J.shift.extents, d'.segmentBytes e.base = weight e.base) →
      Meets allowed next (s.dropSegment 0) d'
        (loopPost allowed limit P weight reason J.shift (s.dropSegment 0))) :
    Meets allowed (deleteOldestThen next) s d (loopPost allowed limit P weight reason J s) := by
  obtain ⟨oldest, rest, split⟩ := List.exists_cons_of_ne_nil nonempty
  have keeps : Keeps s (s.dropSegment 0) := ⟨rfl, rfl, rfl⟩
  have remaining :
      ∀ d', Frame J.floor d d' → ∀ e ∈ J.shift.extents, d'.segmentBytes e.base = weight e.base := by
    intro d' frame e member
    have rising := represents.valid.rising
    rw [Journal.shift_extents split] at rising
    have later := (List.pairwise_cons.mp rising).1 e member
    obtain ⟨sameLog, sameIndex⟩ := frame e.base (Nat.ne_of_gt later)
    rw [Directory.segmentBytes, sameLog, sameIndex, ← Directory.segmentBytes]
    exact weighs e (by rw [Journal.shift_extents split]; exact List.mem_cons_of_mem _ member)
  apply Meets.bind
  apply Meets.attempt
  refine meets_deleteOldest represents le split ?_ ?_ ?_ ?_
  · intro d' shifted frame
    refine (continues d' shifted (remaining d' frame)).mono ?_ (fun _ _ _ impossible => impossible)
      ?_
    · rintro errors s' d'' ⟨excuse, keeps', J', retains, rest⟩
      exact ⟨excuse, keeps.trans keeps', J', .step nonempty cause retains, rest⟩
    · rintro d'' ⟨shaky, J', retains, laid⟩
      exact ⟨shaky, J', .step nonempty cause retains, laid⟩
  · intro shaky
    exact Meets.pure ⟨fun _ => shaky, Keeps.refl s, J, .refl J, represents, weighs, by simp⟩
  · intro shaky failed d' shifted frame
    exact Meets.pure ⟨fun _ => shaky, keeps, J.shift, .step nonempty cause (.refl _), shifted,
      remaining d' frame, by simp⟩
  · rintro shaky d' (laid | laid)
    · exact ⟨shaky, J, .refl J, laid⟩
    · exact ⟨shaky, J.shift, .step nonempty cause (.refl _), laid⟩

theorem meets_retained (represents : Represents limit J s d)
    (weighs : ∀ e ∈ J.extents, d.segmentBytes e.base = weight e.base)
    (stops : J.closed ≠ [] → ¬ reason J) :
    Meets allowed (Pure.pure []) s d (loopPost allowed limit P weight reason J s) :=
  Meets.pure ⟨by simp, Keeps.refl s, J, .refl J, represents, weighs, fun _ => stops⟩

theorem Journal.shift_closed (nonempty : J.closed ≠ []) :
    J.shift.closed.length < J.closed.length := by
  obtain ⟨oldest, rest, split⟩ := List.exists_cons_of_ne_nil nonempty
  rw [Journal.shift_eq split, split, List.length_cons]
  exact Nat.lt_succ_self _

theorem meets_retainByAge {cutoff : Int} {rounds : Nat} (represents : Represents limit J s d)
    (le : limit ≤ P.limit) (weighs : ∀ e ∈ J.extents, d.segmentBytes e.base = weight e.base)
    (enough : J.closed.length < rounds) :
    Meets allowed (retainByAge cutoff rounds) s d
      (loopPost allowed limit P weight (Journal.Aged cutoff) J s) := by
  induction rounds generalizing J s d with
  | zero => exact absurd enough (Nat.not_lt_zero _)
  | succ rounds ih =>
    unfold retainByAge
    apply Meets.bind
    apply Meets.memory
    dsimp only
    rcases represents.closed_cases
      with ⟨nothing, seg, list⟩ | ⟨oldest, rest, seg, next, more, split, list, notActive, mirrors⟩
    · rw [list]
      exact meets_retained represents weighs fun nonempty => absurd nothing nonempty
    have aged : J.Aged cutoff ↔ seg.maxTimestamp ≤ cutoff := by
      rw [Journal.Aged, Journal.shift_extents split, mirrors.maxTimestamp]
      simp
    have nonempty : J.closed ≠ [] := by simp [split]
    rw [list]
    dsimp only
    rw [if_neg notActive]
    split_ifs with old
    · refine meets_deleteOldestThen represents le weighs nonempty (aged.mpr old)
        fun d' shifted weighs' => ?_
      exact ih shifted weighs'
        (Nat.lt_of_lt_of_le (Journal.shift_closed nonempty) (Nat.lt_succ_iff.mp enough))
    · exact meets_retained represents weighs fun _ => mt aged.mp old

theorem meets_totalBytes {extents : List Extent} {segments : List Segment}
    {post : Post Store Directory StoreError Nat}
    (mirrors : List.Forall₂ (fun e seg => Mirrors e seg d) extents segments)
    (returns : post.returns ((extents.map fun e => d.segmentBytes e.base).sum % 2 ^ 64) s d)
    (fails : Shaky allowed → ∀ failed, post.fails failed s d) (dies : Shaky allowed → post.dies d) :
    Meets allowed (totalBytes segments) s d post := by
  induction mirrors generalizing post with
  | nil => exact Meets.pure returns
  | @cons e seg extents segments head _ ih =>
    obtain ⟨log, foundLog, _⟩ := head.log
    obtain ⟨index, _, foundIndex, _⟩ := head.index
    have bytes : d.segmentBytes e.base = log.data.length + index.data.length := by
      rw [Directory.segmentBytes, foundLog, foundIndex]
      rfl
    unfold totalBytes
    rw [Segment.path, Segment.indexPath, head.base]
    apply Meets.bind
    refine meets_stat foundLog ?_ (fun shaky => fails shaky _) dies
    apply Meets.bind
    refine meets_stat foundIndex ?_ (fun shaky => fails shaky _) dies
    apply Meets.bind
    refine ih ?_ fails dies
    apply Meets.pure
    rw [Nat.add_mod_mod, ← bytes, ← List.sum_cons]
    exact returns

theorem meets_retainBySize {maxPartitionBytes rounds : Nat} (represents : Represents limit J s d)
    (le : limit ≤ P.limit) (weighs : ∀ e ∈ J.extents, d.segmentBytes e.base = weight e.base)
    (enough : J.closed.length < rounds) :
    Meets allowed (retainBySize maxPartitionBytes rounds) s d
      (loopPost allowed limit P weight (Journal.Oversized weight maxPartitionBytes) J s) := by
  induction rounds generalizing J s d with
  | zero => exact absurd enough (Nat.not_lt_zero _)
  | succ rounds ih =>
    unfold retainBySize
    apply Meets.bind
    apply Meets.memory
    dsimp only
    rcases represents.closed_cases
      with ⟨nothing, seg, list⟩ | ⟨oldest, rest, seg, next, more, split, list, notActive, _⟩
    · rw [list]
      exact meets_retained represents weighs fun nonempty => absurd nothing nonempty
    have nonempty : J.closed ≠ [] := by simp [split]
    rw [list]
    dsimp only
    apply Meets.bind
    apply Meets.attempt
    apply Meets.bind
    apply Meets.memory
    refine meets_totalBytes represents.segments ?_ ?_ ?_
    · rw [List.map_congr_left weighs, ← Journal.diskBytes]
      dsimp only
      split_ifs with fits
      · exact meets_retained represents weighs fun _ => Nat.not_lt.mpr fits
      · refine meets_deleteOldestThen represents le weighs nonempty (Nat.not_le.mp fits)
          fun d' shifted weighs' => ?_
        exact ih shifted weighs'
          (Nat.lt_of_lt_of_le (Journal.shift_closed nonempty) (Nat.lt_succ_iff.mp enough))
    · intro shaky failed
      exact Meets.pure ⟨fun _ => shaky, Keeps.refl s, J, .refl J, represents, weighs, by simp⟩
    · exact fun shaky => ⟨shaky, J, .refl J, represents.laid le⟩

end Loops

/-- A whole pass takes the oldest segments: first those past the cutoff, then those the partition
    has no room for. -/
inductive Journal.Pruned (cutoff : Int) (weight : Nat → Nat) (maxPartitionBytes : Nat)
    (J : Journal) : Journal → Prop where
  | intro {aged J' : Journal} : J.Retains (Journal.Aged cutoff) aged →
      aged.Retains (Journal.Oversized weight maxPartitionBytes) J' →
        Pruned cutoff weight maxPartitionBytes J J'

/-- The pass went as far as it had to. -/
inductive Journal.PrunedFully (cutoff : Int) (weight : Nat → Nat) (maxPartitionBytes : Nat)
    (J : Journal) :
    Journal → Prop where
  | intro {aged J' : Journal} :
    J.Retains (Journal.Aged cutoff) aged → (aged.closed ≠ [] → ¬ aged.Aged cutoff) →
      aged.Retains (Journal.Oversized weight maxPartitionBytes) J' →
      (J'.closed ≠ [] → ¬ J'.Oversized weight maxPartitionBytes) →
        PrunedFully cutoff weight maxPartitionBytes J J'

theorem Represents.enough (represents : Represents limit J s d) :
    J.closed.length < s.segments.length := by
  rw [← represents.segments.length_eq, J.extents_eq, extentsFrom_length, List.length_append]
  exact Nat.lt_succ_self _

theorem meets_applyRetention {now : Instant} {maxAge : Int} {maxPartitionBytes : Nat}
    {post : Post Store Directory StoreError Unit} (represents : Represents limit J s d)
    (le : limit ≤ P.limit) (skips : s.closed = true ∨ s.writeFailed = true → post.returns () s d)
    (returns : s.closed = false → s.writeFailed = false → ∀ J' s' d',
      J.PrunedFully (retentionCutoff now maxAge) d.segmentBytes maxPartitionBytes J' →
        Represents limit J' s' d' →
      Keeps s s' → post.returns () s' d')
    (fails : Shaky allowed → ∀ count J' s' d',
      J.Pruned (retentionCutoff now maxAge) d.segmentBytes maxPartitionBytes J' →
        Represents limit J' s' d' →
      Keeps s s' → post.fails (.retention count) s' d')
    (dies : Shaky allowed →
      ∀ J' d', J.Pruned (retentionCutoff now maxAge) d.segmentBytes maxPartitionBytes J' →
      Laid P J' d' → post.dies d') :
    Meets allowed (applyRetention now maxAge maxPartitionBytes) s d post := by
  unfold applyRetention
  apply Meets.bind
  apply Meets.memory
  dsimp only
  split_ifs with idle
  · exact Meets.pure (skips (by simpa using idle))
  have running : s.closed = false ∧ s.writeFailed = false := by simpa using idle
  apply Meets.bind
  have byAge : Meets allowed (retainByAge (retentionCutoff now maxAge) s.segments.length) s d
      (loopPost allowed limit P d.segmentBytes _ J s) :=
    meets_retainByAge represents le (fun _ _ => rfl) represents.enough
  apply byAge.mono
  · rintro aged s' d' ⟨cause, keeps, J1, old, represents', weighs, stops⟩
    apply Meets.bind
    apply Meets.memory
    apply Meets.bind
    have bySize : Meets allowed (retainBySize maxPartitionBytes s'.segments.length) s' d'
        (loopPost allowed limit P _ _ J1 s') :=
      meets_retainBySize represents' le weighs represents'.enough
    apply bySize.mono
    · rintro sized s'' d'' ⟨cause', keeps', J2, big, represents'', _, stops'⟩
      dsimp only
      split
      · rename_i nothing
        obtain ⟨noAged, noSized⟩ := List.append_eq_nil_iff.mp nothing
        exact Meets.pure
          (returns running.1 running.2 J2 s'' d'' (.intro old (stops noAged) big (stops' noSized))
          represents'' (keeps.trans keeps'))
      · rename_i nonempty
        refine Meets.throw
          (fails ?_ _ J2 s'' d'' (.intro old big) represents'' (keeps.trans keeps'))
        by_cases nothing : aged = []
        · exact cause' fun empty => nonempty (by rw [nothing, empty]; rfl)
        · exact cause nothing
    · exact fun _ _ _ impossible => impossible.elim
    · rintro d'' ⟨shaky, J2, big, laid⟩
      exact dies shaky J2 d'' (.intro old big) laid
  · exact fun _ _ _ impossible => impossible.elim
  · rintro d' ⟨shaky, J1, old, laid⟩
    exact dies shaky J1 d' (.intro old (.refl J1)) laid

end Deleting

end MessageBroker.Storage
