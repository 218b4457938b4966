import Mathlib
import MessageBroker.Lib.InsertionSort

namespace MessageBroker.Bench

structure AcknowledgedRange where
  partition : UInt32
  base : UInt64
  last : UInt64
  deriving DecidableEq, Repr, Inhabited

/-- What DescribeTopic tells of a partition, as far as the benchmark reads it. -/
structure PartitionMetadata where
  partitionId : UInt32
  logEndOffset : UInt64
  deriving DecidableEq, Repr

/-- The order in which a `range` over a map visits its keys, which Go leaves open. -/
structure PartitionOrder where
  visit : List UInt32 → List UInt32
  perm : ∀ keys, (visit keys).Perm keys

def PartitionOrder.inOrder : PartitionOrder := ⟨id, fun _ => .refl _⟩

inductive VerificationError where
  | endOffsetDelta (partition : UInt32) (expected : Int64) (got initial final : UInt64)
  | discontinuity (i : Nat) (ended starts : UInt64)
  deriving DecidableEq, Repr

def VerificationError.message : VerificationError → String
  | .endOffsetDelta partition expected got initial final =>
    s!"offset verification failed on partition {partition}: expected end-offset delta {expected}, got {got} (initial: {initial}, final: {final})"
  | .discontinuity i ended starts =>
    s!"offset discontinuity detected: range {i} ended at offset {ended}, next range starts at offset {starts}"

/-- The map of log end offsets. A partition that is not in it reads as zero. -/
def logEndOffsets (partitions : List PartitionMetadata) : UInt32 → UInt64 :=
  partitions.foldl (fun offsets pm => Function.update offsets pm.partitionId pm.logEndOffset)
    fun _ => 0

def AcknowledgedRange.count (r : AcknowledgedRange) : UInt64 := r.last - r.base + 1

/-- The map of counts, with the wrapping sums of `int64`. -/
def recordsPerPartition (ranges : List AcknowledgedRange) : UInt32 → Int64 :=
  ranges.foldl (fun counts r =>
    Function.update counts r.partition (counts r.partition + r.count.toInt64)) fun _ => 0

/-- The keys of both maps that the checks range over. -/
def partitionsOf (ranges : List AcknowledgedRange) : List UInt32 :=
  (ranges.map AcknowledgedRange.partition).dedup

def partitionRanges (ranges : List AcknowledgedRange) (id : UInt32) : List AcknowledgedRange :=
  ranges.filter fun r => r.partition = id

def checkAdvance (initialOffsets finalOffsets : UInt32 → UInt64) (expected : UInt32 → Int64) :
    List UInt32 → Except VerificationError Unit
  | [] => .ok ()
  | id :: rest =>
    if finalOffsets id - initialOffsets id ≠ (expected id).toUInt64 then
      .error (.endOffsetDelta id (expected id) (finalOffsets id - initialOffsets id)
        (initialOffsets id) (finalOffsets id))
    else checkAdvance initialOffsets finalOffsets expected rest

def sortRanges (ranges : Array AcknowledgedRange) : Array AcknowledgedRange :=
  InsertionSort.sort (fun r => r.base.toNat) ranges

/-- The loop over neighbours, from position `i` on. -/
def checkContinuity (i : Nat) : List AcknowledgedRange → Except VerificationError Unit
  | r :: next :: rest =>
    if r.last + 1 ≠ next.base then .error (.discontinuity i r.last next.base)
    else checkContinuity (i + 1) (next :: rest)
  | _ => .ok ()

def checkPartition (ranges : List AcknowledgedRange) : Except VerificationError Unit :=
  if ranges.length ≤ 1 then .ok () else checkContinuity 0 (sortRanges ranges.toArray).toList

def checkPartitions (ranges : List AcknowledgedRange) : List UInt32 → Except VerificationError Unit
  | [] => .ok ()
  | id :: rest => do
    checkPartition (partitionRanges ranges id)
    checkPartitions ranges rest

/-- What Run checks behind the workers: each map is visited in an order of its own. -/
def verify (advance continuity : PartitionOrder) (initial final : List PartitionMetadata)
    (ranges : List AcknowledgedRange) :
    Except VerificationError Unit := do
  checkAdvance (logEndOffsets initial) (logEndOffsets final) (recordsPerPartition ranges)
    (advance.visit (partitionsOf ranges))
  checkPartitions ranges (continuity.visit (partitionsOf ranges))

/-! ## What the checks have seen when they pass -/

section Passed

variable {ranges : List AcknowledgedRange} {initial final : List PartitionMetadata}

theorem checkAdvance_passed {initialOffsets finalOffsets : UInt32 → UInt64}
    {expected : UInt32 → Int64} {ids : List UInt32}
    (passed : checkAdvance initialOffsets finalOffsets expected ids = .ok ()) :
    ∀ id ∈ ids, finalOffsets id - initialOffsets id = (expected id).toUInt64 := by
  induction ids with
  | nil => exact nofun
  | cons id rest ih =>
    unfold checkAdvance at passed
    split at passed
    · cases passed
    next same =>
      intro id' member
      rcases List.mem_cons.mp member with rfl | later
      · exact not_not.mp same
      · exact ih passed id' later

theorem checkPartitions_passed {ids : List UInt32} (passed : checkPartitions ranges ids = .ok ()) :
    ∀ id ∈ ids, checkPartition (partitionRanges ranges id) = .ok () := by
  induction ids with
  | nil => exact nofun
  | cons id rest ih =>
    unfold checkPartitions at passed
    cases first : checkPartition (partitionRanges ranges id) with
    | error reason => rw [first] at passed; cases passed
    | ok =>
      rw [first] at passed
      intro id' member
      rcases List.mem_cons.mp member with rfl | later
      · exact first
      · exact ih passed id' later

theorem verify_passed {advance continuity : PartitionOrder}
    (passed : verify advance continuity initial final ranges = .ok ())
    {id : UInt32} (member : id ∈ ranges.map AcknowledgedRange.partition) :
    logEndOffsets final id - logEndOffsets initial id = (recordsPerPartition ranges id).toUInt64 ∧
      checkPartition (partitionRanges ranges id) = .ok () := by
  have key : id ∈ partitionsOf ranges := List.mem_dedup.mpr member
  unfold verify at passed
  cases first : checkAdvance (logEndOffsets initial) (logEndOffsets final)
    (recordsPerPartition ranges)
      (advance.visit (partitionsOf ranges)) with
  | error reason => rw [first] at passed; cases passed
  | ok =>
    rw [first] at passed
    exact ⟨checkAdvance_passed first id ((advance.perm _).mem_iff.mpr key),
      checkPartitions_passed passed id ((continuity.perm _).mem_iff.mpr key)⟩

theorem recordsPerPartition_sum (ranges : List AcknowledgedRange) (id : UInt32) :
    (recordsPerPartition ranges id).toUInt64.toNat =
      ((partitionRanges ranges id).map fun r => r.count.toNat).sum % 2 ^ 64 := by
  have folded : ∀ counts : UInt32 → Int64, (ranges.foldl (fun counts r =>
      Function.update counts r.partition (counts r.partition + r.count.toInt64)) counts
      id).toUInt64.toNat =
        ((counts id).toUInt64.toNat +
          ((partitionRanges ranges id).map fun r => r.count.toNat).sum) % 2 ^ 64 := by
    induction ranges with
    | nil =>
      intro counts
      exact (Nat.mod_eq_of_lt (UInt64.toNat_lt _)).symm
    | cons r rest ih =>
      intro counts
      rw [List.foldl_cons, ih]
      by_cases mine : r.partition = id
      · subst mine
        simp [partitionRanges, Int64.toUInt64_add, UInt64.toNat_add]
        omega
      · simp [partitionRanges, mine, Function.update_of_ne (Ne.symm mine)]
  have started := folded fun _ => 0
  rwa [show (0 : Int64).toUInt64.toNat = 0 from rfl, Nat.zero_add] at started

end Passed

/-! ## Tilings -/

section Tiling

variable {ranges : List AcknowledgedRange} {lo hi : Nat}

def AcknowledgedRange.offsets (r : AcknowledgedRange) : Set Nat := Set.Icc r.base.toNat r.last.toNat

/-- The ranges follow each other from `lo` up to `hi`. -/
def Tiled : Nat → List AcknowledgedRange → Nat → Prop
  | lo, [], hi => lo = hi
  | lo, r :: rest, hi => r.base.toNat = lo ∧ r.base ≤ r.last ∧ Tiled (r.last.toNat + 1) rest hi

theorem Tiled.le (tiled : Tiled lo ranges hi) : lo ≤ hi := by
  induction ranges generalizing lo with
  | nil => exact le_of_eq tiled
  | cons r rest ih =>
    obtain ⟨starts, forward, later⟩ := tiled
    have inside := ih later
    have forward : r.base.toNat ≤ r.last.toNat := forward
    omega

theorem Tiled.union (tiled : Tiled lo ranges hi) : ⋃ r ∈ ranges, r.offsets = Set.Ico lo hi := by
  induction ranges generalizing lo with
  | nil =>
    rw [show lo = hi from tiled]
    simp
  | cons r rest ih =>
    obtain ⟨starts, forward, later⟩ := tiled
    have forward : r.base.toNat ≤ r.last.toNat := forward
    have inside := later.le
    simp only [List.mem_cons, Set.iUnion_iUnion_eq_or_left, ih later]
    ext offset
    simp only [AcknowledgedRange.offsets, Set.mem_union, Set.mem_Icc, Set.mem_Ico]
    omega

theorem Tiled.disjoint (tiled : Tiled lo ranges hi) :
    ranges.Pairwise fun r r' => Disjoint r.offsets r'.offsets := by
  induction ranges generalizing lo with
  | nil => exact .nil
  | cons r rest ih =>
    obtain ⟨starts, forward, later⟩ := tiled
    refine List.pairwise_cons.mpr ⟨fun r' member => ?_, ih later⟩
    rw [Set.disjoint_left]
    intro offset here there
    have above : offset ∈ Set.Ico (r.last.toNat + 1) hi := by
      rw [← later.union]
      exact Set.mem_biUnion member there
    have below := here.2
    have above := above.1
    omega

theorem Tiled.sum (tiled : Tiled lo ranges hi) (top : ∀ r ∈ ranges, r.last.toNat < 2 ^ 64 - 1) :
    lo + (ranges.map fun r => r.count.toNat).sum = hi := by
  induction ranges generalizing lo with
  | nil => exact tiled
  | cons r rest ih =>
    obtain ⟨starts, forward, later⟩ := tiled
    have forward : r.base.toNat ≤ r.last.toNat := forward
    have below := top r List.mem_cons_self
    have tail := ih later fun r' member => top r' (List.mem_cons_of_mem _ member)
    have count : r.count.toNat = r.last.toNat - r.base.toNat + 1 := by
      rw [AcknowledgedRange.count, UInt64.toNat_add, UInt64.toNat_sub]
      simp
      omega
    rw [List.map_cons, List.sum_cons, count]
    omega

/-- Where no range ends at the last offset there is, neighbours that pass the check leave no gap. -/
theorem tiled_of_checkContinuity {i : Nat} {r : AcknowledgedRange} {rest : List AcknowledgedRange}
    (passed : checkContinuity i (r :: rest) = .ok ())
    (forward : ∀ r' ∈ r :: rest, r'.base ≤ r'.last)
    (top : ∀ r' ∈ r :: rest, r'.last.toNat < 2 ^ 64 - 1) :
    ∃ hi, hi < 2 ^ 64 ∧ Tiled r.base.toNat (r :: rest) hi := by
  induction rest generalizing r i with
  | nil =>
    have below := top r List.mem_cons_self
    exact ⟨r.last.toNat + 1, by omega, rfl, forward r List.mem_cons_self, rfl⟩
  | cons next rest ih =>
    unfold checkContinuity at passed
    split at passed
    · cases passed
    next follows =>
      obtain ⟨hi, small, tiled⟩ :=
        ih passed (fun r' member => forward r' (List.mem_cons_of_mem _ member))
        fun r' member => top r' (List.mem_cons_of_mem _ member)
      have below := top r List.mem_cons_self
      have next : next.base.toNat = r.last.toNat + 1 := by
        rw [← not_not.mp follows, UInt64.toNat_add]
        simp
        omega
      rw [next] at tiled
      exact ⟨hi, small, rfl, forward r List.mem_cons_self, tiled⟩

end Tiling

/-! ## What a passed verification says of a partition -/

section Verified

variable {ranges : List AcknowledgedRange} {initial final : List PartitionMetadata} {id : UInt32}

/-- The ranges are disjoint, and together they are what the log has grown by. -/
def Covers (ranges : List AcknowledgedRange) (initialOffset finalOffset : UInt64) : Prop :=
  (ranges.Pairwise fun r r' => Disjoint r.offsets r'.offsets) ∧
    ⋃ r ∈ ranges, r.offsets = Set.Ico initialOffset.toNat finalOffset.toNat

/-- The first range starts where the log ended, and none ends at the last offset there is. -/
def Anchored (ranges : List AcknowledgedRange) (initialOffset : UInt64) : Prop :=
  (∃ r ∈ ranges, r.base = initialOffset) ∧
    ∀ r ∈ ranges, initialOffset ≤ r.base ∧ r.last.toNat < 2 ^ 64 - 1

instance (ranges : List AcknowledgedRange) (initialOffset : UInt64) :
    Decidable (Anchored ranges initialOffset) :=
  inferInstanceAs (Decidable (_ ∧ _))

theorem Covers.of_perm {ranges' : List AcknowledgedRange} {initialOffset finalOffset : UInt64}
    (perm : ranges'.Perm ranges) (covers : Covers ranges' initialOffset finalOffset) :
    Covers ranges initialOffset finalOffset := by
  refine ⟨(perm.pairwise_iff fun disjoint => disjoint.symm).mp covers.1, ?_⟩
  rw [← covers.2]
  simp only [perm.mem_iff]

theorem Covers.anchored {initialOffset finalOffset : UInt64} (nonempty : ranges ≠ [])
    (forward : ∀ r ∈ ranges, r.base ≤ r.last) (covers : Covers ranges initialOffset finalOffset) :
    Anchored ranges initialOffset := by
  have inside : ∀ r ∈ ranges,
      ∀ offset ∈ r.offsets, initialOffset.toNat ≤ offset ∧ offset < finalOffset.toNat := by
    intro r member offset here
    have whole : offset ∈ ⋃ r ∈ ranges, r.offsets := Set.mem_biUnion member here
    rwa [covers.2] at whole
  have ends : ∀ r ∈ ranges,
      initialOffset.toNat ≤ r.base.toNat ∧ r.last.toNat < finalOffset.toNat := by
    intro r member
    have forward : r.base.toNat ≤ r.last.toNat := forward r member
    exact ⟨(inside r member _ ⟨le_refl _, forward⟩).1, (inside r member _ ⟨forward, le_refl _⟩).2⟩
  refine ⟨?_, fun r member => ⟨(ends r member).1, ?_⟩⟩
  · obtain ⟨r, member⟩ := List.exists_mem_of_ne_nil _ nonempty
    have forward : r.base.toNat ≤ r.last.toNat := forward r member
    have first : initialOffset.toNat ∈ ⋃ r ∈ ranges, r.offsets := by
      rw [covers.2]
      have := ends r member
      exact ⟨le_refl _, by omega⟩
    obtain ⟨r', member', here⟩ := Set.mem_iUnion₂.mp first
    exact ⟨r', member', UInt64.toNat_inj.mp (le_antisymm here.1 (ends r' member').1)⟩
  · have small := UInt64.toNat_lt finalOffset
    have := (ends r member).2
    omega

theorem tiled_of_checkPartition (nonempty : ranges ≠ []) (forward : ∀ r ∈ ranges, r.base ≤ r.last)
    {initialOffset : UInt64} (anchored : Anchored ranges initialOffset)
    (passed : checkPartition ranges = .ok ()) :
    ∃ sorted hi, List.Perm sorted ranges ∧ hi < 2 ^ 64 ∧ Tiled initialOffset.toNat sorted hi := by
  have perm : (sortRanges ranges.toArray).toList.Perm ranges := (InsertionSort.sort_perm _).toList
  have sorted : (sortRanges ranges.toArray).toList.Pairwise
      fun r r' => r.base.toNat ≤ r'.base.toNat :=
    InsertionSort.sort_sorted _
  have continuous : checkContinuity 0 (sortRanges ranges.toArray).toList = .ok () := by
    unfold checkPartition at passed
    split at passed
    next few =>
      -- a single range has no neighbour
      obtain ⟨r, rfl⟩ :=
        List.length_eq_one_iff.mp (le_antisymm few (List.length_pos_iff.mpr nonempty))
      rw [List.perm_singleton.mp perm]
      rfl
    · exact passed
  generalize (sortRanges ranges.toArray).toList = ordered at *
  cases ordered with
  | nil => exact absurd perm.symm.eq_nil nonempty
  | cons r rest =>
    have member : ∀ r' ∈ r :: rest, r' ∈ ranges := fun r' here => perm.mem_iff.mp here
    obtain ⟨hi, small, tiled⟩ :=
      tiled_of_checkContinuity continuous (fun r' here => forward r' (member r' here))
      fun r' here => (anchored.2 r' (member r' here)).2
    refine ⟨r :: rest, hi, perm, small, ?_⟩
    -- the least base is the initial offset
    have least : r.base.toNat = initialOffset.toNat := by
      obtain ⟨first, present, starts⟩ := anchored.1
      have lower : initialOffset.toNat ≤ r.base.toNat :=
        (anchored.2 r (member r List.mem_cons_self)).1
      rcases List.mem_cons.mp (perm.mem_iff.mpr present) with rfl | later
      · rw [starts]
      · have upper := (List.pairwise_cons.mp sorted).1 first later
        rw [starts] at upper
        omega
    rwa [← least]

/-- A verification that passes has counted the records and seen no gap, but not where the first
    range starts. -/
theorem verified_covers {advance continuity : PartitionOrder}
    (forward : ∀ r ∈ ranges, r.base ≤ r.last)
    (passed : verify advance continuity initial final ranges = .ok ())
    (member : id ∈ ranges.map AcknowledgedRange.partition) :
    Covers (partitionRanges ranges id) (logEndOffsets initial id) (logEndOffsets final id) ↔
      Anchored (partitionRanges ranges id) (logEndOffsets initial id) := by
  have mine : ∀ r ∈ partitionRanges ranges id, r.base ≤ r.last :=
    fun r here => forward r (List.mem_of_mem_filter here)
  have nonempty : partitionRanges ranges id ≠ [] := by
    obtain ⟨r, present, here⟩ := List.mem_map.mp member
    exact List.ne_nil_of_mem (List.mem_filter.mpr ⟨present, by simpa using here⟩)
  obtain ⟨delta, continuous⟩ := verify_passed passed member
  constructor
  · exact Covers.anchored nonempty mine
  · intro anchored
    obtain ⟨sorted, hi, perm, small, tiled⟩ :=
      tiled_of_checkPartition nonempty mine anchored continuous
    have total := tiled.sum fun r here => (anchored.2 r (perm.mem_iff.mp here)).2
    rw [(perm.map _).sum_nat] at total
    -- the count is below 2 ^ 64, so the comparison of the deltas did not wrap
    have finalOffset : (logEndOffsets final id).toNat = hi := by
      have counted := recordsPerPartition_sum ranges id
      rw [← delta, UInt64.toNat_sub] at counted
      have := UInt64.toNat_lt (logEndOffsets final id)
      have := UInt64.toNat_lt (logEndOffsets initial id)
      omega
    refine Covers.of_perm perm ⟨tiled.disjoint, ?_⟩
    rw [tiled.union, finalOffset]

/-- Three ranges of two workers on two partitions. -/
theorem verified_covers_two :
    let ranges : List AcknowledgedRange := [⟨0, 15, 19⟩, ⟨1, 0, 3⟩, ⟨0, 10, 14⟩]
    Covers (partitionRanges ranges 0) 10 20 :=
  (@verified_covers [⟨0, 15, 19⟩, ⟨1, 0, 3⟩, ⟨0, 10, 14⟩] [⟨0, 10⟩, ⟨1, 0⟩]
    [⟨0, 20⟩, ⟨1, 4⟩] 0 .inOrder .inOrder (by decide) (by decide +kernel) (by decide)).mpr
    (by decide +kernel)

/-- One range far above the old end passes, and so do two that each hold every offset. -/
theorem verified_elsewhere :
    let above : List AcknowledgedRange := [⟨0, 5, 9⟩]
    let everything : List AcknowledgedRange := [⟨0, 0, 2 ^ 64 - 1⟩, ⟨0, 0, 2 ^ 64 - 1⟩]
    (verify .inOrder .inOrder [⟨0, 0⟩] [⟨0, 5⟩] above = .ok () ∧
      ¬ Covers (partitionRanges above 0) 0 5) ∧
      (verify .inOrder .inOrder [⟨0, 0⟩] [⟨0, 0⟩] everything = .ok () ∧
        ¬ Covers (partitionRanges everything 0) 0 0) := by
  intro above everything
  have away : ¬ Anchored (partitionRanges above 0) 0 := by decide +kernel
  have wrapped : ¬ Anchored (partitionRanges everything 0) 0 := by decide +kernel
  refine ⟨⟨by decide +kernel, fun covers => away ?_⟩, by decide +kernel, fun covers => wrapped ?_⟩
  · exact covers.anchored (by decide) (by decide)
  · exact covers.anchored (by decide +kernel) (by decide +kernel)

end Verified

end MessageBroker.Bench
