import Mathlib
import MessageBroker.Bench.Producer

namespace MessageBroker.Bench

def AcknowledgedRange.covers (r : AcknowledgedRange) (id : UInt32) (offset : Nat) : Nat :=
  if r.partition = id ∧ r.base.toNat ≤ offset ∧ offset ≤ r.last.toNat then 1 else 0

/-- How many of the ranges have the offset of the partition. -/
def coverage (ranges : List AcknowledgedRange) (id : UInt32) (offset : Nat) : Nat :=
  (ranges.map fun r => r.covers id offset).sum

/-- One for the offsets by which a log has grown. -/
def grown (initial final : Nat) (offset : Nat) : Nat :=
  if initial ≤ offset ∧ offset < final then 1 else 0

section Coverage

variable {ranges : List AcknowledgedRange} {id : UInt32} {initial final lo hi : Nat}

@[simp] theorem coverage_cons (r : AcknowledgedRange) (rest : List AcknowledgedRange) (id : UInt32)
    (offset : Nat) :
    coverage (r :: rest) id offset = r.covers id offset + coverage rest id offset := by
  simp [coverage]

theorem coverage_perm {ranges' : List AcknowledgedRange} (perm : ranges.Perm ranges') (id : UInt32)
    (offset : Nat) :
    coverage ranges id offset = coverage ranges' id offset := (perm.map _).sum_nat

theorem partitionRanges_mine {r : AcknowledgedRange} (rest : List AcknowledgedRange)
    (mine : r.partition = id) :
    partitionRanges (r :: rest) id = r :: partitionRanges rest id :=
      List.filter_cons_of_pos (by simpa using mine)

theorem partitionRanges_other {r : AcknowledgedRange} (rest : List AcknowledgedRange)
    (other : r.partition ≠ id) :
    partitionRanges (r :: rest) id = partitionRanges rest id :=
      List.filter_cons_of_neg (by simpa using other)

theorem coverage_partition (ranges : List AcknowledgedRange) (id : UInt32) (offset : Nat) :
    coverage (partitionRanges ranges id) id offset = coverage ranges id offset := by
  induction ranges with
  | nil => rfl
  | cons r rest ih =>
    by_cases mine : r.partition = id
    · rw [partitionRanges_mine rest mine, coverage_cons, coverage_cons, ih]
    · rw [partitionRanges_other rest mine, coverage_cons, ih]
      simp [AcknowledgedRange.covers, mine]

theorem covers_le_coverage {r : AcknowledgedRange} (member : r ∈ ranges) (id : UInt32)
    (offset : Nat) :
    r.covers id offset ≤ coverage ranges id offset :=
  List.single_le_sum (by simp) _ (List.mem_map_of_mem member)

theorem inside_of_bounded {r : AcknowledgedRange}
    (bounded : ∀ offset, coverage ranges id offset ≤ grown initial final offset)
    (member : r ∈ ranges) (mine : r.partition = id) (forward : r.base ≤ r.last) :
    initial ≤ r.base.toNat ∧ r.base.toNat ≤ r.last.toNat ∧ r.last.toNat < final := by
  have forward : r.base.toNat ≤ r.last.toNat := forward
  have inside : ∀ offset,
      r.base.toNat ≤ offset → offset ≤ r.last.toNat → initial ≤ offset ∧ offset < final := by
    intro offset low high
    have covered := (covers_le_coverage member id offset).trans (bounded offset)
    rw [AcknowledgedRange.covers, if_pos ⟨mine, low, high⟩, grown] at covered
    split_ifs at covered with here
    · exact here
    · omega
  exact ⟨(inside _ le_rfl forward).1, forward, (inside _ forward le_rfl).2⟩

/-! ## Counting -/

theorem sum_covers {r : AcknowledgedRange} (mine : r.partition = id)
    (forward : r.base.toNat ≤ r.last.toNat) (inside : r.last.toNat < final) :
    ∑ offset ∈ Finset.range final, r.covers id offset = r.last.toNat - r.base.toNat + 1 := by
  have same : (Finset.range final).filter
      (fun offset => r.base.toNat ≤ offset ∧ offset ≤ r.last.toNat) =
      Finset.Icc r.base.toNat r.last.toNat := by
    ext offset
    simp only [Finset.mem_filter, Finset.mem_range, Finset.mem_Icc]
    omega
  simp only [AcknowledgedRange.covers, mine, true_and]
  rw [← Finset.card_filter, same, Nat.card_Icc]
  omega

theorem sum_grown (initial final : Nat) :
    ∑ offset ∈ Finset.range final, grown initial final offset = final - initial := by
  have same : (Finset.range final).filter (fun offset => initial ≤ offset ∧ offset < final) =
      Finset.Ico initial final := by
    ext offset
    simp only [Finset.mem_filter, Finset.mem_range, Finset.mem_Ico]
    omega
  simp only [grown]
  rw [← Finset.card_filter, same, Nat.card_Ico]

theorem sum_coverage (inside : ∀ r ∈ ranges,
    r.partition = id → r.base.toNat ≤ r.last.toNat ∧ r.last.toNat < final) :
    ∑ offset ∈ Finset.range final, coverage ranges id offset =
      ((partitionRanges ranges id).map fun r => r.last.toNat - r.base.toNat + 1).sum := by
  induction ranges with
  | nil => simp [coverage, partitionRanges]
  | cons r rest ih =>
    have tail := ih fun r' member => inside r' (List.mem_cons_of_mem _ member)
    simp only [coverage_cons, Finset.sum_add_distrib, tail]
    by_cases mine : r.partition = id
    · obtain ⟨forward, below⟩ := inside r List.mem_cons_self mine
      rw [sum_covers mine forward below, partitionRanges_mine rest mine, List.map_cons,
        List.sum_cons]
    · rw [partitionRanges_other rest mine]
      simp [AcknowledgedRange.covers, mine]

theorem count_toNat {r : AcknowledgedRange} (forward : r.base.toNat ≤ r.last.toNat)
    (below : r.last.toNat < 2 ^ 64 - 1) :
    r.count.toNat = r.last.toNat - r.base.toNat + 1 := by
  rw [AcknowledgedRange.count, UInt64.toNat_add, UInt64.toNat_sub]
  simp
  omega

/-- The count of the records agrees with the growth of the log just when no offset is missing. -/
theorem advance_iff {initialOffset finalOffset : UInt64} (forward : ∀ r ∈ ranges, r.base ≤ r.last)
    (bounded : ∀ offset,
      coverage ranges id offset ≤ grown initialOffset.toNat finalOffset.toNat offset)
    (nonempty : id ∈ ranges.map AcknowledgedRange.partition) :
    finalOffset - initialOffset = (recordsPerPartition ranges id).toUInt64 ↔
      ∀ offset, coverage ranges id offset = grown initialOffset.toNat finalOffset.toNat offset := by
  have inside : ∀ r ∈ ranges, r.partition = id →
      initialOffset.toNat ≤ r.base.toNat ∧
        r.base.toNat ≤ r.last.toNat ∧ r.last.toNat < finalOffset.toNat :=
    fun r member mine => inside_of_bounded bounded member mine (forward r member)
  have top := UInt64.toNat_lt finalOffset
  have ordered : initialOffset.toNat ≤ finalOffset.toNat := by
    obtain ⟨r, member, mine⟩ := List.mem_map.mp nonempty
    have := inside r member mine
    omega
  have counted : ((partitionRanges ranges id).map fun r => r.count.toNat).sum =
      ∑ offset ∈ Finset.range finalOffset.toNat, coverage ranges id offset := by
    rw [sum_coverage fun r member mine => (inside r member mine).2]
    congr 1
    apply List.map_congr_left
    intro r member
    obtain ⟨present, mine⟩ := List.mem_filter.mp member
    obtain ⟨_, forward, below⟩ := inside r present (by simpa using mine)
    exact count_toNat forward (by omega)
  have most : ∑ offset ∈ Finset.range finalOffset.toNat, coverage ranges id offset ≤
      finalOffset.toNat - initialOffset.toNat := by
    rw [← sum_grown]
    exact Finset.sum_le_sum fun offset _ => bounded offset
  have exact_ :=
    Finset.sum_eq_sum_iff_of_le fun offset (_ : offset ∈ Finset.range finalOffset.toNat) =>
      bounded offset
  rw [← UInt64.toNat_inj, UInt64.toNat_sub_of_le _ _ ordered, recordsPerPartition_sum, counted,
    Nat.mod_eq_of_lt (by omega), eq_comm, ← sum_grown, exact_]
  constructor
  · intro same offset
    by_cases below : offset < finalOffset.toNat
    · exact same offset (Finset.mem_range.mpr below)
    · have nothing := bounded offset
      rw [grown, if_neg (by omega)] at nothing ⊢
      omega
  · exact fun same offset _ => same offset

/-! ## Neighbours -/

theorem tiled_of_coverage (mine : ∀ r ∈ ranges, r.partition = id)
    (forward : ∀ r ∈ ranges, r.base.toNat ≤ r.last.toNat)
    (sorted : ranges.Pairwise fun r r' => r.base.toNat ≤ r'.base.toNat) (ordered : lo ≤ hi)
    (once : ∀ offset, coverage ranges id offset = grown lo hi offset) : Tiled lo ranges hi := by
  induction ranges generalizing lo with
  | nil =>
    by_contra differ
    have missing := once lo
    rw [grown, if_pos ⟨le_rfl, lt_of_le_of_ne ordered differ⟩] at missing
    cases missing
  | cons r rest ih =>
    obtain ⟨least, sorted⟩ := List.pairwise_cons.mp sorted
    have ends := forward r List.mem_cons_self
    have own := mine r List.mem_cons_self
    obtain ⟨low, _, below⟩ :=
      inside_of_bounded (fun offset => (once offset).le) List.mem_cons_self own ends
    have starts : r.base.toNat = lo := by
      by_contra later
      -- nobody starts as early as `lo`
      have missing := once lo
      rw [grown, if_pos ⟨le_rfl, by omega⟩] at missing
      have nothing : coverage (r :: rest) id lo = 0 := by
        apply List.sum_eq_zero
        intro count made
        obtain ⟨r', member, rfl⟩ := List.mem_map.mp made
        have behind : lo < r'.base.toNat := by
          rcases List.mem_cons.mp member with rfl | later
          · omega
          · have := least r' later
            omega
        exact if_neg fun here => by omega
      omega
    refine ⟨starts, ends, ih (fun r' member => mine r' (List.mem_cons_of_mem _ member))
      (fun r' member => forward r' (List.mem_cons_of_mem _ member)) sorted (by omega)
      fun offset => ?_⟩
    have here := once offset
    rw [coverage_cons, AcknowledgedRange.covers] at here
    unfold grown at here ⊢
    simp only [own, true_and] at here
    split_ifs at here ⊢ <;> omega

theorem checkContinuity_of_tiled {i : Nat} (tiled : Tiled lo ranges hi) (below : hi < 2 ^ 64) :
    checkContinuity i ranges = .ok () := by
  induction ranges generalizing lo i with
  | nil => rfl
  | cons r rest ih =>
    obtain ⟨_, _, later⟩ := tiled
    cases rest with
    | nil => rfl
    | cons next rest =>
      have follows : r.last + 1 = next.base := by
        have inside := later.le
        rw [← UInt64.toNat_inj, UInt64.toNat_add, later.1]
        simp
        omega
      rw [checkContinuity, if_neg (not_not.mpr follows)]
      exact ih later

theorem checkPartition_of_coverage (mine : ∀ r ∈ ranges, r.partition = id)
    (forward : ∀ r ∈ ranges, r.base.toNat ≤ r.last.toNat) (ordered : lo ≤ hi) (below : hi < 2 ^ 64)
    (once : ∀ offset, coverage ranges id offset = grown lo hi offset) :
    checkPartition ranges = .ok () := by
  have perm : (sortRanges ranges.toArray).toList.Perm ranges := (InsertionSort.sort_perm _).toList
  unfold checkPartition
  split
  · rfl
  · have tiled : Tiled lo (sortRanges ranges.toArray).toList hi :=
      tiled_of_coverage (fun r member => mine r (perm.mem_iff.mp member))
        (fun r member => forward r (perm.mem_iff.mp member)) (InsertionSort.sort_sorted _) ordered
        fun offset => (coverage_perm perm id offset).trans (once offset)
    exact checkContinuity_of_tiled tiled below

end Coverage

/-! ## The verification -/

section Verify

variable {ranges : List AcknowledgedRange} {initial final : List PartitionMetadata}
  {advance continuity : PartitionOrder}

theorem checkAdvance_ok {initialOffsets finalOffsets : UInt32 → UInt64} {expected : UInt32 → Int64}
    {ids : List UInt32}
    (same : ∀ id ∈ ids, finalOffsets id - initialOffsets id = (expected id).toUInt64) :
    checkAdvance initialOffsets finalOffsets expected ids = .ok () := by
  induction ids with
  | nil => rfl
  | cons id rest ih =>
    rw [checkAdvance, if_neg (not_not.mpr (same id List.mem_cons_self))]
    exact ih fun id' member => same id' (List.mem_cons_of_mem _ member)

theorem checkPartitions_ok {ids : List UInt32}
    (passes : ∀ id ∈ ids, checkPartition (partitionRanges ranges id) = .ok ()) :
    checkPartitions ranges ids = .ok () := by
  induction ids with
  | nil => rfl
  | cons id rest ih =>
    rw [checkPartitions, passes id List.mem_cons_self]
    exact ih fun id' member => passes id' (List.mem_cons_of_mem _ member)

/-- Where no range goes beyond what the logs have grown by and no two have an offset in common, the
    verification passes just when none of these offsets is missing. -/
theorem verify_iff_covered (forward : ∀ r ∈ ranges, r.base ≤ r.last)
    (bounded : ∀ id offset, coverage ranges id offset ≤
      grown (logEndOffsets initial id).toNat (logEndOffsets final id).toNat offset) :
    verify advance continuity initial final ranges = .ok () ↔
      ∀ id ∈ ranges.map AcknowledgedRange.partition, ∀ offset,
      coverage ranges id offset =
        grown (logEndOffsets initial id).toNat (logEndOffsets final id).toNat offset := by
  constructor
  · intro passed id member
    exact (advance_iff forward (bounded id) member).mp (verify_passed passed member).1
  · intro once
    have key : ∀ {order : PartitionOrder} {id}, id ∈ order.visit (partitionsOf ranges) →
        id ∈ ranges.map AcknowledgedRange.partition :=
      fun here => List.mem_dedup.mp ((PartitionOrder.perm _ _).mem_iff.mp here)
    have first : checkAdvance (logEndOffsets initial) (logEndOffsets final)
        (recordsPerPartition ranges) (advance.visit (partitionsOf ranges)) = .ok () :=
      checkAdvance_ok
        fun id here => (advance_iff forward (bounded id) (key here)).mpr (once id (key here))
    rw [verify, first]
    refine checkPartitions_ok fun id here => ?_
    have within := key here
    have inside : ∀ r ∈ partitionRanges ranges id, r ∈ ranges ∧ r.partition = id := by
      intro r member
      obtain ⟨present, mine⟩ := List.mem_filter.mp member
      exact ⟨present, by simpa using mine⟩
    have ordered : (logEndOffsets initial id).toNat ≤ (logEndOffsets final id).toNat := by
      obtain ⟨r, present, mine⟩ := List.mem_map.mp within
      have := inside_of_bounded (bounded id) present mine (forward r present)
      omega
    refine checkPartition_of_coverage (fun r member => (inside r member).2)
      (fun r member => forward r (inside r member).1) ordered (UInt64.toNat_lt _) fun offset => ?_
    rw [coverage_partition]
    exact once id within offset

end Verify

end MessageBroker.Bench
