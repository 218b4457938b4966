import MessageBroker.Storage.Crashes
import MessageBroker.Topics.TreeRules

namespace MessageBroker.Topics

open Faulty Program Storage

/-! ## The age as the machine computes it -/

theorem int64_eq (value : Int) : int64 value = value - (value + 2 ^ 63) / 2 ^ 64 * 2 ^ 64 := by
  unfold int64
  rw [Int.bmod_def]
  split_ifs <;> omega

/-- How often the age in nanoseconds runs over the range of an `int64`. -/
def ageOverflows (seconds : UInt64) : Int := (seconds.toNat * 1000000000 + (2 ^ 63 - 1)) / 2 ^ 64

/-- The time, in milliseconds, that lies before `now` by what is left of the age. -/
def expiryMillis (seconds : UInt64) (now : Int) : Int :=
  (now - (seconds.toNat * 1000000000 - ageOverflows seconds * 2 ^ 64)) / 1000000

/-- How often that time runs over the range of an `int64`: never, within 292 million years of the
    epoch. -/
def expiryOverflows (seconds : UInt64) (now : Int) : Int :=
  (expiryMillis seconds now + 2 ^ 63) / 2 ^ 64

/-- The clock runs over at least as far as the age does, or the time wrapped to is before the
    epoch. -/
def Spared (seconds : UInt64) (now : Int) : Prop :=
  ageOverflows seconds ≤ expiryOverflows seconds now * 1000000 ∨
    expiryMillis seconds now < expiryOverflows seconds now * 2 ^ 64

instance (seconds : UInt64) (now : Int) : Decidable (Spared seconds now) :=
  inferInstanceAs (Decidable (_ ∨ _))

section Age

variable {seconds : UInt64} {now : Int}

theorem retentionCutoff_eq :
    retentionCutoff now (retentionAge seconds) =
      expiryMillis seconds now - expiryOverflows seconds now * 2 ^ 64 := by
  have wrapped :
      int64 (-retentionAge seconds) =
        ageOverflows seconds * 2 ^ 64 - seconds.toNat * 1000000000 := by
    unfold retentionAge ageOverflows
    rw [int64_eq, int64_eq (int64 _ * _), int64_eq]
    omega
  unfold retentionCutoff unixMilli
  rw [wrapped, int64_eq]
  unfold expiryOverflows expiryMillis
  rw [show now + (ageOverflows seconds * 2 ^ 64 - seconds.toNat * 1000000000) =
    now - (seconds.toNat * 1000000000 - ageOverflows seconds * 2 ^ 64) by omega]

theorem spared_iff : Spared seconds now ↔
    retentionCutoff now (retentionAge seconds) < 0 ∨
      retentionCutoff now (retentionAge seconds) * 1000000 + seconds.toNat * 1000000000 ≤ now := by
  rw [retentionCutoff_eq]
  unfold Spared
  have millis : expiryMillis seconds now =
      (now - (seconds.toNat * 1000000000 - ageOverflows seconds * 2 ^ 64)) / 1000000 := rfl
  omega

/-- For a clock within 146 million years of the epoch: the age fits a `time.Duration`, or what is
    left of it reaches back before the epoch. -/
theorem spared_ordinary (low : -2 ^ 62 * 1000000 ≤ now) (high : now < 2 ^ 62 * 1000000) :
    Spared seconds now ↔
      seconds.toNat ≤ 9223372036 ∨
        now < seconds.toNat * 1000000000 - ageOverflows seconds * 2 ^ 64 := by
  have overflows : ageOverflows seconds = (seconds.toNat * 1000000000 + (2 ^ 63 - 1)) / 2 ^ 64 :=
    rfl
  have millis : expiryMillis seconds now =
      (now - (seconds.toNat * 1000000000 - ageOverflows seconds * 2 ^ 64)) / 1000000 := rfl
  have ordinary : expiryOverflows seconds now = 0 := by
    unfold expiryOverflows
    omega
  unfold Spared
  rw [ordinary]
  omega

end Age

/-! ## What a pass takes from a journal -/

/-- The files stay within the limit, however many of the oldest segments are gone. -/
def SizeIdle (weight : Nat → Nat) (maxBytes : UInt64) (J : Journal) : Prop :=
  ∀ J', J.Retains (fun _ => True) J' → ¬ J'.Oversized weight maxBytes.toNat

/-- Whatever log is gone had no records, or none younger than the cutoff. -/
def OnlyExpired (cutoff : Int) (J : Journal) (d : Directory) : Prop :=
  ∀ e ∈ J.extents, d.file? (.log e.base) = none → e.batches = [] ∨ e.maxTimestamp ≤ cutoff

section Pass

variable {J J' : Journal} {cutoff : Int} {weight : Nat → Nat} {maxBytes : UInt64} {P : Policy}
  {s : Store} {d : Directory} {settings : Config → Prop}

theorem Pruned.aged (pruned : J.Pruned cutoff weight maxBytes.toNat J')
    (idle : SizeIdle weight maxBytes J) :
    J.Retains (Journal.Aged cutoff) J' := by
  cases pruned with
  | intro old big =>
    cases big with
    | refl => exact old
    | step _ oversized _ => exact absurd oversized (idle _ (old.mono fun _ _ => trivial))

theorem Retains.expired (retains : J.Retains (Journal.Aged cutoff) J') {e : Extent}
    (member : e ∈ J.extents) :
    e ∈ J'.extents ∨ e.maxTimestamp ≤ cutoff := by
  induction retains with
  | refl => exact Or.inl member
  | @step J J' nonempty aged _ ih =>
    obtain ⟨oldest, rest, split⟩ := List.exists_cons_of_ne_nil nonempty
    rw [Journal.Aged, Journal.shift_extents split] at aged
    rw [Journal.shift_extents split] at member
    rcases List.mem_cons.mp member with rfl | later
    · exact Or.inr (aged _ rfl)
    · exact ih later

theorem Laid.onlyExpired (laid : Laid P J' d) (pruned : J.Pruned cutoff weight maxBytes.toNat J')
    (idle : SizeIdle weight maxBytes J) : OnlyExpired cutoff J d := by
  intro e member gone
  refine Or.inr ((Retains.expired (Pruned.aged pruned idle) member).resolve_left fun kept => ?_)
  exact absurd gone (laid.log_present kept)

theorem Holds.onlyExpired (holds : Holds P J d) : OnlyExpired cutoff J d := by
  intro e member gone
  rcases holds with laid | ⟨rfl, _⟩
  · exact absurd gone (laid.log_present member)
  · rw [List.mem_singleton.mp member]
    exact Or.inl rfl

/-- Whatever the disk does to it, a pass over one partition takes expired segments only. -/
theorem Tracks.onlyExpired {now : Instant} {maxAge : Int}
    (tracks : Tracks anything P settings J ⟨some s, d⟩)
    (idle : SizeIdle d.segmentBytes maxBytes J) :
    Meets anything (Storage.applyRetention now maxAge maxBytes.toNat) s d
      (.always (OnlyExpired (retentionCutoff now maxAge) J)) := by
  have before : OnlyExpired (retentionCutoff now maxAge) J d := Holds.onlyExpired tracks.holds
  cases tracks with
  | running _ represents =>
    refine meets_applyRetention represents (le_refl P.limit) (fun _ => before) ?_ ?_ ?_
    · exact fun _ _ J' s' d' fully after _ =>
        Laid.onlyExpired (after.laid (le_refl P.limit)) fully.pruned idle
    · exact fun _ _ J' s' d' pruned after _ =>
        Laid.onlyExpired (after.laid (le_refl P.limit)) pruned idle
    · exact fun _ J' d' pruned laid => Laid.onlyExpired laid pruned idle
  | broken _ _ broken => exact meets_applyRetention_skips broken.writeFailed before

end Pass

/-! ## A pass over all topics -/

/-- Every segment that a pass deletes in a partition with this age, where its store's clock reads
    `now`, has only records that are at least that old. -/
def SparesYoung (seconds : UInt64) (now : Instant) : Prop :=
  ∀ (m : Manager) (tree : Tree) (order : MapOrder) (clock : Bytes → Nat → Instant) (visits : Nat)
    (faults : List Fault) (name : Bytes) (id : Nat) (t : Topic) (s : Store) (P : Policy)
    (settings : Config → Prop) (J : Journal),
    m.topics.lookup name = some t →
      t.retention.maxAgeSeconds = seconds → t.partitions[id]? = some s → clock name id = now →
    Tracks anything P settings J ⟨some s, tree.partitions name id⟩ →
    SizeIdle (tree.partitions name id).segmentBytes t.retention.maxBytes J →
    ∀ e ∈ J.extents,
      ((Manager.applyRetention order clock visits ⟨m, tree, faults⟩).2.disk.partitions name
        id).file? (.log e.base) = none →
      ∀ r ∈ e.records, r.timestamp * 1000000 + seconds.toNat * 1000000000 ≤ now

section Targets

variable {m : Manager} {tree : Tree} {clock : Bytes → Nat → Instant} {name : Bytes} {id : Nat}
  {s : Store} {targets : List Target}

theorem meets_onStore_other {α : Type} {call : StoreProgram α} {other : Bytes} {otherId : Nat}
    (differs : (name, id) ≠ (other, otherId)) :
    Meets anything (onStore other otherId call) m tree
      ⟨fun _ m' tree' =>
        m'.store? name id = m.store? name id ∧ tree'.partitions name id = tree.partitions name id,
       fun _ m' tree' =>
         m'.store? name id = m.store? name id ∧ tree'.partitions name id = tree.partitions name id,
       fun tree' => tree'.partitions name id = tree.partitions name id⟩ := by
  cases found : m.store? other otherId with
  | none =>
    apply Meets.bind
    apply Meets.memory
    dsimp only
    rw [found]
    exact Meets.die rfl
  | some s =>
    refine meets_onStore found ((Meets.any call s _).mono ?_ ?_ ?_)
    · exact fun _ _ _ _ => ⟨store?_setStore_other differs, partitions_setPartition_other differs⟩
    · exact fun _ _ _ _ => ⟨store?_setStore_other differs, partitions_setPartition_other differs⟩
    · exact fun _ _ => partitions_setPartition_other differs

/-- The pass reaches the partition at most once, with the topic's own limits. -/
theorem meets_retainTargets {kept : Directory → Prop} {maxAge : Int} {maxBytes : UInt64}
    (found : m.store? name id = some s) (before : kept (tree.partitions name id))
    (once : (targets.map fun t => (t.name, t.id)).Nodup)
    (limits : ∀ t ∈ targets,
      (t.name, t.id) = (name, id) → t.maxAge = maxAge ∧ t.maxBytes = maxBytes)
    (pass : Meets anything (Storage.applyRetention (clock name id) maxAge maxBytes.toNat) s
      (tree.partitions name id) (.always kept)) :
    Meets anything (retainTargets clock targets) m tree
      (.always fun tree' => kept (tree'.partitions name id)) := by
  have elsewhere : ∀ (targets : List Target) (m : Manager) (tree : Tree),
      kept (tree.partitions name id) →
      (name, id) ∉ targets.map (fun t => (t.name, t.id)) →
      Meets anything (retainTargets clock targets) m tree
        (.always fun tree' => kept (tree'.partitions name id)) := by
    intro targets
    induction targets with
    | nil => exact fun _ _ before _ => Meets.pure before
    | cons target rest ih =>
      intro m tree before absent
      rw [List.map_cons, List.mem_cons, not_or] at absent
      apply Meets.bind
      refine Meets.ignore ((meets_onStore_other absent.1).mono ?_ ?_ ?_)
      · exact fun _ m' tree' same => ih m' tree' (by rw [same.2]; exact before) absent.2
      · exact fun _ m' tree' same => ih m' tree' (by rw [same.2]; exact before) absent.2
      · intro tree' same
        show kept (tree'.partitions name id)
        rw [same]
        exact before
  induction targets generalizing m tree with
  | nil => exact Meets.pure before
  | cons target rest ih =>
    rw [List.map_cons, List.nodup_cons] at once
    apply Meets.bind
    by_cases here : (target.name, target.id) = (name, id)
    · obtain ⟨age, bytes⟩ := limits target List.mem_cons_self here
      obtain ⟨sameName, sameId⟩ := Prod.mk.inj here
      rw [here] at once
      rw [age, bytes, sameName, sameId]
      refine Meets.ignore (meets_onStore found (pass.mono ?_ ?_ ?_))
      · exact fun _ s' d after =>
          elsewhere rest _ _ (by rw [partitions_setPartition_self]; exact after) once.1
      · exact fun _ s' d after =>
          elsewhere rest _ _ (by rw [partitions_setPartition_self]; exact after) once.1
      · intro d after
        show kept ((tree.setPartition name id d).partitions name id)
        rw [partitions_setPartition_self]
        exact after
    · refine Meets.ignore ((meets_onStore_other (Ne.symm here)).mono ?_ ?_ ?_)
      · intro _ m' tree' same
        exact ih (by rw [same.1]; exact found) (by rw [same.2]; exact before) once.2
          (fun t member => limits t (List.mem_cons_of_mem _ member)) (by rw [same.2]; exact pass)
      · intro _ m' tree' same
        exact ih (by rw [same.1]; exact found) (by rw [same.2]; exact before) once.2
          (fun t member => limits t (List.mem_cons_of_mem _ member)) (by rw [same.2]; exact pass)
      · intro tree' same
        show kept (tree'.partitions name id)
        rw [same]
        exact before

theorem mem_topicTargets {target : Target}
    (member : target ∈ (m.topics.lookup name).elim [] fun t => t.targets name) :
    ∃ t, m.topics.lookup name = some t ∧
      target.name = name ∧ target.maxAge = retentionAge t.retention.maxAgeSeconds ∧
      target.maxBytes = t.retention.maxBytes := by
  cases found : m.topics.lookup name with
  | none =>
    rw [found] at member
    exact absurd member List.not_mem_nil
  | some t =>
    rw [found] at member
    obtain ⟨id, _, made⟩ := List.mem_map.mp member
    rw [← made]
    exact ⟨t, rfl, by simp only, by simp only, by simp only⟩

theorem mem_targets {order : MapOrder} {target : Target} (member : target ∈ m.targets order) :
    ∃ t, m.topics.lookup target.name = some t ∧
      target.maxAge = retentionAge t.retention.maxAgeSeconds ∧
      target.maxBytes = t.retention.maxBytes := by
  obtain ⟨name, _, inside⟩ := List.mem_flatMap.mp member
  obtain ⟨t, found, same, limits⟩ := mem_topicTargets inside
  exact ⟨t, by rw [same]; exact found, limits⟩

theorem targets_once (order : MapOrder) :
    ((m.targets order).map fun t => (t.name, t.id)).Nodup := by
  unfold Manager.targets
  rw [List.map_flatMap, List.nodup_flatMap]
  refine ⟨?_, ?_⟩
  · intro name _
    cases m.topics.lookup name with
    | none => exact List.nodup_nil
    | some t =>
      simp only [Option.elim_some, Topic.targets, List.map_map]
      refine List.Nodup.map ?_ List.nodup_range
      intro a b same
      exact (Prod.mk.inj same).2
  · have distinct : (order.visit m.topics.keys).Nodup :=
      (order.perm _).nodup_iff.mpr m.topics.keys_nodup
    refine distinct.imp ?_
    intro a b apart
    refine List.disjoint_left.mpr ?_
    intro key left right
    obtain ⟨target, inA, rfl⟩ := List.mem_map.mp left
    obtain ⟨other, inB, same⟩ := List.mem_map.mp right
    obtain ⟨_, _, nameA, _⟩ := mem_topicTargets inA
    obtain ⟨_, _, nameB, _⟩ := mem_topicTargets inB
    exact apart (by rw [← nameA, ← nameB, (Prod.mk.inj same).1])

end Targets

/-! ## When a pass deletes young records -/

section Young

variable {seconds : UInt64} {now : Int}

theorem spares_of_spared (spared : Spared seconds now) : SparesYoung seconds now := by
  intro m tree order clock visits faults name id t s P settings J found age part reading tracks idle
    e member gone r inside
  have pass : Meets anything (Manager.applyRetention order clock visits) m tree
      (.always fun tree' =>
        OnlyExpired (retentionCutoff now (retentionAge seconds)) J (tree'.partitions name id)) := by
    apply Meets.bind
    apply Meets.memory
    have limits : ∀ target ∈ (m.targets order).take visits, (target.name, target.id) = (name, id) →
        target.maxAge = retentionAge seconds ∧ target.maxBytes = t.retention.maxBytes := by
      intro target among same
      obtain ⟨t', found', age', bytes'⟩ := mem_targets (List.mem_of_mem_take among)
      rw [(Prod.mk.inj same).1, found, Option.some.injEq] at found'
      rw [age', bytes', ← found', age]
      exact ⟨rfl, rfl⟩
    refine meets_retainTargets (by rw [store?_eq found]; exact part)
      (Holds.onlyExpired tracks.holds)
      ((targets_once order).sublist ((List.take_sublist _ _).map _)) limits ?_
    rw [reading]
    exact Tracks.onlyExpired tracks idle
  obtain ⟨b, stored, time⟩ := Extent.mem_records inside
  rcases pass.always (fun _ _ => trivial) e member gone with empty | old
  · rw [empty] at stored
    exact absurd stored List.not_mem_nil
  · obtain ⟨nonnegative, bound⟩ := Extent.maxTimestamp_le_iff.mp old
    have young := bound b stored
    have condition := spared_iff.mp spared
    omega

theorem retains_of_active {reason : Journal → Prop} {J J' : Journal} (only : J.closed = [])
    (retains : J.Retains reason J') :
    J' = J := by
  cases retains with
  | refl => rfl
  | step nonempty _ _ => exact absurd only nonempty

def blank (time : Int) : Batch := ⟨time, [⟨none, none, [], 0⟩]⟩

theorem blank_size (time : Int) : (blank time).size = 57 := by
  have nonempty : (blank time).stored 0 ≠ [] := by simp [blank, Batch.stored, stampRecords]
  obtain ⟨bytes, encoded, length⟩ := encodeBatch_length nonempty
  rw [Batch.size, Batch.bytes, encoded, Option.getD_some, length]
  rfl

/-- A store can come to hold two segments with one record of that time in each. -/
theorem two_segments (time : Int) (low : -2 ^ 63 ≤ time) (high : time < 2 ^ 63) :
    ∃ s d, Represents 1000 ⟨0, [[blank time]], [blank time]⟩ s d ∧
      s.closed = false ∧ s.writeFailed = false := by
  have stamp : (blank time).time = unixMilli (time * 1000000) := by
    rw [unixMilli, Int.mul_ediv_cancel _ (by decide), int64_of_range low high]
    rfl
  have size := blank_size time
  have fresh : Holds (quietPolicy 1000) Journal.initial Directory.empty := Or.inr ⟨rfl, fresh_empty⟩
  have limit : (quietPolicy 1000).limit ≤ (⟨1, 1000, 1, .async⟩ : Config).maxBatchBytes := le_refl _
  obtain ⟨s, d, _, represents, config, running⟩ :=
    fresh.opens limit (by simp [Journal.initial, Journal.batches])
  obtain ⟨s1, d1, _, represents1, keeps1⟩ :=
    represents.appends running (by rw [config]; exact le_refl _) (by decide) stamp
    (by simp [blank]) (by rw [config, size]; decide) (by decide)
    (by simp [blank, Journal.initial, Journal.logEnd, Journal.batches])
  have first : Journal.initial.push s.config.segmentMaxBytes (blank time) =
      ⟨0, [], [blank time]⟩ := by
    rw [Journal.push, if_neg fun rolls => absurd rolls.active (by simp [Journal.initial])]
    rfl
  rw [first] at represents1
  have running1 : s1.closed = false ∧ s1.writeFailed = false :=
    ⟨keeps1.closed.trans running.1, keeps1.writeFailed.trans running.2⟩
  have config1 := keeps1.config.trans config
  obtain ⟨s2, d2, _, represents2, keeps2⟩ :=
    represents1.appends running1 (by rw [config1]; exact le_refl _) (by decide) stamp
    (by simp [blank]) (by rw [config1, size]; decide) (by simp [blank, span, maxUint32])
    (by simp [blank, Journal.logEnd, Journal.batches])
  have second : Journal.push ⟨0, [], [blank time]⟩ s1.config.segmentMaxBytes (blank time) =
      ⟨0, [[blank time]], [blank time]⟩ := by
    have bytes : (Extent.bytes ⟨0, [blank time]⟩).length = 57 := by
      simp only [Extent.bytes, layout, spread, List.append_nil]
      exact size
    rw [Journal.push, if_pos]
    · rfl
    · refine ⟨?_, ?_⟩
      · show 0 < (Extent.bytes ⟨0, [blank time]⟩).length
        omega
      · show s1.config.segmentMaxBytes < ((Extent.bytes ⟨0, [blank time]⟩).length : Int) +
          (blank time).size
        rw [config1, bytes, size]
        decide
  rw [second] at represents2
  exact ⟨s2, d2, represents2, keeps2.closed.trans running1.1, keeps2.writeFailed.trans running1.2⟩

/-- Where the condition fails, a pass takes a segment with a record of the very cutoff. -/
theorem young_deleted (exposed : ¬ Spared seconds now) : ¬ SparesYoung seconds now := by
  intro spares
  have condition := mt spared_iff.mpr exposed
  rw [not_or, not_lt, not_le] at condition
  obtain ⟨nonnegative, late⟩ := condition
  generalize cut : retentionCutoff now (retentionAge seconds) = cutoff at nonnegative late
  have range : cutoff < 2 ^ 63 := by
    rw [← cut]
    exact (int64_range _).2
  obtain ⟨s, d, represents, opened, running⟩ := two_segments cutoff (by omega) range
  let t : Topic := ⟨[97], [s], ⟨seconds, 18446744073709551615⟩⟩
  let m : Manager := ⟨(∅ : AList fun _ : Bytes => Topic).insert [97] t, s.config, 0, 0⟩
  let tree := Tree.empty.setPartition [97] 0 d
  have place : tree.partitions [97] 0 = d := partitions_setPartition_self
  have found : m.topics.lookup [97] = some t := AList.lookup_insert _
  have target : m.targets .inOrder = [⟨[97], 0, retentionAge seconds, 18446744073709551615⟩] := by
    simp only [Manager.targets, MapOrder.inOrder, id]
    rw [show m.topics.keys = [[97]] from rfl, List.flatMap_singleton, found]
    rfl
  have idle : SizeIdle (tree.partitions [97] 0).segmentBytes 18446744073709551615
      ⟨0, [[blank cutoff]], [blank cutoff]⟩ := by
    intro J' _ oversized
    have bound : J'.diskBytes (tree.partitions [97] 0).segmentBytes < 2 ^ 64 :=
      Nat.mod_lt _ (by decide)
    have limit : (18446744073709551615 : UInt64).toNat = 18446744073709551615 := by decide +kernel
    rw [Journal.Oversized, limit] at oversized
    omega
  have pass : Meets never (Manager.applyRetention .inOrder (fun _ _ => now) 1) m tree
      (.always fun tree' => (tree'.partitions [97] 0).file? (.log 0) = none) := by
    apply Meets.bind
    apply Meets.memory
    dsimp only
    rw [target]
    apply Meets.bind
    refine Meets.ignore (meets_onStore (by rw [store?_eq found]; rfl) ?_)
    rw [place]
    refine meets_applyRetention (P := quietPolicy 1000) represents (le_refl _) ?_ ?_ ?_ ?_
    · rintro (closed | failed)
      · simp [opened] at closed
      · simp [running] at failed
    · intro _ _ J' s' d' fully after _
      apply Meets.pure
      show ((tree.setPartition [97] 0 d').partitions [97] 0).file? (.log 0) = none
      rw [partitions_setPartition_self]
      cases fully with
      | intro old stops big _ =>
        cases old with
        | refl =>
          refine absurd ?_ (stops (by simp))
          rw [cut]
          rintro _ ⟨⟩
          exact Extent.maxTimestamp_le_iff.mpr
            ⟨nonnegative, fun b member => by rw [List.mem_singleton.mp member]; exact le_refl _⟩
        | step _ _ rest =>
          have shifted := retains_of_active rfl rest
          rw [shifted] at big
          rw [retains_of_active rfl big] at after
          by_contra there
          obtain ⟨e, member, base⟩ := after.only 0 there
          rw [List.mem_singleton.mp member] at base
          exact absurd (show 1 = 0 from base) (by decide)
    · exact fun shaky => absurd shaky not_shaky_never
    · exact fun shaky => absurd shaky not_shaky_never
  have old := spares m tree .inOrder (fun _ _ => now) 1 [] [97] 0 t s (quietPolicy 1000)
    (fun _ => True) _ found rfl rfl rfl (by rw [place]; exact .running trivial represents) idle
    ⟨0, [blank cutoff]⟩ List.mem_cons_self (pass.always (by simp)) ⟨0, cutoff, none, none,
      []⟩ List.mem_cons_self
  dsimp only at old
  omega

/-- Age retention spares the young exactly when the age, or what is left of it, is not cut short. -/
theorem age_retention_spares_young (seconds : UInt64) (now : Instant) :
    SparesYoung seconds now ↔ Spared seconds now := by
  refine ⟨?_, spares_of_spared⟩
  intro spares
  by_contra exposed
  exact young_deleted exposed spares

/-- An age of 585 years is less than nothing in nanoseconds: a record is deleted in the second it is
    written. -/
theorem age_retention_deletes_young : ¬ SparesYoung 18446744073 1700000000000000000 :=
  young_deleted (by decide)

end Young

end MessageBroker.Topics
