import MessageBroker.Storage.GreedyReads
import MessageBroker.Storage.RetentionSafety

namespace MessageBroker.Storage

open Faulty Runs Lifetimes

/-! ## What the policy demands -/

def segmentsBytes (d : Directory) (segments : List Segment) : Nat :=
  (segments.map fun seg => d.segmentBytes seg.baseOffset).sum

def AgedCounts (s : Store) (cutoff : Int) : Set Nat :=
  {a | a < s.segments.length ∧ ∀ seg ∈ s.segments.take a, seg.maxTimestamp ≤ cutoff}

/-- After how many segments the rest is small enough, or only the active one is left. -/
def SmallCounts (s : Store) (d : Directory) (aged maxPartitionBytes : Nat) : Set Nat :=
  {k | aged ≤ k ∧ k < s.segments.length ∧
    (k + 1 = s.segments.length ∨ segmentsBytes d (s.segments.drop k) ≤ maxPartitionBytes)}

/-! ## The instants of a run -/

def Action.instant : Action → Option Instant
  | .append now _ => some now
  | .applyRetention now _ _ => some now
  | _ => none

def instants (history : List Event) : List Instant :=
  history.filterMap fun event => event.input.action.instant

def Steady (history : List Event) : Prop := (instants history).Pairwise (· ≤ ·)

def Representable (history : List Event) : Prop :=
  ∀ now ∈ instants history, -2 ^ 63 ≤ now / 1000000 ∧ now / 1000000 < 2 ^ 63

section Order

variable {past : List Event} {log : List Batch} {alive : Bool}

theorem unixMilli_mono {now later : Instant} (le : now ≤ later) (low : -2 ^ 63 ≤ now / 1000000)
    (high : later / 1000000 < 2 ^ 63) : unixMilli now ≤ unixMilli later := by
  have order : now / 1000000 ≤ later / 1000000 := Int.ediv_le_ediv (by decide) le
  unfold unixMilli
  rw [int64_of_range low (lt_of_le_of_lt order high), int64_of_range (le_trans low order) high]
  exact order

theorem entry_instant {event : Event} {b : Batch}
    (made : (writtenBy event).or (pendingBy event) = some b) :
    ∃ now, event.input.action.instant = some now ∧ b.time = unixMilli now := by
  have either : writtenBy event = some b ∨ pendingBy event = some b := by
    cases written : writtenBy event with
    | some other =>
      rw [written, Option.some_or] at made
      exact Or.inl made
    | none =>
      rw [written, Option.none_or] at made
      exact Or.inr made
  rcases either with written | pending
  · obtain ⟨now, records, action, rfl⟩ := writtenOf_append written
    exact ⟨now, by rw [action]; rfl, rfl⟩
  · obtain ⟨now, records, action, rfl⟩ := pendingOf_append pending
    exact ⟨now, by rw [action]; rfl, rfl⟩

theorem entries_sublist (past : List Event) :
    ((past.filterMap fun event => (writtenBy event).or (pendingBy event)).map Batch.time).Sublist
      ((instants past).map unixMilli) := by
  induction past with
  | nil => exact List.Sublist.slnil
  | cons event past ih =>
    unfold instants at ih ⊢
    cases made : (writtenBy event).or (pendingBy event) with
    | none =>
      rw [List.filterMap_cons, made]
      refine ih.trans (List.Sublist.map _ ?_)
      exact (List.sublist_cons_self event past).filterMap _
    | some b =>
      obtain ⟨now, instant, time⟩ := entry_instant made
      rw [List.filterMap_cons, List.filterMap_cons, made, instant, List.map_cons, List.map_cons,
        time]
      exact ih.cons_cons _

/-- With a clock that never went backwards the log's batches are in the order of their times. -/
theorem survivors_ordered (survivors : Survivors batchLedger past log alive) (steady : Steady past)
    (representable : Representable past) : log.Pairwise fun a b => a.time ≤ b.time := by
  have times : ((instants past).map unixMilli).Pairwise (· ≤ ·) := by
    rw [List.pairwise_map]
    refine steady.imp_of_mem ?_
    intro now later present present' le
    exact unixMilli_mono le (representable now present).1 (representable later present').2
  have below := (survivors.sublist.map Batch.time).trans (entries_sublist past)
  exact List.pairwise_map.mp (times.sublist below)

end Order

/-! ## What a pass deletes -/

section Counts

variable {limit : Int} {J J' Ji : Journal} {s s' : Store} {d d' : Directory}
  {reason : Journal → Prop} {cutoff : Int} {i maxPartitionBytes : Nat}

theorem Journal.Retains.counted (retains : J.Retains reason J') :
    ∃ k, J'.extents = J.extents.drop k ∧ J'.closed.length + k = J.closed.length ∧
      ∀ i < k, ∃ Ji : Journal, Ji.extents = J.extents.drop i ∧ reason Ji := by
  induction retains with
  | refl J => exact ⟨0, rfl, rfl, fun i nothing => absurd nothing (Nat.not_lt_zero i)⟩
  | @step J J' nonempty cause _ ih =>
    obtain ⟨k, extents, closed, causes⟩ := ih
    obtain ⟨oldest, rest, split⟩ := List.exists_cons_of_ne_nil nonempty
    refine ⟨k + 1, ?_, ?_, ?_⟩
    · rw [Journal.shift_extents split, List.drop_succ_cons, extents]
    · rw [Journal.shift_eq split] at closed
      rw [split, List.length_cons, ← closed, Nat.add_assoc]
    · intro i inside
      cases i with
      | zero => exact ⟨J, rfl, cause⟩
      | succ i =>
        obtain ⟨Ji, same, cause'⟩ := causes i (Nat.lt_of_succ_lt_succ inside)
        exact ⟨Ji, by rw [same, Journal.shift_extents split, List.drop_succ_cons], cause'⟩

theorem Represents.at (represents : Represents limit J s d) (inside : i < s.segments.length) :
    ∃ e, J.extents[i]? = some e ∧ Mirrors e s.segments[i] d := by
  have inside' : i < J.extents.length := by
    rw [represents.segments.length_eq]
    exact inside
  exact ⟨J.extents[i], List.getElem?_eq_getElem inside', represents.segments.get inside' inside⟩

theorem Represents.aged_at (represents : Represents limit J s d)
    (same : Ji.extents = J.extents.drop i) (inside : i < s.segments.length) :
    Ji.Aged cutoff ↔ s.segments[i].maxTimestamp ≤ cutoff := by
  obtain ⟨e, found, mirrors⟩ := represents.at inside
  rw [Journal.Aged, same, List.head?_drop, found, mirrors.maxTimestamp]
  simp

theorem mirrors_bytes {extents : List Extent} {segments : List Segment}
    (mirrors : List.Forall₂ (fun e seg => Mirrors e seg d) extents segments) :
    (extents.map fun e => d.segmentBytes e.base) =
      segments.map fun seg => d.segmentBytes seg.baseOffset := by
  induction mirrors with
  | nil => rfl
  | cons head _ ih => rw [List.map_cons, List.map_cons, ih, head.base]

theorem Represents.oversized_at (represents : Represents limit J s d)
    (same : Ji.extents = J.extents.drop i) (room : segmentsBytes d s.segments < 2 ^ 64) :
    Ji.Oversized d.segmentBytes maxPartitionBytes ↔
      maxPartitionBytes < segmentsBytes d (s.segments.drop i) := by
  have less : segmentsBytes d (s.segments.drop i) ≤ segmentsBytes d s.segments := by
    unfold segmentsBytes
    exact ((List.drop_sublist i s.segments).map _).sum_le_sum fun _ _ => Nat.zero_le _
  rw [Journal.Oversized, Journal.diskBytes, same, List.map_drop, mirrors_bytes represents.segments,
    ← List.map_drop, ← segmentsBytes, Nat.mod_eq_of_lt (lt_of_le_of_lt less room)]

/-- A whole pass takes as many segments as the policy demands. -/
theorem Represents.demanded (represents : Represents limit J s d)
    (room : segmentsBytes d s.segments < 2 ^ 64)
    (fully : J.PrunedFully cutoff d.segmentBytes maxPartitionBytes J') :
    ∃ aged kept, IsGreatest (AgedCounts s cutoff) aged ∧
      IsLeast (SmallCounts s d aged maxPartitionBytes) kept ∧
      J'.extents = J.extents.drop kept := by
  have length := represents.length
  rw [represents.activeSegment] at length
  cases fully with
  | @intro Ja _ old stops big fits =>
    obtain ⟨a, extents, closed, causes⟩ := old.counted
    obtain ⟨b, extents', closed', causes'⟩ := big.counted
    rw [extents, List.drop_drop] at extents'
    refine ⟨a, a + b, ⟨⟨by omega, ?_⟩, ?_⟩, ⟨⟨by omega, by omega, ?_⟩, ?_⟩, extents'⟩
    · intro seg member
      obtain ⟨i, inside, rfl⟩ := List.getElem_of_mem member
      rw [List.length_take] at inside
      obtain ⟨Ji, same, aged⟩ := causes i (by omega)
      rw [List.getElem_take]
      exact (represents.aged_at same (by omega)).mp aged
    · rintro more ⟨inside, all⟩
      by_contra beyond
      have young := stops (by rw [← List.length_pos_iff]; omega)
      rw [represents.aged_at extents (by omega)] at young
      refine young (all _ ?_)
      rw [List.mem_take_iff_getElem]
      exact ⟨a, by omega, rfl⟩
    · by_cases last : J'.closed = []
      · rw [last, List.length_nil] at closed'
        exact Or.inl (by omega)
      · have small := fits last
        rw [represents.oversized_at extents' room] at small
        exact Or.inr (by omega)
    · rintro k ⟨least, inside, enough⟩
      by_contra before
      obtain ⟨Ji, same, exceeds⟩ := causes' (k - a) (by omega)
      rw [extents, List.drop_drop, show a + (k - a) = k by omega] at same
      rw [represents.oversized_at same room] at exceeds
      omega

theorem Journal.Retains.younger (retains : J.Retains reason J') (valid : J.Valid)
    (ordered : J.batches.Pairwise fun a b => a.time ≤ b.time) (nonempty' : J'.closed ≠ [])
    (aged : J'.Aged cutoff) :
    J.Aged cutoff := by
  induction retains with
  | refl J => exact aged
  | @step J J' nonempty _ rest ih =>
    obtain ⟨oldest, more, split⟩ := List.exists_cons_of_ne_nil nonempty
    rw [Journal.shift_batches split, List.pairwise_append] at ordered
    have old := ih (valid.shift split) ordered.2.1 nonempty' aged
    obtain ⟨k, _, closed, _⟩ := rest.counted
    have length : 0 < J.shift.closed.length := by
      have positive := List.length_pos_iff.mpr nonempty'
      omega
    obtain ⟨next, later, split'⟩ := List.exists_cons_of_ne_nil (List.length_pos_iff.mp length)
    have nextOld : (⟨J.shift.floor, next⟩ : Extent).maxTimestamp ≤ cutoff := by
      rw [Journal.Aged, Journal.shift_extents split'] at old
      exact old _ rfl
    obtain ⟨positive, times⟩ := Extent.maxTimestamp_le_iff.mp nextOld
    obtain ⟨b, member⟩ := List.exists_mem_of_ne_nil next
      ((valid.shift split).closed next (by rw [split']; exact List.mem_cons_self))
    rw [Journal.Aged, Journal.shift_extents split]
    rintro e ⟨⟩
    refine Extent.maxTimestamp_le_iff.mpr ⟨positive, fun first inside => ?_⟩
    refine (ordered.2.2 first inside b ?_).trans (times b member)
    rw [Journal.shift_batches split']
    exact List.mem_append_left _ member

/-- A pass right after one that went as far as it had to has nothing to do. -/
theorem Journal.PrunedFully.again {weight weight' : Nat → Nat} {J'' : Journal} (valid : J.Valid)
    (ordered : J.batches.Pairwise fun a b => a.time ≤ b.time)
    (fully : J.PrunedFully cutoff weight maxPartitionBytes J')
    (weighs : ∀ e ∈ J'.extents, weight' e.base = weight e.base)
    (again : J'.PrunedFully cutoff weight' maxPartitionBytes J'') : J'' = J' := by
  obtain ⟨old, stops, big, fits⟩ := fully
  have same : J'.diskBytes weight' = J'.diskBytes weight := by
    rw [Journal.diskBytes, Journal.diskBytes, List.map_congr_left weighs]
  have young : J'.closed ≠ [] → ¬ J'.Aged cutoff := by
    intro nonempty aged
    obtain ⟨k, _, closed, _⟩ := big.counted
    have positive := List.length_pos_iff.mpr nonempty
    obtain ⟨gone, batches, _⟩ := old.batches
    rw [batches, List.pairwise_append] at ordered
    exact stops (List.length_pos_iff.mp (by omega))
      (big.younger (old.valid valid) ordered.2.1 nonempty aged)
  obtain ⟨old', _, big', _⟩ := again
  cases old' with
  | step nonempty aged _ => exact absurd aged (young nonempty)
  | refl =>
    cases big' with
    | step nonempty exceeds _ =>
      rw [Journal.Oversized, same] at exceeds
      exact absurd exceeds (fits nonempty)
    | refl => rfl

theorem Journal.Drops.records (drops : J.Drops J') {offset : Nat} (low : J'.floor ≤ offset) :
    J'.records.drop (offset - J'.floor) = J.records.drop (offset - J.floor) := by
  obtain ⟨gone, batches, floor⟩ := drops
  have front := storedFrom_length J.floor gone
  have start : (storedFrom J.floor gone).drop (offset - J.floor) = [] :=
    List.drop_eq_nil_of_le (by omega)
  rw [Journal.records, Journal.records, batches, storedFrom_append, List.drop_append, start,
    List.nil_append, front, floor,
    show offset - J.floor - span gone = offset - (J.floor + span gone) by omega]

theorem read_nonpositive {p : Partition} {offset : Nat} {maxBytes : Int} (opened : p.store = some s)
    (absent : maxBytes ≤ 0) :
    (p.perform ⟨.read offset maxBytes, []⟩).1 = .failed (.maxBytesNotPositive maxBytes) := by
  obtain ⟨store, d⟩ := p
  cases opened
  show (settle .found (read offset maxBytes ⟨s, d, []⟩)).1 = _
  unfold read
  rw [if_pos absent]
  rfl

/-- Reads that ask for nothing retention took get the same answer as before. -/
theorem Represents.same_reads {limit' : Int} {offset : Nat} {maxBytes : Int}
    (before : Represents limit J s d) (after : Represents limit' J' s' d') (drops : J.Drops J')
    (running : s.closed = false ∧ s.writeFailed = false)
    (running' : s'.closed = false ∧ s'.writeFailed = false) (readable : ∀ b ∈ J.batches, b.Readable)
    (low : s'.earliestOffset ≤ offset) :
    (Partition.perform ⟨some s', d'⟩ ⟨.read offset maxBytes, []⟩).1 =
      (Partition.perform ⟨some s, d⟩ ⟨.read offset maxBytes, []⟩).1 := by
  have readable' : ∀ b ∈ J'.batches, b.Readable :=
    fun b member => readable b (drops.subset b member)
  have logEnd := drops.logEnd
  rw [after.earliestOffset] at low
  have floor : J.floor ≤ J'.floor := by
    obtain ⟨gone, _, floor⟩ := drops
    omega
  by_cases absent : maxBytes ≤ 0
  · rw [read_nonpositive rfl absent, read_nonpositive rfl absent]
  by_cases high : offset ≤ J.logEnd
  · rw [after.read_finds running' readable' (by omega) low (by omega),
      before.read_finds running readable (by omega) (by omega) high, drops.records low]
  · rw [after.read_outside running' readable' (by omega) (by omega),
      before.read_outside running readable (by omega) (by omega)]

end Counts

/-- The first segments went with their files, and nothing else changed. -/
structure Cut (p : Partition) (s : Store) (kept : Nat) (after : Partition) : Prop where
  store : ∃ first, s.segments[kept]? = some first ∧
    after.store = some { s with
      segments := s.segments.drop kept
      activeSegment := s.activeSegment - kept
      earliestOffset := first.baseOffset }
  deleted : ∀ seg ∈ s.segments.take kept,
    after.directory.file? seg.path = none ∧ after.directory.file? seg.indexPath = none
  files : ∀ name, (∀ seg ∈ s.segments.take kept, name ≠ seg.path ∧ name ≠ seg.indexPath) →
    after.directory.file? name = p.directory.file? name
  reads : ∀ s' ∈ after.store, ∀ offset maxBytes, s'.earliestOffset ≤ offset →
    (after.perform ⟨.read offset maxBytes, []⟩).1 = (p.perform ⟨.read offset maxBytes, []⟩).1

section Pass

variable {limit : Int} {J J' : Journal} {s s' : Store} {d d' : Directory}

/-- On a healthy disk a pass ends with the journal pruned as far as it has to be. -/
theorem Represents.retains (represents : Represents limit J s d)
    (running : s.closed = false ∧ s.writeFailed = false) (now : Instant) (maxAge : Int)
    (maxPartitionBytes : Nat) :
    ∃ J' s' d' count,
      Partition.perform ⟨some s, d⟩ ⟨.applyRetention now maxAge maxPartitionBytes, []⟩ =
        (.done, ⟨some s', d'⟩) ∧
        J.PrunedFully (retentionCutoff now maxAge) d.segmentBytes maxPartitionBytes J' ∧
      Represents limit J' s' d' ∧ Trims never count s d s' d' := by
  have healthy : Meets never (applyRetention now maxAge maxPartitionBytes) s d
      ⟨fun _ s' d' =>
        ∃ J', J.PrunedFully (retentionCutoff now maxAge) d.segmentBytes maxPartitionBytes J' ∧
        Represents limit J' s' d', fun _ _ _ => False, fun _ => False⟩ := by
    refine meets_applyRetention (P := quietPolicy limit) represents (le_refl _) ?_ ?_ ?_ ?_
    · rintro (closed | failed)
      · simp [running.1] at closed
      · simp [running.2] at failed
    · exact fun _ _ J' s' d' fully after _ => ⟨J', fully, after⟩
    · exact fun shaky => absurd shaky not_shaky_never
    · exact fun shaky => absurd shaky not_shaky_never
  obtain ⟨_, s', d', ran, ⟨J', fully, after⟩, count, trims⟩ :=
    (healthy.both (meets_applyRetention_trims now maxAge maxPartitionBytes s d)).succeeds
      (fun _ _ _ impossible => impossible.1) (fun _ impossible => impossible.1)
  refine ⟨J', s', d', count, ?_, fully, after, trims⟩
  show settle _ (applyRetention now maxAge maxPartitionBytes ⟨s, d, []⟩) = _
  rw [ran]
  rfl

theorem Represents.cut {kept count : Nat} (before : Represents limit J s d)
    (after : Represents limit J' s' d') (drops : J.Drops J')
    (extents : J'.extents = J.extents.drop kept) (inside : kept < s.segments.length)
    (trims : Trims never count s d s' d') (running : s.closed = false ∧ s.writeFailed = false)
    (readable : ∀ b ∈ J.batches, b.Readable) :
    count = kept ∧ Cut ⟨some s, d⟩ s kept ⟨some s', d'⟩ := by
  have same : count = kept := by
    have length := after.segments.length_eq
    have most := trims.count_le
    rw [trims.segments, extents, List.length_drop, List.length_drop, before.segments.length_eq]
      at length
    omega
  subst same
  have store := trims.store
  refine ⟨rfl, ⟨s.segments[count], List.getElem?_eq_getElem inside, ?_⟩, ?_, ?_, ?_⟩
  · have first := after.first
    rw [trims.segments, List.head?_drop, List.getElem?_eq_getElem inside, Option.map_some,
      Option.some.injEq] at first
    rw [first, ← store]
  · exact fun seg member => ⟨trims.gone not_shaky_never ⟨seg, member, Or.inl rfl⟩,
      trims.gone not_shaky_never ⟨seg, member, Or.inr rfl⟩⟩
  · exact fun name apart => trims.kept apart
  · rintro _ ⟨⟩ offset maxBytes low
    refine before.same_reads after drops running ?_ readable low
    rw [store]
    exact running

theorem Represents.weighs {kept : Nat} (represents : Represents limit J s d)
    (cut : Cut ⟨some s, d⟩ s kept ⟨some s', d'⟩) (extents : J'.extents = J.extents.drop kept)
    (e : Extent) (member : e ∈ J'.extents) :
    d'.segmentBytes e.base = d.segmentBytes e.base := by
  have apart : ∀ seg ∈ s.segments.take kept, seg.baseOffset ≠ e.base := by
    intro seg present
    rw [extents] at member
    obtain ⟨i, inside, rfl⟩ := List.getElem_of_mem present
    rw [List.length_take] at inside
    obtain ⟨older, found, mirrors⟩ := represents.at (i := i) (by omega)
    have rising := represents.valid.rising
    rw [← List.take_append_drop kept J.extents, List.pairwise_append] at rising
    have early : older ∈ J.extents.take kept := by
      refine List.mem_of_getElem? (i := i) ?_
      rw [List.getElem?_take_of_lt (by omega), found]
    have less := rising.2.2 older early e member
    rw [List.getElem_take, mirrors.base]
    exact Nat.ne_of_lt less
  have log : d'.file? (.log e.base) = d.file? (.log e.base) := cut.files _ fun seg present => by
    simp [Segment.path, Segment.indexPath, (apart seg present).symm]
  have index : d'.file? (.index e.base) = d.file? (.index e.base) :=
    cut.files _ fun seg present => by
    simp [Segment.path, Segment.indexPath, (apart seg present).symm]
  rw [Directory.segmentBytes, Directory.segmentBytes, log, index]

end Pass

section Policy

variable {past : List Event} {p : Partition} {s : Store}

theorem retentionCutoff_eq {now : Instant} {maxAge : Int} (age : -2 ^ 63 < maxAge ∧ maxAge < 2 ^ 63)
    (range : -2 ^ 63 ≤ (now - maxAge) / 1000000 ∧ (now - maxAge) / 1000000 < 2 ^ 63) :
    retentionCutoff now maxAge = (now - maxAge) / 1000000 := by
  have negated : int64 (-maxAge) = -maxAge := int64_of_range (by omega) (by omega)
  rw [retentionCutoff, negated, ← sub_eq_add_neg]
  exact int64_of_range range.1 range.2

/-- A retention pass on a healthy disk deletes what the policy demands and changes nothing else;
    with a clock that never goes backwards a second pass at the same time finds nothing to do. -/
theorem retention_exact (run : Run Partition.perform SoundCall Partition.new past p)
    (opened : p.store = some s) (running : s.closed = false ∧ s.writeFailed = false) {now : Instant}
    {maxAge : Int} (maxPartitionBytes : Nat) (age : -2 ^ 63 < maxAge ∧ maxAge < 2 ^ 63)
    (range : -2 ^ 63 ≤ (now - maxAge) / 1000000 ∧ (now - maxAge) / 1000000 < 2 ^ 63)
    (room : segmentsBytes p.directory s.segments < 2 ^ 64) :
    ∃ aged kept after, IsGreatest (AgedCounts s ((now - maxAge) / 1000000)) aged ∧
      IsLeast (SmallCounts s p.directory aged maxPartitionBytes) kept ∧
      p.perform ⟨.applyRetention now maxAge maxPartitionBytes, []⟩ = (.done, after) ∧
      Cut p s kept after ∧
      (Steady past → Representable past →
        after.perform ⟨.applyRetention now maxAge maxPartitionBytes, []⟩ = (.done, after)) := by
  obtain ⟨J, log, alive, sound⟩ := sound_run run
  have tracks := sound.tracks
  cases tracks with
  | stopped => cases opened
  | broken _ _ broken =>
    cases opened
    exact absurd broken.writeFailed (by simp [running.2])
  | @running s' d _ represents =>
    cases opened
    obtain ⟨J', s', d', count, ran, fully, after, trims⟩ :=
      represents.retains running now maxAge maxPartitionBytes
    rw [retentionCutoff_eq age range] at fully
    obtain ⟨aged, kept, greatest, least, extents⟩ := represents.demanded room fully
    obtain ⟨rfl, cut⟩ :=
      represents.cut after fully.pruned.effect extents least.1.2.1 trims running sound.readable
    refine ⟨aged, count, ⟨some s', d'⟩, greatest, least, ran, cut, fun steady representable => ?_⟩
    have running' : s'.closed = false ∧ s'.writeFailed = false := by
      rw [trims.store]
      exact running
    obtain ⟨J'', s'', d'', more, ran', fully', after', trims'⟩ :=
      after.retains running' now maxAge maxPartitionBytes
    rw [retentionCutoff_eq age range] at fully'
    have ordered : J.batches.Pairwise fun a b => a.time ≤ b.time := by
      have all := survivors_ordered sound.accounts.survivors steady representable
      obtain ⟨gone, batches, _⟩ := sound.accounts.batches
      rw [batches, List.pairwise_append] at all
      exact all.2.1
    have same := fully.again represents.valid ordered (represents.weighs cut extents) fully'
    have nothing : more = 0 := by
      have length := after'.segments.length_eq
      have most := trims'.count_le
      rw [same, trims'.segments, List.length_drop, after.segments.length_eq] at length
      omega
    subst nothing
    cases trims' with
    | start => exact ran'

/-- The first of four segments is too old, and without it and the second one the rest is small
    enough. -/
theorem retention_exact_both :
    let history := execute Partition.perform [] Partition.new
      [⟨.openStore ⟨60, 1000, 10, .async⟩, []⟩, ⟨.append 5000000 [⟨none, some [97], [], 0⟩], []⟩,
       ⟨.append 6000000 [⟨none, some [98], [], 0⟩], []⟩,
       ⟨.append 7000000 [⟨none, some [99], [], 0⟩], []⟩,
       ⟨.append 8000000 [⟨none, some [100], [], 0⟩], []⟩]
    ∃ s, history.2.store = some s ∧ s.segments.length = 4 ∧
      ∃ aged kept after,
        IsGreatest (AgedCounts s 5) aged ∧
          IsLeast (SmallCounts s history.2.directory aged 150) kept ∧
        history.2.perform ⟨.applyRetention 8000000 3000000 150, []⟩ = (.done, after) ∧
          Cut history.2 s kept after ∧
        after.perform ⟨.applyRetention 8000000 3000000 150, []⟩ = (.done, after) := by
  intro history
  have started : history.2.store.isSome := by decide +kernel
  have facts : ∀ s ∈ history.2.store,
      s.segments.length = 4 ∧ s.closed = false ∧ s.writeFailed = false ∧
    segmentsBytes history.2.directory s.segments < 2 ^ 64 := by decide +kernel
  have steady : Steady history.1 ∧ Representable history.1 := by
    unfold Steady Representable
    decide +kernel
  have run : Run Partition.perform SoundCall Partition.new history.1 history.2 :=
    run_execute .start (by decide +kernel)
  obtain ⟨s, opened⟩ := Option.isSome_iff_exists.mp started
  obtain ⟨four, closed, failed, room⟩ := facts s opened
  obtain ⟨aged, kept, after, greatest, least, ran, cut, again⟩ :=
    @retention_exact _ _ s run opened ⟨closed, failed⟩ 8000000 3000000 150 (by decide)
      (by decide) room
  exact ⟨s, opened, four, aged, kept, after, greatest, least, ran, cut, again steady.1 steady.2⟩

/-- The clock passes the last millisecond of an `int64`, so that later batches carry earlier
    timestamps. The first pass deletes the oldest segment for its size, and a second pass at the
    same time deletes the next one for its age. -/
theorem retention_repeats :
    let history := execute Partition.perform [] Partition.new
      [⟨.openStore ⟨60, 1000, 10, .async⟩, []⟩,
        ⟨.append ((2 ^ 63 - 1) * 1000000) [⟨none, some [97], [], 0⟩], []⟩,
       ⟨.append ((2 ^ 63 + 5) * 1000000) [⟨none, some [98], [], 0⟩], []⟩,
       ⟨.append ((2 ^ 63 + 6) * 1000000) [⟨none, some [99], [], 0⟩], []⟩]
    let pass : Step := ⟨.applyRetention ((2 ^ 63 + 7) * 1000000) 100000000 150, []⟩
    let first := history.2.perform pass
    let second := first.2.perform pass
    Run Partition.perform SoundCall Partition.new history.1 history.2 ∧ Steady history.1 ∧
      first.1 = .done ∧
      first.2.store.map (fun s => s.segments.map Segment.baseOffset) = some [1, 2] ∧
      second.1 = .done ∧
      second.2.store.map (fun s => s.segments.map Segment.baseOffset) = some [2] := by
  intro history pass first second
  refine ⟨run_execute .start (by decide +kernel), ?_, by decide +kernel⟩
  unfold Steady
  decide +kernel

end Policy

end MessageBroker.Storage
