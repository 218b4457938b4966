import Mathlib.Data.List.Chain
import MessageBroker.Storage.Crashes

namespace MessageBroker.Storage

open Faulty Runs

/-- What `config.Load` makes sure of. -/
def Config.Loaded (config : Config) : Prop :=
  0 < config.segmentMaxBytes ∧ config.maxBatchBytes ≤ config.segmentMaxBytes

instance (config : Config) : Decidable config.Loaded := inferInstanceAs (Decidable (_ ∧ _))

/-- The next call of a run on a healthy disk, under one configuration. -/
def SteadyCall (config : Config) (_ : List Event) (p : Partition) (step : Step) : Prop :=
  step.faults = [] ∧
    match step.action with
    | .openStore other => other = config
    | .append _ records => ∀ s ∈ p.store, s.logEndOffset + records.length < 2 ^ 64
    | _ => True

instance (config : Config) (past : List Event) (p : Partition) :
    ∀ step, Decidable (SteadyCall config past p step)
  | ⟨.openStore other, faults⟩ => inferInstanceAs (Decidable (faults = [] ∧ other = config))
  | ⟨.append _ records, faults⟩ =>
    inferInstanceAs
      (Decidable (faults = [] ∧ ∀ s ∈ p.store, s.logEndOffset + records.length < 2 ^ 64))
  | ⟨.read _ _, faults⟩ | ⟨.applyRetention _ _ _, faults⟩ | ⟨.closeStore, faults⟩ =>
    inferInstanceAs (Decidable (faults = [] ∧ True))

/-! ## The invariant, over the bytes and the fields -/

structure Piece where
  bytes : Bytes
  records : List StoredRecord

/-- The segment's fields and the content of its log agree. -/
structure Content (seg : Segment) (data : Bytes) (pieces : List Piece) : Prop where
  size : seg.size = data.length
  bytes : data = pieces.flatMap Piece.bytes
  decodes : ∀ piece ∈ pieces, decodeBatch piece.bytes = .ok piece.records ∧ piece.records ≠ []
  ordered : seg.baseOffset ≤ seg.nextOffset
  offsets : (pieces.flatMap Piece.records).map (·.offset) =
    List.range' seg.baseOffset (seg.nextOffset - seg.baseOffset)
  indexEmpty : seg.indexEntries = [] ↔ data = []
  indexFirst : ∀ entry ∈ seg.indexEntries.head?, entry = ⟨0, 0⟩
  indexRising : seg.indexEntries.Pairwise
    fun a b => a.relativeOffset < b.relativeOffset ∧ a.position < b.position
  indexStarts : ∀ entry ∈ seg.indexEntries,
    ∃ before piece after, pieces = before ++ piece :: after ∧
    entry.position = (before.flatMap Piece.bytes).length ∧
    ∀ r ∈ piece.records.head?, r.offset = seg.baseOffset + entry.relativeOffset
  maxTimestamp :
    IsGreatest (insert 0 {t | ∃ r ∈ pieces.flatMap Piece.records, r.timestamp = t}) seg.maxTimestamp

/-- The representation invariant of an open store. -/
structure WellFormed (segmentMaxBytes : Int) (s : Store) (d : Directory) : Prop where
  nonempty : s.segments ≠ []
  rising : s.segments.Pairwise fun a b => a.baseOffset < b.baseOffset
  active : s.activeSegment + 1 = s.segments.length
  chained : s.segments.IsChain fun a b => a.nextOffset = b.baseOffset
  earliest : ∀ seg ∈ s.segments.head?, s.earliestOffset = seg.baseOffset
  logEnd : ∀ seg ∈ s.segments.getLast?, s.logEndOffset = seg.nextOffset
  closed : ∀ seg ∈ s.segments.dropLast, 0 < seg.size
  bounded : ∀ seg ∈ s.segments, (seg.size : Int) ≤ segmentMaxBytes
  content : ∀ seg ∈ s.segments,
    ∃ file pieces, d.file? (.log seg.baseOffset) = Option.some file ∧ Content seg file.data pieces

/-! ## The batches of an extent as pieces of its log -/

section Pieces

variable {e : Extent}

def Extent.pieces (e : Extent) : List Piece :=
  spread (fun b base => [⟨b.bytes base, b.stored base⟩]) e.base e.batches

theorem spread_flatMap {α β : Type} (piece : Batch → Nat → List α) (inner : α → List β) (base : Nat)
    (batches : List Batch) :
    (spread piece base batches).flatMap inner =
      spread (fun b base => (piece b base).flatMap inner) base batches := by
  induction batches generalizing base with
  | nil => rfl
  | cons b rest ih => rw [spread, List.flatMap_append, ih, spread]

theorem Extent.pieces_bytes : e.pieces.flatMap Piece.bytes = e.bytes := by
  rw [Extent.pieces, spread_flatMap]
  simp only [List.flatMap_cons, List.flatMap_nil, List.append_nil]
  rfl

theorem Extent.pieces_records : e.pieces.flatMap Piece.records = e.records := by
  rw [Extent.pieces, spread_flatMap]
  simp only [List.flatMap_cons, List.flatMap_nil, List.append_nil]
  rfl

theorem Extent.pieces_split {before after : List Batch} {b : Batch}
    (split : e.batches = before ++ b :: after) :
    e.pieces = Extent.pieces ⟨e.base, before⟩ ++
      ⟨b.bytes (e.base + span before), b.stored (e.base + span before)⟩ ::
        Extent.pieces ⟨e.base + span before + b.records.length, after⟩ := by
  rw [Extent.pieces, split, spread_append, spread, List.singleton_append]
  rfl

theorem Extent.mem_pieces {piece : Piece} (member : piece ∈ e.pieces) :
    ∃ before b after, e.batches = before ++ b :: after ∧
    piece = ⟨b.bytes (e.base + span before), b.stored (e.base + span before)⟩ := by
  obtain ⟨base, batches⟩ := e
  induction batches generalizing base with
  | nil => exact absurd member List.not_mem_nil
  | cons b rest ih =>
    rcases List.mem_append.mp member with here | later
    · exact ⟨[], b, rest, rfl, List.mem_singleton.mp here⟩
    · obtain ⟨before, b', after, split, same⟩ := ih _ later
      refine ⟨b :: before, b', after, congrArg (b :: ·) split, ?_⟩
      rw [same, span_cons, Nat.add_assoc]

theorem Consecutive.offsets {start : Nat} {records : List StoredRecord}
    (consecutive : Consecutive start records) :
    records.map (·.offset) = List.range' start records.length := by
  apply List.ext_getElem (by simp)
  intro i inside _
  rw [List.length_map] at inside
  rw [List.getElem_map, List.getElem_range', consecutive i _ (List.getElem?_eq_getElem inside),
    Nat.one_mul]

theorem Extent.maxTimestamp_mem :
    e.maxTimestamp = 0 ∨ ∃ b ∈ e.batches, e.maxTimestamp = b.time := by
  have reached :
      ∀ (batches : List Batch) (start : Int),
        batches.foldl (fun largest b => max largest b.time) start = start ∨
      ∃ b ∈ batches, batches.foldl (fun largest b => max largest b.time) start = b.time := by
    intro batches
    induction batches with
    | nil => exact fun _ => Or.inl rfl
    | cons b rest ih =>
      intro start
      rw [List.foldl_cons]
      rcases ih (max start b.time) with same | ⟨b', member, time⟩
      · rcases max_choice start b.time with left | right
        · exact Or.inl (same.trans left)
        · exact Or.inr ⟨b, List.mem_cons_self, same.trans right⟩
      · exact Or.inr ⟨b', List.mem_cons_of_mem _ member, time⟩
  exact reached e.batches 0

theorem Extent.Valid.stamped (valid : e.Valid) {b : Batch} (member : b ∈ e.batches) :
    ∃ r ∈ e.records, r.timestamp = b.time := by
  obtain ⟨before, after, split⟩ := List.append_of_mem member
  obtain ⟨first, rest, records⟩ :=
    List.exists_cons_of_ne_nil ((split ▸ valid.batches).middle).someRecord
  have head : (b.stored (e.base + span before))[0]? =
      some ⟨uint64 (e.base + span before + (0 : Nat)), b.time, first.key, first.value,
        first.headers⟩ :=
    Batch.stored_get (by rw [records]; rfl)
  refine ⟨⟨uint64 (e.base + span before + (0 : Nat)), b.time, first.key, first.value,
    first.headers⟩, ?_, rfl⟩
  rw [← Extent.pieces_records, Extent.pieces_split split]
  exact List.mem_flatMap.mpr ⟨_, List.mem_append_right _ List.mem_cons_self,
    List.mem_of_getElem? head⟩

/-- A segment whose batches can all be decoded has the content its fields say. -/
theorem Mirrors.content {seg : Segment} {d : Directory} (mirrors : Mirrors e seg d)
    (valid : e.Valid) (readable : ∀ b ∈ e.batches, b.Readable) :
    ∃ file pieces, d.file? (.log seg.baseOffset) = some file ∧ Content seg file.data pieces := by
  obtain ⟨file, found, data⟩ := mirrors.log
  have count : e.records.length = e.next - e.base := by
    rw [Extent.records, storedFrom_length, Extent.next, Nat.add_sub_cancel_left]
  refine ⟨file, e.pieces, by rw [mirrors.base]; exact found, ?_⟩
  rw [data]
  refine ⟨mirrors.size, Extent.pieces_bytes.symm, ?_, ?_, ?_, ?_, mirrors.sound.first,
    mirrors.sound.rising, ?_, ?_⟩
  · intro piece member
    obtain ⟨before, b, after, split, rfl⟩ := Extent.mem_pieces member
    have here := (split ▸ valid.batches).middle
    refine ⟨b.decode_readable here (readable b (by rw [split]; simp)), ?_⟩
    rw [← List.length_pos_iff, Batch.stored_length, List.length_pos_iff]
    exact here.someRecord
  · rw [mirrors.base, mirrors.next]
    exact Nat.le_add_right _ _
  · rw [Extent.pieces_records, mirrors.base, mirrors.next, ← count]
    exact (storedFrom_consecutive valid.batches).offsets
  · rw [Extent.bytes_nil_iff valid.filled]
    refine ⟨mirrors.sound.covers, ?_⟩
    intro empty
    rw [List.eq_nil_iff_forall_not_mem]
    intro entry member
    obtain ⟨before, b, after, split, _⟩ := mirrors.sound.boundary entry member
    rw [empty] at split
    exact absurd split (by simp)
  · intro entry member
    obtain ⟨before, b, after, split, rfl⟩ := mirrors.sound.boundary entry member
    refine ⟨_, _, _, Extent.pieces_split split, ?_, ?_⟩
    · rw [Extent.pieces_bytes]
      rfl
    · intro r head
      rw [mirrors.base]
      exact (Batch.stored_consecutive ((split ▸ valid.batches).middle)) 0 r
        (by rw [← List.head?_eq_getElem?]; exact head)
  · rw [Extent.pieces_records, mirrors.maxTimestamp]
    refine ⟨?_, ?_⟩
    · rcases e.maxTimestamp_mem with zero | ⟨b, member, time⟩
      · exact Or.inl zero
      · obtain ⟨r, inside, stamp⟩ := valid.stamped member
        exact Or.inr ⟨r, inside, by rw [stamp, time]⟩
    · obtain ⟨nonnegative, bound⟩ := Extent.maxTimestamp_le_iff.mp (le_refl e.maxTimestamp)
      rintro _ (rfl | ⟨r, inside, rfl⟩)
      · exact nonnegative
      · obtain ⟨b, member, time⟩ := Extent.mem_records inside
        rw [time]
        exact bound b member

end Pieces

/-! ## From the journal to the store -/

section Store

variable {limit segmentMaxBytes : Int} {J J' : Journal} {s : Store} {d : Directory}

def Journal.Sized (segmentMaxBytes : Int) (J : Journal) : Prop :=
  ∀ e ∈ J.extents, (e.bytes.length : Int) ≤ segmentMaxBytes

theorem extentsFrom_chained (base : Nat) (pieces : List (List Batch)) :
    (extentsFrom base pieces).IsChain fun a b => a.next = b.base := by
  induction pieces generalizing base with
  | nil => exact .nil
  | cons batches rest ih =>
    cases rest with
    | nil => exact .singleton _
    | cons more rest => exact List.isChain_cons_cons.mpr ⟨rfl, ih _⟩

theorem map_mirrored {α β γ : Type} {related : α → β → Prop} {left : List α} {right : List β}
    {f : α → γ} {g : β → γ} (all : List.Forall₂ related left right)
    (same : ∀ a b, related a b → f a = g b) : left.map f = right.map g := by
  induction all with
  | nil => rfl
  | cons head _ ih => rw [List.map_cons, List.map_cons, same _ _ head, ih]

theorem mirrored_by {extents : List Extent} {segments : List Segment} {seg : Segment}
    (mirrors : List.Forall₂ (fun e seg => Mirrors e seg d) extents segments)
    (member : seg ∈ segments) :
    ∃ e ∈ extents, Mirrors e seg d := by
  induction mirrors with
  | nil => cases member
  | cons head _ ih =>
    rcases List.mem_cons.mp member with rfl | later
    · exact ⟨_, List.mem_cons_self, head⟩
    · obtain ⟨e, present, mirrors⟩ := ih later
      exact ⟨e, List.mem_cons_of_mem _ present, mirrors⟩

theorem Journal.head_extents (J : Journal) {e : Extent} (head : e ∈ J.extents.head?) :
    e.base = J.floor := by
  rw [J.extents_eq] at head
  cases closed : J.closed <;> rw [closed] at head <;> cases head <;> rfl

theorem Represents.wellFormed (represents : Represents limit J s d)
    (sized : J.Sized segmentMaxBytes) (readable : ∀ b ∈ J.batches, b.Readable) :
    WellFormed segmentMaxBytes s d := by
  obtain ⟨init, last, split, place, closed, active⟩ := represents.split
  -- the offsets of the segments are those of the extents
  have offsets :
      J.extents.map (fun e => (e.base, e.next)) =
        s.segments.map fun seg => (seg.baseOffset, seg.nextOffset) :=
    map_mirrored represents.segments fun e seg mirrors => by rw [mirrors.base, mirrors.next]
  refine ⟨by simp [split], ?_, by simp [split, place], ?_, ?_, ?_, ?_, ?_, ?_⟩
  · have rising := represents.valid.rising
    rw [← List.pairwise_map (f := fun e : Extent => (e.base, e.next)) (R := fun a b => a.1 < b.1),
      offsets, List.pairwise_map] at rising
    exact rising
  · have chained := extentsFrom_chained J.floor (J.closed ++ [J.active])
    rw [← J.extents_eq,
      ← List.isChain_map (f := fun e : Extent => (e.base, e.next)) (R := fun a b => a.2 = b.1),
      offsets, List.isChain_map] at chained
    exact chained
  · intro seg head
    have first : (seg.baseOffset, seg.nextOffset) ∈
        (s.segments.map fun seg => (seg.baseOffset, seg.nextOffset)).head? := by
      rw [List.head?_map]
      exact Option.mem_map_of_mem _ head
    rw [← offsets, List.head?_map] at first
    obtain ⟨e, firstExtent, same⟩ := Option.mem_map.mp first
    rw [represents.earliestOffset, ← J.head_extents firstExtent]
    exact (Prod.mk.inj same).1
  · intro seg final
    rw [split, List.getLast?_concat, Option.mem_some] at final
    rw [← final, active.next, represents.logEndOffset, J.logEnd_eq]
  · intro seg member
    rw [split, List.dropLast_concat] at member
    obtain ⟨e, inside, mirrors⟩ := mirrored_by closed member
    have whole := represents.valid.extents e (List.mem_append_left _ inside)
    rw [mirrors.size, List.length_pos_iff, Ne, Extent.bytes_nil_iff whole.filled]
    obtain ⟨before, after, pieces, _⟩ := mem_extentsFrom inside
    exact represents.valid.closed _ (by rw [pieces]; simp)
  · intro seg member
    obtain ⟨e, inside, mirrors⟩ := mirrored_by represents.segments member
    rw [mirrors.size]
    exact sized e inside
  · intro seg member
    obtain ⟨e, inside, mirrors⟩ := mirrored_by represents.segments member
    exact mirrors.content (represents.valid.extents e inside)
      fun b member => readable b (Journal.mem_batches inside member)

/-! ## Runs -/

theorem Journal.Retains.sub {reason : Journal → Prop} (retains : J.Retains reason J') {e : Extent}
    (member : e ∈ J'.extents) :
    e ∈ J.extents := by
  induction retains with
  | refl => exact member
  | step nonempty _ _ ih =>
    obtain ⟨oldest, rest, split⟩ := List.exists_cons_of_ne_nil nonempty
    rw [Journal.shift_extents split]
    exact List.mem_cons_of_mem _ (ih member)

theorem Journal.Sized.pruned {cutoff : Int} {weight : Nat → Nat} {maxPartitionBytes : Nat}
    (sized : J.Sized segmentMaxBytes) (pruned : J.Pruned cutoff weight maxPartitionBytes J') :
    J'.Sized segmentMaxBytes := by
  cases pruned with
  | intro old big => exact fun e member => sized e (old.sub (big.sub member))

/-- A batch that fits a segment never makes one too large: it is put into a new one instead. -/
theorem Journal.Sized.push {b : Batch} (sized : J.Sized segmentMaxBytes) (nonempty : b.records ≠ [])
    (fits : (b.size : Int) ≤ segmentMaxBytes) :
    (J.push segmentMaxBytes b).Sized segmentMaxBytes := by
  intro e member
  unfold Journal.push at member
  split_ifs at member with rolls
  · rcases List.mem_append.mp member with before | last
    · rw [Journal.extend_closedExtents, Journal.roll_closedExtents] at before
      exact sized e before
    · rw [List.mem_singleton.mp last, Journal.extend_activeExtent, Journal.roll_activeExtent,
        Extent.extend_bytes, List.length_append, (b.encode_stored _ nonempty).2]
      simpa [Extent.bytes, layout, spread] using fits
  · rcases List.mem_append.mp member with before | last
    · rw [Journal.extend_closedExtents] at before
      exact sized e (List.mem_append_left _ before)
    · rw [List.mem_singleton.mp last, Journal.extend_activeExtent, Extent.extend_bytes,
        List.length_append, (b.encode_stored _ nonempty).2]
      rw [Journal.Rolls, not_and, not_lt] at rolls
      by_cases empty : 0 < J.activeExtent.bytes.length
      · have bound := rolls empty
        omega
      · omega

end Store

section Steady

variable {config : Config} {past : List Event} {p : Partition} {step : Step} {s : Store}

theorem Tracks.setting {allowed : Fault → Prop} {P : Policy} {settings : Config → Prop}
    {J : Journal} (tracks : Tracks allowed P settings J p) (opened : p.store = some s) :
    settings s.config := by
  cases tracks with
  | stopped => cases opened
  | running setting _ =>
    cases opened
    exact setting
  | broken setting _ _ =>
    cases opened
    exact setting

def SteadyState (config : Config) (past : List Event) (p : Partition) : Prop :=
  ∃ J, Tracks never (quietPolicy config.maxBatchBytes) (· = config) J p ∧
    Recalls past J ∧ J.Sized config.segmentMaxBytes

theorem steadyState_new (loaded : config.Loaded) : SteadyState config [] Partition.new := by
  refine ⟨Journal.initial, .stopped (Or.inr ⟨rfl, fresh_empty⟩), ⟨⟨[], rfl, rfl⟩, rfl, ?_, ?_⟩, ?_⟩
  · exact fun _ _ found => by cases found
  · exact fun _ member => absurd member List.not_mem_nil
  · intro e member
    rw [List.mem_singleton.mp member]
    exact le_of_lt loaded.1

theorem SteadyState.follows (loaded : config.Loaded) (small : config.maxBatchBytes < 2 ^ 31)
    (state : SteadyState config past p) (call : SteadyCall config past p step) :
    SteadyState config (past ++ [happen Partition.perform p step]) (p.perform step).2 := by
  obtain ⟨J, tracks, recalls, sized⟩ := state
  obtain ⟨quiet, fits⟩ := call
  have permitted : ∀ fault ∈ step.faults, never fault := by
    rw [quiet]
    exact fun _ member => absurd member List.not_mem_nil
  have fitting : Fitting (quietPolicy config.maxBatchBytes) (· = config) p step.action := by
    cases action : step.action with
    | openStore other =>
      rw [action] at fits
      exact ⟨fits, by rw [show other = config from fits]; exact le_refl _⟩
    | append now records =>
      rw [action] at fits
      exact fits
    | _ => trivial
  obtain ⟨J', moves, tracks', _⟩ := tracks.perform (fun shaky => absurd shaky not_shaky_never)
    (tracks.admits small (fun other same => by rw [same]; exact le_refl _) _) permitted fitting
  refine ⟨J', tracks', recalls.step moves tracks', ?_⟩
  have known : ∀ s, p.store = some s → s.config = config := fun s opened => tracks.setting opened
  generalize step.action = action at moves
  generalize (p.perform step).1 = outcome at moves
  cases moves with
  | appended opened _ nonempty size =>
    rw [known _ opened] at size ⊢
    exact sized.push nonempty (le_trans size loaded.2)
  | appendFailed _ shaky => exact absurd shaky not_shaky_never
  | appendDied shaky => exact absurd shaky not_shaky_never
  | retained _ pruned => exact sized.pruned pruned
  | _ => exact sized

/-- Without a timestamp that the format cannot hold, every open store is well formed. -/
theorem store_wellFormed (loaded : config.Loaded) (small : config.maxBatchBytes < 2 ^ 31)
    (run : Run Partition.perform (SteadyCall config) Partition.new past p)
    (stamped : ∀ event ∈ past, event.input.action.stamp ≠ some (-2 ^ 63))
    (opened : p.store = some s) :
    WellFormed config.segmentMaxBytes s p.directory := by
  obtain ⟨J, tracks, recalls, sized⟩ : SteadyState config past p :=
    run.invariant (steadyState_new loaded) fun _ _ _ state call => state.follows loaded small call
  obtain ⟨gone, batches, _⟩ := recalls.batches
  have readable : ∀ b ∈ J.batches, b.Readable := by
    intro b member
    have made : b ∈ written past := by
      rw [batches]
      exact List.mem_append_right _ member
    obtain ⟨event, present, wrote⟩ := List.mem_filterMap.mp made
    obtain ⟨now, records, action, rfl⟩ := writtenOf_append wrote
    intro least
    exact stamped event present (by rw [action]; exact congrArg some least)
  cases tracks with
  | stopped => cases opened
  | running _ represents =>
    cases opened
    exact represents.wellFormed sized readable
  | broken _ shaky _ => exact absurd shaky not_shaky_never

/-- Two batches in two segments, a restart and one more batch. -/
theorem store_wellFormed_rolled :
    let config : Config := ⟨100, 100, 10, .sync⟩
    let history := execute Partition.perform [] Partition.new
      [⟨.openStore config, []⟩, ⟨.append 5000000 [⟨none, some [97], [], 0⟩], []⟩,
       ⟨.append 6000000 [⟨none, some [98], [], 0⟩], []⟩, ⟨.closeStore, []⟩, ⟨.openStore config, []⟩,
       ⟨.append 7000000 [⟨none, some [99], [], 0⟩], []⟩]
    ∃ s, history.2.store = some s ∧
      s.segments.length = 3 ∧ WellFormed 100 s history.2.directory := by
  intro config history
  obtain ⟨s, opened⟩ :=
    Option.isSome_iff_exists.mp (show history.2.store.isSome = true by decide +kernel)
  have three : history.2.store.map (fun s => s.segments.length) = some 3 := by decide +kernel
  rw [opened] at three
  have run : Run Partition.perform (SteadyCall config) Partition.new history.1 history.2 :=
    run_execute .start (by decide +kernel)
  exact ⟨s, opened, Option.some.inj three,
    store_wellFormed (by decide) (by decide) run (by decide +kernel) opened⟩

/-- A log no prefix of which can be decoded is not a concatenation of batches. -/
theorem Content.decodable {seg : Segment} {data : Bytes} {pieces : List Piece}
    (content : Content seg data pieces) (nonempty : data ≠ []) :
    ∃ n ≤ data.length, ∃ records, decodeBatch (data.take n) = .ok records := by
  have bytes := content.bytes
  cases pieces with
  | nil => exact absurd bytes nonempty
  | cons piece rest =>
    rw [List.flatMap_cons] at bytes
    refine ⟨piece.bytes.length, by rw [bytes]; simp, piece.records, ?_⟩
    rw [bytes, List.take_left]
    exact (content.decodes piece List.mem_cons_self).1

/-- A batch stamped with the least `int64` is in the log, and the log cannot be decoded. -/
theorem store_wellFormed_fails :
    let config : Config := ⟨1000, 1000, 10, .sync⟩
    let history := execute Partition.perform [] Partition.new
      [⟨.openStore config, []⟩, ⟨.append (-2 ^ 63 * 1000000) [⟨none, some [97], [], 0⟩], []⟩]
    Run Partition.perform (SteadyCall config) Partition.new history.1 history.2 ∧
      ∃ s, history.2.store = some s ∧ ¬ WellFormed 1000 s history.2.directory := by
  intro config history
  refine ⟨run_execute .start (by decide +kernel), ?_⟩
  obtain ⟨s, opened⟩ :=
    Option.isSome_iff_exists.mp (show history.2.store.isSome = true by decide +kernel)
  refine ⟨s, opened, fun wellFormed => ?_⟩
  have bases : history.2.store.map (fun s => s.segments.map (·.baseOffset)) = some [0] := by
    decide +kernel
  have log : (history.2.directory.file? (.log 0)).map File.data =
      some (Batch.bytes ⟨-2 ^ 63, [⟨none, some [97], [], 0⟩]⟩ 0) := by decide +kernel
  have rejected :
      ∀ n ≤ 58, (decodeBatch
        ((Batch.bytes ⟨-2 ^ 63, [⟨none, some [97], [], 0⟩]⟩ 0).take n)).toOption = none := by
    decide +kernel
  rw [opened, Option.map_some, Option.some.injEq] at bases
  obtain ⟨seg, member, base⟩ :=
    List.mem_map.mp
      (show 0 ∈ s.segments.map (·.baseOffset) by rw [bases]; exact List.mem_singleton_self 0)
  obtain ⟨file, pieces, found, content⟩ := wellFormed.content seg member
  rw [base] at found
  rw [found, Option.map_some, Option.some.injEq] at log
  rw [log] at content
  obtain ⟨n, inside, records, decoded⟩ := content.decodable (by decide +kernel)
  have nothing := rejected n (le_trans inside (by decide +kernel))
  rw [decoded] at nothing
  cases nothing

end Steady

end MessageBroker.Storage
