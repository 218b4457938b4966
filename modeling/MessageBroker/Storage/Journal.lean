import MessageBroker.Storage.Extent
import MessageBroker.Storage.FileRules

namespace MessageBroker.Storage

open BigEndian

/-! ## The content of one segment -/

/-- What a segment stands for: consecutive batches from a base offset on. -/
structure Extent where
  base : Nat
  batches : List Batch
  deriving DecidableEq, Repr

namespace Extent

def next (e : Extent) : Nat := e.base + span e.batches

def bytes (e : Extent) : Bytes := layout e.base e.batches

def records (e : Extent) : List StoredRecord := storedFrom e.base e.batches

def maxTimestamp (e : Extent) : Int := e.batches.foldl (fun largest b => max largest b.time) 0

def extend (e : Extent) (b : Batch) : Extent := ⟨e.base, e.batches ++ [b]⟩

structure Valid (e : Extent) : Prop where
  start : e.base < 2 ^ 64
  batches : ValidFrom e.base e.batches
  relative : ∀ before b after, e.batches = before ++ b :: after → span before ≤ maxUint32

def Boundary (e : Extent) (entry : IndexEntry) : Prop :=
  ∃ before b after,
    e.batches = before ++ b :: after ∧ entry = ⟨span before, (layout e.base before).length⟩

structure Sound (e : Extent) (entries : List IndexEntry) : Prop where
  covers : entries = [] → e.batches = []
  first : ∀ entry ∈ entries.head?, entry = ⟨0, 0⟩
  rising : entries.Pairwise fun a b => a.relativeOffset < b.relativeOffset ∧ a.position < b.position
  boundary : ∀ entry ∈ entries, e.Boundary entry

section Extend

variable {e : Extent} {b : Batch}

@[simp] theorem extend_next : (e.extend b).next = e.next + b.records.length := by
  simp [extend, next, Nat.add_assoc]

@[simp] theorem extend_bytes : (e.extend b).bytes = e.bytes ++ b.bytes e.next := by
  simp [extend, bytes, next, layout, spread_append, spread]

@[simp] theorem extend_maxTimestamp : (e.extend b).maxTimestamp = max e.maxTimestamp b.time := by
  simp [extend, maxTimestamp]

theorem maxTimestamp_le_iff {bound : Int} :
    e.maxTimestamp ≤ bound ↔ 0 ≤ bound ∧ ∀ b ∈ e.batches, b.time ≤ bound := by
  have largest : ∀ (batches : List Batch) (start : Int),
      batches.foldl (fun largest b => max largest b.time) start ≤ bound ↔
        start ≤ bound ∧ ∀ b ∈ batches, b.time ≤ bound := by
    intro batches
    induction batches with
    | nil => simp
    | cons b rest ih =>
      intro start
      rw [List.foldl_cons, ih, max_le_iff, List.forall_mem_cons, and_assoc]
  exact largest e.batches 0

theorem mem_records {r : StoredRecord} (member : r ∈ e.records) :
    ∃ b ∈ e.batches, r.timestamp = b.time := by
  have stored : ∀ (batches : List Batch) (base : Nat),
      r ∈ storedFrom base batches → ∃ b ∈ batches, r.timestamp = b.time := by
    intro batches
    induction batches with
    | nil => exact fun _ nothing => absurd nothing List.not_mem_nil
    | cons b rest ih =>
      intro base member
      rcases List.mem_append.mp member with here | later
      · obtain ⟨_, _, _, time⟩ := Batch.mem_stored here
        exact ⟨b, List.mem_cons_self, time⟩
      · obtain ⟨b', inside, time⟩ := ih _ later
        exact ⟨b', List.mem_cons_of_mem _ inside, time⟩
  exact stored e.batches e.base member

theorem Boundary.extend {entry : IndexEntry} (boundary : e.Boundary entry) :
    (e.extend b).Boundary entry := by
  obtain ⟨before, first, after, batches, position⟩ := boundary
  exact ⟨before, first, after ++ [b], by simp [Extent.extend, batches], position⟩

theorem boundary_end : (e.extend b).Boundary ⟨span e.batches, e.bytes.length⟩ :=
  ⟨e.batches, b, [], rfl, rfl⟩

theorem Valid.filled (valid : e.Valid) : ∀ b ∈ e.batches, b.records ≠ [] := valid.batches.filled

theorem Boundary.position_lt {entry : IndexEntry} (filled : ∀ b ∈ e.batches, b.records ≠ [])
    (boundary : e.Boundary entry) :
    entry.relativeOffset < span e.batches ∧ entry.position < e.bytes.length := by
  obtain ⟨before, b, after, batches, rfl⟩ := boundary
  have here := filled b (by rw [batches]; simp)
  have size := b.count_le here
  have nonempty : 0 < b.records.length := List.length_pos_iff.mpr here
  rw [bytes, batches, layout, spread_append, spread, span_append, span_cons, List.length_append,
    List.length_append, (b.encode_stored _ here).2]
  dsimp only
  exact ⟨by omega, by omega⟩

theorem Valid.next_lt (valid : e.Valid) : e.next < 2 ^ 64 := valid.batches.end_lt valid.start

theorem Valid.extend (valid : e.Valid) (batch : b.Valid e.next)
    (relative : span e.batches ≤ maxUint32) :
    (e.extend b).Valid := by
  refine ⟨valid.start, ?_, ?_⟩
  · rw [Extent.extend, validFrom_append]
    exact ⟨valid.batches, batch, trivial⟩
  · intro before middle after split
    rcases List.eq_nil_or_concat after with rfl | ⟨init, last, rfl⟩
    · have same := List.append_inj' (show e.batches ++ [b] = before ++ [middle] from split) rfl
      rw [← same.1]
      exact relative
    · have same := List.append_inj' (show e.batches ++ [b] = (before ++ middle :: init) ++ [last] by
        rw [show e.batches ++ [b] = _ from split]; simp) rfl
      exact valid.relative before middle init same.1

theorem Valid.front {done rest : List Batch} (valid : e.Valid) (split : e.batches = done ++ rest) :
    Valid ⟨e.base, done⟩ := by
  refine ⟨valid.start, ?_, ?_⟩
  · have all := valid.batches
    rw [split, validFrom_append] at all
    exact all.1
  · intro before b after parts
    exact valid.relative before b (after ++ rest) (by
      rw [split, show done = before ++ b :: after from parts, List.append_assoc, List.cons_append])

theorem base_lt_next (filled : ∀ b ∈ e.batches, b.records ≠ []) (nonempty : e.batches ≠ []) :
    e.base < e.next := by
  obtain ⟨b, rest, batches⟩ := List.exists_cons_of_ne_nil nonempty
  have positive : 0 < b.records.length := List.length_pos_iff.mpr (filled b (by simp [batches]))
  rw [next, batches, span_cons]
  omega

theorem bytes_nil_iff (filled : ∀ b ∈ e.batches, b.records ≠ []) :
    e.bytes = [] ↔ e.batches = [] := by
  constructor
  · intro empty
    cases batches : e.batches with
    | nil => rfl
    | cons b rest =>
      have here := filled b (by simp [batches])
      have size := b.count_le here
      rw [bytes, batches, layout, spread] at empty
      have nothing := congrArg List.length empty
      rw [List.length_append, (b.encode_stored _ here).2] at nothing
      simp at nothing
      omega
  · intro empty
    rw [bytes, empty]
    rfl

theorem Sound.push {entries : List IndexEntry} (filled : ∀ b ∈ e.batches, b.records ≠ [])
    (sound : e.Sound entries) :
    (e.extend b).Sound (entries ++ [⟨span e.batches, e.bytes.length⟩]) := by
  refine ⟨by simp, ?_, ?_, ?_⟩
  · cases entries with
    | nil =>
      intro entry member
      have empty := sound.covers rfl
      simp only [List.nil_append, List.head?_cons, Option.mem_some_iff] at member
      rw [← member, (bytes_nil_iff filled).mpr empty, empty]
      rfl
    | cons head tail => exact fun entry member => sound.first entry (by simpa using member)
  · rw [List.pairwise_append]
    refine ⟨sound.rising, List.pairwise_singleton _ _, ?_⟩
    intro entry member other single
    rw [List.mem_singleton] at single
    rw [single]
    exact (sound.boundary entry member).position_lt filled
  · intro entry member
    rcases List.mem_append.mp member with member | member
    · exact (sound.boundary entry member).extend
    · rw [List.mem_singleton] at member
      rw [member]
      exact boundary_end

/-- A sparse index skips batches, as long as it has the first. -/
theorem Sound.skip {entries : List IndexEntry} (sound : e.Sound entries) (nonempty : entries ≠ []) :
    (e.extend b).Sound entries :=
  ⟨fun empty => absurd empty nonempty, sound.first, sound.rising,
    fun entry member => (sound.boundary entry member).extend⟩

theorem sound_nil (e : Extent) (empty : e.batches = []) : e.Sound [] :=
  ⟨fun _ => empty, by simp, List.Pairwise.nil, by simp⟩

end Extend

end Extent

/-! ## The content of all segments -/

/-- What a partition stands for: the batches of its segments, oldest first, from the offset on where
    retention has left off. -/
structure Journal where
  floor : Nat
  closed : List (List Batch)
  active : List Batch
  deriving DecidableEq, Repr

def extentsFrom : Nat → List (List Batch) → List Extent
  | _, [] => []
  | base, batches :: rest => ⟨base, batches⟩ :: extentsFrom (base + span batches) rest

namespace Journal

def initial : Journal := ⟨0, [], []⟩

def batches (J : Journal) : List Batch := J.closed.flatten ++ J.active

def activeBase (J : Journal) : Nat := J.floor + span J.closed.flatten

def activeExtent (J : Journal) : Extent := ⟨J.activeBase, J.active⟩

def closedExtents (J : Journal) : List Extent := extentsFrom J.floor J.closed

def extents (J : Journal) : List Extent := J.closedExtents ++ [J.activeExtent]

def logEnd (J : Journal) : Nat := J.floor + span J.batches

def roll (J : Journal) : Journal := ⟨J.floor, J.closed ++ [J.active], []⟩

def extend (J : Journal) (b : Batch) : Journal := ⟨J.floor, J.closed, J.active ++ [b]⟩

def Rolls (J : Journal) (segmentMaxBytes : Int) (batchSize : Nat) : Prop :=
  0 < J.activeExtent.bytes.length ∧ segmentMaxBytes < J.activeExtent.bytes.length + batchSize

instance (J : Journal) (segmentMaxBytes : Int) (batchSize : Nat) :
    Decidable (J.Rolls segmentMaxBytes batchSize) :=
  inferInstanceAs (Decidable (_ ∧ _))

def push (J : Journal) (segmentMaxBytes : Int) (b : Batch) : Journal :=
  if J.Rolls segmentMaxBytes b.size then J.roll.extend b else J.extend b

structure Valid (J : Journal) : Prop where
  extents : ∀ e ∈ J.extents, e.Valid
  closed : ∀ batches ∈ J.closed, batches ≠ []

end Journal

section Extents

variable {J : Journal}

theorem extentsFrom_append (base : Nat) (left right : List (List Batch)) :
    extentsFrom base (left ++ right) =
      extentsFrom base left ++ extentsFrom (base + span left.flatten) right := by
  induction left generalizing base with
  | nil => simp [extentsFrom]
  | cons batches left ih =>
    rw [List.cons_append, extentsFrom, ih, extentsFrom, List.flatten_cons, span_append,
      Nat.add_assoc]
    rfl

theorem extentsFrom_length (base : Nat) (pieces : List (List Batch)) :
    (extentsFrom base pieces).length = pieces.length := by
  induction pieces generalizing base with
  | nil => rfl
  | cons batches pieces ih => rw [extentsFrom, List.length_cons, ih, List.length_cons]

theorem Journal.extents_eq (J : Journal) :
    J.extents = extentsFrom J.floor (J.closed ++ [J.active]) := by
  rw [extentsFrom_append]
  rfl

theorem mem_extentsFrom {base : Nat} {pieces : List (List Batch)} {e : Extent}
    (member : e ∈ extentsFrom base pieces) :
    ∃ before after,
      pieces = before ++ e.batches :: after ∧ e.base = base + span before.flatten := by
  induction pieces generalizing base with
  | nil => cases member
  | cons batches pieces ih =>
    rcases List.mem_cons.mp member with rfl | member
    · exact ⟨[], pieces, rfl, rfl⟩
    · obtain ⟨before, after, split, start⟩ := ih member
      exact ⟨batches :: before, after, by rw [split]; rfl, by rw [start]; simp [Nat.add_assoc]⟩

theorem mem_extents_of_piece {base : Nat} {pieces : List (List Batch)} {batches : List Batch}
    (member : batches ∈ pieces) :
    ∃ e ∈ extentsFrom base pieces, e.batches = batches := by
  induction pieces generalizing base with
  | nil => cases member
  | cons first pieces ih =>
    rcases List.mem_cons.mp member with rfl | member
    · exact ⟨⟨base, batches⟩, List.mem_cons_self, rfl⟩
    · obtain ⟨e, present, same⟩ := @ih (base + span first) member
      exact ⟨e, List.mem_cons_of_mem _ present, same⟩

/-- Segments that are not empty have rising base offsets, whatever stands in the last one. -/
theorem extentsFrom_rising {base : Nat} {pieces : List (List Batch)} {last : List Batch}
    (filled : ∀ batches ∈ pieces, batches ≠ [] ∧ ∀ b ∈ batches, b.records ≠ []) :
    (extentsFrom base (pieces ++ [last])).Pairwise fun a b => a.base < b.base := by
  induction pieces generalizing base with
  | nil => exact List.pairwise_singleton _ _
  | cons batches pieces ih =>
    rw [List.cons_append, extentsFrom]
    obtain ⟨nonempty, records⟩ := filled batches List.mem_cons_self
    have head : base < base + span batches := @Extent.base_lt_next ⟨base, batches⟩ records nonempty
    refine List.pairwise_cons.mpr
      ⟨?_, ih fun other member => filled other (List.mem_cons_of_mem _ member)⟩
    intro e member
    obtain ⟨_, _, _, start⟩ := mem_extentsFrom member
    dsimp only
    omega

theorem Journal.filled (extents : ∀ e ∈ J.extents, ∀ b ∈ e.batches, b.records ≠ []) :
    ∀ b ∈ J.batches, b.records ≠ [] := by
  intro b member
  rw [show J.batches = (J.closed ++ [J.active]).flatten by simp [Journal.batches]] at member
  obtain ⟨batches, present, inside⟩ := List.mem_flatten.mp member
  obtain ⟨e, known, rfl⟩ : ∃ e ∈ J.extents, e.batches = batches := by
    rw [J.extents_eq]
    exact mem_extents_of_piece present
  exact extents e known b inside

theorem Journal.rising (closed : ∀ batches ∈ J.closed, batches ≠ [])
    (filled : ∀ b ∈ J.batches, b.records ≠ []) :
    J.extents.Pairwise fun a b => a.base < b.base := by
  rw [J.extents_eq]
  refine extentsFrom_rising
    fun batches member => ⟨closed batches member, fun b inside => filled b ?_⟩
  exact List.mem_append_left _ (List.mem_flatten_of_mem member inside)

theorem Journal.Valid.filled (valid : J.Valid) : ∀ b ∈ J.batches, b.records ≠ [] :=
  Journal.filled fun e member => (valid.extents e member).filled

theorem Journal.Valid.rising (valid : J.Valid) : J.extents.Pairwise fun a b => a.base < b.base :=
  J.rising valid.closed valid.filled

theorem Journal.closed_lt (ordered : J.extents.Pairwise fun a b => a.base < b.base) {e : Extent}
    (member : e ∈ J.closedExtents) : e.base < J.activeBase :=
  (List.pairwise_append.mp ordered).2.2 e member J.activeExtent (List.mem_singleton_self _)

theorem Journal.Valid.closed_lt (valid : J.Valid) {e : Extent} (member : e ∈ J.closedExtents) :
    e.base < J.activeBase :=
  J.closed_lt valid.rising member

theorem Journal.base_le (ordered : J.extents.Pairwise fun a b => a.base < b.base) {e : Extent}
    (member : e ∈ J.extents) :
    e.base ≤ J.activeBase := by
  rcases List.mem_append.mp member with member | member
  · exact le_of_lt (J.closed_lt ordered member)
  · rw [List.mem_singleton.mp member]
    exact le_refl _

/-- No two segments have one base offset. -/
theorem Journal.same_base {a b : Extent} (ordered : J.extents.Pairwise fun a b => a.base < b.base)
    (left : a ∈ J.extents) (right : b ∈ J.extents) (base : a.base = b.base) : a = b := by
  have distinct : (J.extents.map Extent.base).Nodup := by
    rw [List.Nodup, List.pairwise_map]
    exact ordered.imp fun less => Nat.ne_of_lt less
  exact List.inj_on_of_nodup_map distinct left right base

theorem Journal.Valid.same {a b : Extent} (valid : J.Valid) (left : a ∈ J.extents)
    (right : b ∈ J.extents) (base : a.base = b.base) : a = b :=
  J.same_base valid.rising left right base

theorem Journal.mem_batches {e : Extent} {b : Batch} (member : e ∈ J.extents)
    (inside : b ∈ e.batches) :
    b ∈ J.batches := by
  rw [J.extents_eq] at member
  obtain ⟨before, after, split, _⟩ := mem_extentsFrom member
  have flat : J.batches = (J.closed ++ [J.active]).flatten := by simp [Journal.batches]
  rw [flat, split]
  simp only [List.flatten_append, List.flatten_cons, List.mem_append]
  exact Or.inr (Or.inl inside)

theorem Journal.logEnd_eq (J : Journal) : J.logEnd = J.activeExtent.next := by
  simp [Journal.logEnd, Journal.batches, Journal.activeExtent, Journal.activeBase, Extent.next,
    Nat.add_assoc]

@[simp] theorem Journal.extend_batches (J : Journal) (b : Batch) :
    (J.extend b).batches = J.batches ++ [b] := by
  simp [Journal.extend, Journal.batches]

@[simp] theorem Journal.extend_closedExtents (J : Journal) (b : Batch) :
    (J.extend b).closedExtents = J.closedExtents := rfl

@[simp] theorem Journal.extend_activeExtent (J : Journal) (b : Batch) :
    (J.extend b).activeExtent = J.activeExtent.extend b := rfl

theorem Journal.extend_logEnd (J : Journal) (b : Batch) :
    (J.extend b).logEnd = J.logEnd + b.records.length := by
  rw [Journal.logEnd_eq, Journal.extend_activeExtent, Extent.extend_next, ← Journal.logEnd_eq]

@[simp] theorem Journal.roll_batches (J : Journal) : J.roll.batches = J.batches := by
  simp [Journal.roll, Journal.batches]

@[simp] theorem Journal.roll_logEnd (J : Journal) : J.roll.logEnd = J.logEnd := by
  rw [Journal.logEnd, Journal.roll_batches]
  rfl

theorem Journal.roll_activeBase (J : Journal) : J.roll.activeBase = J.logEnd := by
  simp [Journal.roll, Journal.activeBase, Journal.logEnd, Journal.batches]

@[simp] theorem Journal.roll_closedExtents (J : Journal) : J.roll.closedExtents = J.extents := by
  rw [J.extents_eq]
  rfl

theorem Journal.roll_activeExtent (J : Journal) : J.roll.activeExtent = ⟨J.logEnd, []⟩ := by
  rw [Journal.activeExtent, Journal.roll_activeBase]
  rfl

theorem Journal.active_mem (J : Journal) : J.activeExtent ∈ J.extents :=
  List.mem_append_right _ (List.mem_singleton_self _)

theorem Journal.Valid.logEnd_lt (valid : J.Valid) : J.logEnd < 2 ^ 64 := by
  rw [J.logEnd_eq]
  exact (valid.extents _ J.active_mem).next_lt

theorem Journal.Valid.extend {b : Batch} (valid : J.Valid) (batch : b.Valid J.logEnd)
    (relative : span J.active ≤ maxUint32) : (J.extend b).Valid := by
  refine ⟨?_, valid.closed⟩
  intro e member
  rcases List.mem_append.mp member with member | member
  · exact valid.extents e (List.mem_append_left _ member)
  · rw [List.mem_singleton.mp member]
    rw [J.logEnd_eq] at batch
    exact (valid.extents _ J.active_mem).extend batch relative

theorem Journal.Valid.roll (valid : J.Valid) (nonempty : J.active ≠ []) : J.roll.Valid := by
  refine ⟨?_, ?_⟩
  · intro e member
    rw [Journal.extents, Journal.roll_closedExtents, Journal.roll_activeExtent] at member
    rcases List.mem_append.mp member with member | member
    · exact valid.extents e member
    · rw [List.mem_singleton.mp member]
      exact ⟨valid.logEnd_lt, trivial, fun before b after split => by cases before <;> cases split⟩
  · intro batches member
    rcases List.mem_append.mp member with member | member
    · exact valid.closed batches member
    · rw [List.mem_singleton.mp member]
      exact nonempty

end Extents

end MessageBroker.Storage
