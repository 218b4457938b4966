import MessageBroker.Storage.RecoveryIndex

namespace MessageBroker.Storage

open Faulty BigEndian

/-! ## Batches whose headers say where the next one starts -/

/-- What the length field and the offsets of a batch need, whatever its records and its timestamp
    are. -/
structure Batch.Measured (b : Batch) (base : Nat) : Prop where
  placed : b.Placed base
  size : b.size < 2 ^ 32 + 9
  offsets : base + b.records.length < 2 ^ 64

def MeasuredFrom : Nat → List Batch → Prop
  | _, [] => True
  | base, b :: rest => b.Measured base ∧ MeasuredFrom (base + b.records.length) rest

structure Extent.Measured (e : Extent) : Prop where
  start : e.base < 2 ^ 64
  batches : MeasuredFrom e.base e.batches
  fits : ∀ before b after, e.batches = before ++ b :: after →
    IndexEntry.Fits ⟨span before, (layout e.base before).length⟩

section Measured

variable {b : Batch} {base : Nat} {e : Extent}

theorem Batch.Measured.length (measured : b.Measured base) : (b.bytes base).length = b.size :=
  (b.encode_stored base measured.placed.someRecord).2

theorem Batch.Measured.size_ge (measured : b.Measured base) : 57 ≤ b.size := by
  obtain ⟨_, _, _, _, bound⟩ := b.bytes_frame measured.placed
  exact bound

theorem measuredFrom_append (base : Nat) (left right : List Batch) :
    MeasuredFrom base (left ++ right) ↔
      MeasuredFrom base left ∧ MeasuredFrom (base + span left) right := by
  induction left generalizing base with
  | nil => simp [MeasuredFrom]
  | cons b left ih =>
    rw [List.cons_append, MeasuredFrom, ih, MeasuredFrom, span_cons, Nat.add_assoc, and_assoc]

theorem MeasuredFrom.middle {before after : List Batch}
    (measured : MeasuredFrom base (before ++ b :: after)) :
    b.Measured (base + span before) :=
  ((measuredFrom_append base before (b :: after)).mp measured).2.1

theorem MeasuredFrom.end_lt {batches : List Batch} (start : base < 2 ^ 64)
    (measured : MeasuredFrom base batches) :
    base + span batches < 2 ^ 64 := by
  induction batches generalizing base with
  | nil => simpa using start
  | cons b batches ih =>
    have tail := ih measured.1.offsets measured.2
    rw [span_cons]
    omega

theorem Extent.Measured.extend (measured : e.Measured) (batch : b.Measured e.next)
    (fits : IndexEntry.Fits ⟨span e.batches, e.bytes.length⟩) : (e.extend b).Measured := by
  refine ⟨measured.start, ?_, ?_⟩
  · rw [Extent.extend, measuredFrom_append]
    exact ⟨measured.batches, batch, trivial⟩
  · intro before middle after split
    rcases List.eq_nil_or_concat after with rfl | ⟨init, last, rfl⟩
    · have same := List.append_inj' (show e.batches ++ [b] = before ++ [middle] from split) rfl
      rw [← same.1]
      exact fits
    · have same := List.append_inj' (show e.batches ++ [b] = (before ++ middle :: init) ++ [last] by
        rw [show e.batches ++ [b] = _ from split]; simp) rfl
      exact measured.fits before middle init same.1

theorem MeasuredFrom.filled {batches : List Batch} (measured : MeasuredFrom base batches) :
    ∀ b ∈ batches, b.records ≠ [] := by
  induction batches generalizing base with
  | nil => simp
  | cons b batches ih =>
    exact List.forall_mem_cons.mpr ⟨measured.1.placed.someRecord, ih measured.2⟩

theorem Extent.measured_nil (start : base < 2 ^ 64) : Extent.Measured ⟨base, []⟩ :=
  ⟨start, trivial, fun before _ _ split => by cases before <;> cases split⟩

end Measured

/-! ## The sparse index of a list of batches -/

/-- The decision both loops make at a batch: an entry for the first one, and one for each stretch of
    the log. -/
def sampleStep (interval : Int) (index : List IndexEntry × Int) (relative position : Nat) :
    List IndexEntry × Int :=
  if index.1 = [] ∨ interval ≤ position - index.2 then (index.1 ++ [⟨relative, position⟩], position)
  else index

def sampledFrom (interval : Int) (base : Nat) (done : List Batch) (index : List IndexEntry × Int) :
    List Batch → List IndexEntry × Int
  | [] => index
  | b :: rest =>
    sampledFrom interval base (done ++ [b])
      (sampleStep interval index (span done) (layout base done).length) rest

def Extent.sampled (interval : Int) (e : Extent) : List IndexEntry × Int :=
  sampledFrom interval e.base [] ([], -1) e.batches

section Sampling

variable {interval : Int} {e : Extent}

theorem sampledFrom_append (base : Nat) (done : List Batch) (index : List IndexEntry × Int)
    (left right : List Batch) :
    sampledFrom interval base done index (left ++ right) =
      sampledFrom interval base (done ++ left) (sampledFrom interval base done index left)
        right := by
  induction left generalizing done index with
  | nil => simp [sampledFrom]
  | cons b left ih =>
    rw [List.cons_append, sampledFrom, ih, sampledFrom, List.append_assoc, List.singleton_append]

theorem Extent.sampled_extend (interval : Int) (e : Extent) (b : Batch) :
    (e.extend b).sampled interval =
      sampleStep interval (e.sampled interval) (span e.batches) e.bytes.length := by
  rw [Extent.sampled, Extent.extend, sampledFrom_append]
  rfl

theorem sampledFrom_sound (done rest : List Batch) {index : List IndexEntry × Int}
    (filled : ∀ b ∈ done ++ rest, b.records ≠ []) (sound : Extent.Sound ⟨e.base, done⟩ index.1) :
    Extent.Sound ⟨e.base, done ++ rest⟩ (sampledFrom interval e.base done index rest).1 := by
  induction rest generalizing done index with
  | nil =>
    rw [List.append_nil]
    exact sound
  | cons b rest ih =>
    rw [List.append_cons] at filled ⊢
    refine ih (done ++ [b]) filled ?_
    unfold sampleStep
    split_ifs with due
    · refine sound.push fun b member => filled b ?_
      simp only [List.mem_append]
      exact .inl (.inl member)
    · exact sound.skip fun empty => due (.inl empty)

/-- A sampled index is one a read may start from. -/
theorem Extent.Measured.sampled_sound (measured : e.Measured) (interval : Int) :
    e.Sound (e.sampled interval).1 :=
  sampledFrom_sound [] e.batches measured.batches.filled (Extent.sound_nil _ rfl)

theorem Extent.Measured.sampled_fits (measured : e.Measured) (interval : Int) :
    ∀ entry ∈ (e.sampled interval).1, entry.Fits := by
  intro entry member
  obtain ⟨before, b, after, split, rfl⟩ := (measured.sampled_sound interval).boundary entry member
  exact measured.fits before b after split

theorem sampledFrom_last (base : Nat) (done rest : List Batch) {index : List IndexEntry × Int}
    (last : index.2 = match index.1.getLast? with
      | some entry => (entry.position : Int)
      | none => -1) :
    (sampledFrom interval base done index rest).2 =
      match (sampledFrom interval base done index rest).1.getLast? with
      | some entry => (entry.position : Int)
      | none => -1 := by
  induction rest generalizing done index with
  | nil => exact last
  | cons b rest ih =>
    apply ih
    unfold sampleStep
    split_ifs
    · simp
    · exact last

theorem Extent.sampled_last (interval : Int) (e : Extent) :
    (e.sampled interval).2 = match (e.sampled interval).1.getLast? with
      | some entry => (entry.position : Int)
      | none => -1 :=
  sampledFrom_last _ _ _ rfl

theorem readEntries_encode {front : Bytes} {entries : List IndexEntry} {i lastRel lastPos : Nat}
    (place : front.length = i * 12) (fits : ∀ entry ∈ entries, entry.Fits)
    (first : i = 0 → ∀ entry ∈ entries.head?, entry = ⟨0, 0⟩)
    (above : 0 < i → ∀ entry ∈ entries, IndexEntry.Before ⟨lastRel, lastPos⟩ entry)
    (rising : entries.Pairwise IndexEntry.Before) :
    readEntries (front ++ encodeEntries entries) entries.length i lastRel lastPos =
      .ok entries := by
  induction entries generalizing front i lastRel lastPos with
  | nil => rfl
  | cons entry rest ih =>
    obtain ⟨relative, position⟩ := fits entry List.mem_cons_self
    have split : encodeEntries (entry :: rest) = entry.encode ++ encodeEntries rest := rfl
    have relativeField : get (((front ++ encodeEntries (entry :: rest)).drop (i * 12)).take 4) =
        entry.relativeOffset := by
      rw [← place, List.drop_left, split, IndexEntry.encode, List.append_assoc,
        List.take_left' (put_length 4 _), get_put_four relative]
    have positionField : get (((front ++ encodeEntries (entry :: rest)).drop (i * 12 + 4)).take 8) =
        entry.position := by
      rw [← List.drop_drop, ← place, List.drop_left, split, IndexEntry.encode, List.append_assoc,
        List.drop_left' (put_length 4 _), List.take_left' (put_length 8 _),
        get_put_eight (by unfold maxInt64 at position; omega)]
    have whole := @ih (front ++ entry.encode) (i + 1) entry.relativeOffset entry.position
      (by rw [List.length_append, IndexEntry.encode_length]; omega)
      (fun other member => fits other (List.mem_cons_of_mem _ member)) (by omega)
      (fun _ => (List.pairwise_cons.mp rising).1) (List.pairwise_cons.mp rising).2
    rw [List.append_assoc, ← split] at whole
    rw [List.length_cons, readEntries]
    simp only [relativeField, positionField]
    have rises : 0 < i → lastRel < entry.relativeOffset ∧ lastPos < entry.position := fun later =>
      above later entry List.mem_cons_self
    have zero : i = 0 → entry = ⟨0, 0⟩ := fun start => first start entry rfl
    rw [if_neg fun low => absurd (rises low.1).1 (by omega),
      if_neg fun low => absurd (rises low.1).2 (by omega),
      if_neg fun nonzero => by rw [zero nonzero.1] at nonzero; simp at nonzero, if_neg (by omega),
      whole]
    rfl

theorem Extent.Measured.decode_sampled (measured : e.Measured) (interval : Int) :
    readEntries (encodeEntries (e.sampled interval).1)
      ((encodeEntries (e.sampled interval).1).length / 12) 0 0 0 =
      .ok (e.sampled interval).1 := by
  have sound := measured.sampled_sound interval
  rw [encodeEntries_length, Nat.mul_div_cancel _ (by decide)]
  exact @readEntries_encode [] _ 0 0 0 rfl (measured.sampled_fits interval) (fun _ => sound.first)
    (fun impossible => absurd impossible (by decide)) sound.rising

end Sampling

/-! ## The rebuild loop makes the same decisions -/

section Rebuilding

variable {μ : Type} {m : μ} {d : Directory} {seg : Segment} {file : File} {interval : Int}
  {e : Extent}

theorem unshaken {p : Prop} (shaky : Shaky fun _ => False) : p := absurd shaky not_shaky_never

theorem meets_resample (done rest : List Batch) {state : RebuildState} {tmp : File} {left : Bytes}
    {post : Post μ Directory StoreError RebuildState} (measured : e.Measured)
    (base : seg.baseOffset = e.base) (split : e.batches = done ++ rest)
    (found : d.file? seg.path = some file) (content : file.data = e.bytes ++ left)
    (temporary : d.file? (.indexTmp seg.baseOffset) = some tmp)
    (written : tmp.data = encodeEntries state.indexEntries)
    (returns : ∀ state' d' tmp', (state'.indexEntries, state'.lastIndexedPosition) =
        sampledFrom interval e.base done (state.indexEntries, state.lastIndexedPosition) rest →
      d'.file? (.indexTmp seg.baseOffset) = some tmp' →
        tmp'.data = encodeEntries state'.indexEntries →
      SameBut (.indexTmp seg.baseOffset) d d' → post.returns state' m d') :
    Meets (fun _ => False)
      (rebuildEntries interval seg e.bytes.length (layout e.base done).length state) m d post := by
  induction rest generalizing done state d tmp with
  | nil =>
    have whole : e.bytes = layout e.base done := by rw [Extent.bytes, split, List.append_nil]
    rw [rebuildEntries, dif_neg (by rw [whole]; omega)]
    exact Meets.pure (returns state d tmp rfl temporary written (SameBut.refl _ _))
  | cons b rest ih =>
    have here : b.Measured (e.base + span done) := by
      have all := measured.batches
      rw [split] at all
      exact all.middle
    have size := here.size_ge
    have length := here.length
    obtain ⟨relative, _⟩ := measured.fits done b rest split
    have occurs : Occurs file.data (layout e.base done).length (b.bytes (e.base + span done)) := by
      rw [content, Extent.bytes, split, layout, spread_append, spread, List.append_assoc,
        List.append_assoc]
      exact ⟨_, _, rfl, rfl⟩
    have inside : (layout e.base done).length + b.size ≤ e.bytes.length := by
      rw [Extent.bytes, split, layout, spread_append, spread, List.length_append,
        List.length_append, length]
      omega
    have readable := occurs.bound
    rw [length] at readable
    obtain ⟨batchLength, batchBase, batchTime⟩ := b.header_fields here.placed here.size
    have next : (layout e.base done).length + (9 + (b.size - 9)) =
        (layout e.base (done ++ [b])).length := by
      rw [layout, spread_append, List.length_append, spread, spread, List.append_nil, length]
      omega
    have relativeOffset : uint64 ((e.base + span done : Nat) - seg.baseOffset) = span done := by
      rw [base, show ((e.base + span done : Nat) : Int) - e.base = (span done : Nat) by omega]
      exact uint64_of_nat (by dsimp only at relative; omega)
    rw [rebuildEntries, dif_pos (by omega)]
    apply Meets.bind
    refine meets_readAt found (by omega) ?_ unshaken unshaken
    rw [occurs.take_front (by omega)]
    simp only [batchLength, batchBase, batchTime, relativeOffset, next]
    rw [if_neg (by unfold maxUint32; dsimp only at relative; omega)]
    by_cases due : state.indexEntries = [] ∨
      interval ≤ (layout e.base done).length - state.lastIndexedPosition
    · rw [if_pos due]
      apply Meets.bind
      refine meets_writeAt temporary ?_ unshaken unshaken
      refine ih _ (by rw [split]; simp) (by rw [file?_put_other (by simp [Segment.path]), found])
        file?_put_self ?_ ?_
      · have position : state.indexEntries.length * 12 = tmp.data.length := by
          rw [written, encodeEntries_length]
        rw [position, overwrite_end, written, encodeEntries_append]
        simp [encodeEntries]
      · intro state' d' tmp' sampled found' written' others
        refine returns state' d' tmp' ?_ found' written' (sameBut_put.trans others)
        rw [sampled, sampledFrom, sampleStep, if_pos due]
    · rw [if_neg due]
      refine ih _ (by rw [split]; simp) found temporary written ?_
      intro state' d' tmp' sampled
      refine returns state' d' tmp' ?_
      rw [sampled, sampledFrom, sampleStep, if_neg due]

structure Reindexed (interval : Int) (e : Extent) (d d' : Directory) : Prop where
  log : d'.file? (.log e.base) = d.file? (.log e.base)
  index : ∃ file,
    d'.file? (.index e.base) = some file ∧ file.data = encodeEntries (e.sampled interval).1
  frame : Frame e.base d d'

/-- Without a fault a rebuild ends with the sampled index, in memory and on disk. -/
theorem meets_rebuildIndex_sampled {left : Bytes} {post : Post μ Directory StoreError Segment}
    (measured : e.Measured) (base : seg.baseOffset = e.base) (found : d.file? seg.path = some file)
    (content : file.data = e.bytes ++ left)
    (returns : ∀ maxTimestamp d', Reindexed interval e d d' → post.returns { seg with
      indexEntries := (e.sampled interval).1
      lastIndexedPosition := (e.sampled interval).2
      indexDirty := false
      indexSize := (e.sampled interval).1.length * 12
      maxTimestamp := maxTimestamp } m d') :
    Meets (fun _ => False) (rebuildIndex interval seg e.bytes.length) m d post := by
  unfold rebuildIndex
  apply Meets.bind
  refine meets_openTruncate ?_ unshaken unshaken
  intro synced
  apply Meets.bind
  apply Meets.onError
  refine meets_resample [] e.batches measured base rfl
    (by rw [file?_put_other (by simp [Segment.path]), found]) content
    file?_put_self rfl ?_
  intro state d' tmp sampled temporary written others
  have same : SameBut (.indexTmp seg.baseOffset) d d' := sameBut_put.trans others
  have entries : state.indexEntries = (e.sampled interval).1 := congrArg Prod.fst sampled
  have last : state.lastIndexedPosition = (e.sampled interval).2 := congrArg Prod.snd sampled
  apply Meets.bind
  apply Meets.onError
  refine meets_sync temporary ?_ unshaken unshaken
  apply Meets.bind
  apply Meets.onError
  refine meets_close ?_ unshaken unshaken
  apply Meets.bind
  apply Meets.ignore
  refine meets_close ?_ unshaken unshaken
  apply Meets.bind
  apply Meets.onError
  refine meets_rename file?_put_self ?_ unshaken unshaken
  intro names
  apply Meets.bind
  refine meets_openExisting (by rw [file?_durable, file?_put_self]) ?_ unshaken unshaken
  apply Meets.bind
  refine meets_syncDirectory ?_ unshaken unshaken
  apply Meets.pure
  rw [entries, last]
  refine returns _ _ ⟨?_, ?_, ?_⟩
  · rw [file?_durable, file?_durable, file?_put_other (by simp [Segment.indexPath]),
      file?_erase_other (by simp), file?_put_other (by simp), same _ (by simp)]
  · refine ⟨{ tmp with synced := tmp.data }, ?_, by rw [← entries]; exact written⟩
    rw [file?_durable, file?_durable, Segment.indexPath, base, file?_put_self]
  · intro other differs
    rw [← base] at differs
    simp only [file?_durable, Segment.indexPath]
    rw [file?_put_other (by simp), file?_erase_other (by simp), file?_put_other (by simp),
      same _ (by simp), file?_put_other (by simpa using differs), file?_erase_other (by simp),
      file?_put_other (by simp), same _ (by simp)]
    exact ⟨rfl, rfl⟩

end Rebuilding

end MessageBroker.Storage
