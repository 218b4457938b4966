import MessageBroker.Storage.DecodeSound

namespace MessageBroker.Storage

open BigEndian Crc32

/-! ## Reads without a bound

    Three of the decoder's length fields are read without asking whether they are still inside the
    batch. `batch` is what the declared length covers: a slice of it fails exactly where the same
    slice of the whole input goes past the batch. -/

/-- A header whose key leaves less than four bytes for the length of its value. -/
structure HeaderOverrun (batch : Bytes) (offset : Nat) : Prop where
  room : offset + 8 ≤ batch.length
  key : ∃ key : Bytes, Occurs batch offset (put 4 key.length ++ key) ∧
    batch.length < offset + 4 + key.length + 4

/-- A record in which the batch ends at a field that is read all the same. -/
inductive Overrun (batch : Bytes) (start : Nat) : Prop
  | valueLength (key : Option Bytes) (keySmall : optionalLength key < 2 ^ 31)
      (keyAt : Occurs batch (start + 12) (encodeOptional key))
      (short : batch.length < start + 12 + (encodeOptional key).length + 4)
  | headerCount (key value : Option Bytes) (keySmall : optionalLength key < 2 ^ 31)
      (keyAt : Occurs batch (start + 12) (encodeOptional key))
      (valueSmall : optionalLength value < 2 ^ 31)
      (valueAt : Occurs batch (start + 12 + (encodeOptional key).length) (encodeOptional value))
      (short : batch.length <
        start + 12 + (encodeOptional key).length + (encodeOptional value).length + 4)
  | headerValueLength (key value : Option Bytes) (count : Nat) (headers : List Header)
      (keySmall : optionalLength key < 2 ^ 31)
      (keyAt : Occurs batch (start + 12) (encodeOptional key))
      (valueSmall : optionalLength value < 2 ^ 31)
      (valueAt : Occurs batch (start + 12 + (encodeOptional key).length) (encodeOptional value))
      (countFits : count < 2 ^ 32)
      (countAt : Occurs batch
        (start + 12 + (encodeOptional key).length + (encodeOptional value).length) (put 4 count))
      (quota : start + 12 + (encodeOptional key).length + (encodeOptional value).length + 4 +
        8 * count ≤ batch.length)
      (more : headers.length < count)
      (headersAt : Occurs batch
        (start + 12 + (encodeOptional key).length + (encodeOptional value).length + 4)
        (headers.flatMap encodeHeader))
      (next : HeaderOverrun batch
        (start + 12 + (encodeOptional key).length + (encodeOptional value).length + 4 +
        (headers.flatMap encodeHeader).length))

/-- The record loop gets to a record with an overrun. -/
def RecordsOverrun (baseOffset : Nat) (maxTimestamp : Int) (batch : Bytes) (count start : Nat) :
    Prop :=
  ∃ records : List StoredRecord,
    records.length < count ∧ (∀ r ∈ records, Fits baseOffset maxTimestamp r) ∧
    Occurs batch start (records.flatMap (encodeRecord baseOffset maxTimestamp)) ∧
    let next := start + (records.flatMap (encodeRecord baseOffset maxTimestamp)).length
    next + minimumRecordSize ≤ batch.length ∧ 0 ≤ int64 (get ((batch.drop (next + 4)).take 8)) ∧
      Overrun batch next

/-- A framed batch in which the record loop gets to an overrun. -/
structure Overreads (batch : Bytes) : Prop extends Framed batch where
  quota : 29 + minimumRecordSize * get ((batch.drop 21).take 4) ≤ batch.length
  records : RecordsOverrun (get ((batch.drop 13).take 8)) (int64 (get ((batch.drop 25).take 8)))
    batch (get ((batch.drop 21).take 4)) batchHeaderSize

section Panics

variable {batch : Bytes} {offset : Nat}

theorem decodeSized_guarded {overflow : DecodeError} {invalid : Int → DecodeError} {length : Int}
    (named : overflow ≠ .panic) (described : ∀ length, invalid length ≠ .panic) :
    decodeSized overflow invalid batch batch.length offset length ≠ .error .panic := by
  unfold decodeSized
  intro panicked
  split at panicked
  · split at panicked
    · exact named (Except.error.inj panicked)
    · rename_i room
      rcases bind_error panicked with impossible | ⟨_, _, impossible⟩
      · rw [slice_within (by omega) (by omega)] at impossible
        cases impossible
      · cases impossible
  · split at panicked
    · cases panicked
    · split at panicked
      · exact described _ (Except.error.inj panicked)
      · cases panicked

theorem decodeOptional_panics {overflow : DecodeError} {invalid : Int → DecodeError}
    (named : overflow ≠ .panic) (described : ∀ length, invalid length ≠ .panic) :
    decodeOptional overflow invalid batch batch.length offset = .error .panic ↔
      batch.length < offset + 4 := by
  constructor
  · intro panicked
    by_contra inside
    rcases bind_error panicked with impossible | ⟨_, _, panicked⟩
    · rw [slice_within (by omega) (not_lt.mp inside)] at impossible
      cases impossible
    · exact decodeSized_guarded named described panicked
  · intro short
    rw [decodeOptional, slice_beyond short]
    simp only [Bind.bind, Except.bind]

theorem decodeHeader_panics {i j : Nat} (small : batch.length < 2 ^ 32 + offset) :
    decodeHeader i j batch batch.length offset = .error .panic ↔ HeaderOverrun batch offset := by
  constructor
  · intro panicked
    unfold decodeHeader at panicked
    split at panicked
    · cases panicked
    rename_i room
    rcases bind_error panicked with impossible | ⟨lengthField, lengthSlice, panicked⟩
    · rw [slice_within (by omega) (by omega)] at impossible
      cases impossible
    obtain ⟨lengthAt, _⟩ := occurs_of_field lengthSlice
    dsimp only at panicked
    split at panicked
    · cases panicked
    rcases bind_error panicked with impossible | ⟨key, keySlice, panicked⟩
    · rw [slice_within (by omega) (by omega)] at impossible
      cases impossible
    obtain ⟨keyAt, count⟩ := occurs_of_slice keySlice
    rw [Nat.add_sub_cancel_left] at count
    rw [← count] at lengthAt
    refine ⟨not_lt.mp room, key, lengthAt.join (by rwa [put_length]), ?_⟩
    by_contra inside
    rcases bind_error panicked with impossible | ⟨valueField, valueSlice, panicked⟩
    · rw [slice_within (by omega) (by omega)] at impossible
      cases impossible
    split at panicked
    · cases panicked
    rw [slice_within (by omega) (by omega)] at panicked
    cases panicked
  · rintro ⟨room, key, keyAt, short⟩
    have bound := keyAt.bound
    rw [List.length_append, put_length] at bound
    have behind := keyAt.right_part
    rw [put_length] at behind
    have length : get (put 4 key.length) = key.length := get_put_four (by omega)
    unfold decodeHeader
    rw [if_neg (by omega)]
    simp only [slice_put keyAt.left_part, Bind.bind, Except.bind, length]
    rw [if_neg (by omega)]
    simp only [slice_occurs behind rfl, slice_beyond short]

theorem decodeHeaders_panics {i remaining j : Nat} (small : batch.length < 2 ^ 32 + offset)
    (inside : offset ≤ batch.length) :
    decodeHeaders i batch batch.length remaining j offset = .error .panic ↔
      ∃ headers : List Header,
        headers.length < remaining ∧ Occurs batch offset (headers.flatMap encodeHeader) ∧
        HeaderOverrun batch (offset + (headers.flatMap encodeHeader).length) := by
  induction remaining generalizing j offset with
  | zero =>
    constructor
    · intro panicked
      cases panicked
    · rintro ⟨_, impossible, _⟩
      omega
  | succ remaining ih =>
    constructor
    · intro panicked
      rcases bind_error panicked with here | ⟨⟨h, middle⟩, first, panicked⟩
      · exact ⟨[], by simp, Occurs.nothing inside, (decodeHeader_panics small).mp here⟩
      · obtain ⟨headerAt, rfl⟩ := decodeHeader_ok first
        rcases bind_error panicked with behind | ⟨_, _, impossible⟩
        · obtain ⟨headers, count, headersAt, next⟩ := (ih (by omega) headerAt.bound).mp behind
          refine ⟨h :: headers, by simpa using count, headerAt.join headersAt, ?_⟩
          rw [List.flatMap_cons, List.length_append, ← Nat.add_assoc]
          exact next
        · cases impossible
    · rintro ⟨headers, count, headersAt, next⟩
      cases headers with
      | nil =>
        rw [decodeHeaders, (decodeHeader_panics small).mpr next]
        rfl
      | cons h headers =>
        rw [List.flatMap_cons] at headersAt next
        rw [List.length_append, ← Nat.add_assoc] at next
        have here := headersAt.left_part
        have first := decodeHeader_occurs (i := i) (j := j) here here.bound small
        have behind := (ih (j := j + 1) (by omega) here.bound).mpr
          ⟨headers, by simpa using count, headersAt.right_part, next⟩
        rw [decodeHeaders, first]
        simp only [Bind.bind, Except.bind, behind]

theorem slice_inside_fails {low high : Nat} {reason : DecodeError} (ordered : low ≤ high)
    (inside : high ≤ batch.length) :
    slice batch low high ≠ .error reason := by
  rw [slice_within ordered inside]
  simp

theorem decodeRecord_panics {baseOffset i : Nat} {maxTimestamp : Int} {start : Nat}
    (small : batch.length < 2 ^ 32 + start) :
    decodeRecord baseOffset maxTimestamp i batch batch.length start = .error .panic ↔
      start + minimumRecordSize ≤ batch.length ∧ 0 ≤ int64 (get ((batch.drop (start + 4)).take 8)) ∧
        Overrun batch start := by
  have minimum : minimumRecordSize = 24 := rfl
  have keyPanics :
      ∀ offset, decodeKey i batch batch.length offset = .error .panic ↔ batch.length < offset + 4 :=
    fun offset => decodeOptional_panics (by simp) (by simp)
  have valuePanics :
      ∀ offset, decodeValue i batch batch.length offset = .error .panic ↔
        batch.length < offset + 4 :=
    fun offset => decodeOptional_panics (by simp) (by simp)
  constructor
  · intro panicked
    unfold decodeRecord at panicked
    split at panicked
    · cases panicked
    rename_i room
    rcases bind_error panicked with impossible | ⟨_, _, panicked⟩
    · exact absurd impossible (slice_inside_fails (by omega) (by omega))
    rcases bind_error panicked with impossible | ⟨deltaField, deltaSlice, panicked⟩
    · exact absurd impossible (slice_inside_fails (by omega) (by omega))
    obtain ⟨_, _, delta⟩ := slice_ok deltaSlice
    rw [show start + 4 + 8 - (start + 4) = 8 by omega] at delta
    rw [← delta]
    dsimp only at panicked
    generalize int64 (get deltaField) = timestampDelta at panicked ⊢
    split at panicked
    · cases panicked
    rename_i forward
    refine ⟨not_lt.mp room, not_lt.mp forward, ?_⟩
    rcases bind_error panicked with impossible | ⟨⟨key, afterKey⟩, keyDecoded, panicked⟩
    · rw [keyPanics] at impossible
      omega
    obtain ⟨keyAt, rfl, keySmall⟩ := decodeOptional_ok keyDecoded
    rcases bind_error panicked with short | ⟨⟨value, afterValue⟩, valueDecoded, panicked⟩
    · exact .valueLength key keySmall keyAt ((valuePanics _).mp short)
    obtain ⟨valueAt, rfl, valueSmall⟩ := decodeOptional_ok valueDecoded
    rcases bind_error panicked with short | ⟨countField, countSlice, panicked⟩
    · refine .headerCount key value keySmall keyAt valueSmall valueAt ?_
      by_contra inside
      exact slice_inside_fails (by omega) (not_lt.mp inside) short
    obtain ⟨countAt, countFits⟩ := occurs_of_field countSlice
    have counted := countAt.bound
    rw [put_length] at counted
    dsimp only at panicked counted countAt
    split at panicked
    · cases panicked
    rename_i quota
    rcases bind_error panicked with overrun | ⟨_, _, impossible⟩
    · obtain ⟨headers, more, headersAt, next⟩ :=
        (decodeHeaders_panics (by omega) counted).mp overrun
      rw [header_quota _ counted (by omega)] at quota
      exact .headerValueLength key value (get countField) headers keySmall keyAt valueSmall valueAt
        countFits countAt (by omega) more headersAt next
    · cases impossible
  · rintro ⟨room, forward, overrun⟩
    have offsetSlice := @slice_within batch start (start + 4) (by omega) (by omega)
    have deltaSlice := @slice_within batch (start + 4) (start + 4 + 8) (by omega) (by omega)
    rw [show start + 4 + 8 - (start + 4) = 8 by omega] at deltaSlice
    unfold decodeRecord
    rw [if_neg (by omega)]
    simp only [offsetSlice, deltaSlice, Bind.bind, Except.bind]
    rw [if_neg (by omega)]
    cases overrun with
    | valueLength key keySmall keyAt short =>
      have keyDecoded : decodeKey i batch batch.length (start + 4 + 8) = _ :=
        decodeOptional_occurs keyAt keyAt.bound keySmall
      simp only [keyDecoded, (valuePanics _).mpr short]
    | headerCount key value keySmall keyAt valueSmall valueAt short =>
      have keyDecoded : decodeKey i batch batch.length (start + 4 + 8) = _ :=
        decodeOptional_occurs keyAt keyAt.bound keySmall
      have valueDecoded : decodeValue i batch batch.length _ = _ :=
        decodeOptional_occurs valueAt valueAt.bound valueSmall
      simp only [keyDecoded, valueDecoded, slice_beyond short]
    | headerValueLength key value count headers keySmall keyAt valueSmall valueAt countFits countAt
      quota more headersAt
        next =>
      have keyDecoded : decodeKey i batch batch.length (start + 4 + 8) = _ :=
        decodeOptional_occurs keyAt keyAt.bound keySmall
      have valueDecoded : decodeValue i batch batch.length _ = _ :=
        decodeOptional_occurs valueAt valueAt.bound valueSmall
      have overrun :=
        (decodeHeaders_panics (i := i) (j := 0) (by omega) (by omega)).mpr ⟨headers, more,
          headersAt, next⟩
      simp only [keyDecoded, valueDecoded, slice_put countAt, get_put_four countFits]
      rw [if_neg (by rw [header_quota _ (by omega) (by omega)]; omega)]
      simp only [overrun]

theorem decodeRecords_panics {baseOffset remaining i : Nat} {maxTimestamp : Int} {start : Nat}
    (small : batch.length < 2 ^ 32 + start) (inside : start ≤ batch.length) :
    decodeRecords baseOffset maxTimestamp batch batch.length remaining i start = .error .panic ↔
      RecordsOverrun baseOffset maxTimestamp batch remaining start := by
  induction remaining generalizing i start with
  | zero =>
    constructor
    · intro panicked
      cases panicked
    · rintro ⟨_, impossible, _⟩
      omega
  | succ remaining ih =>
    constructor
    · intro panicked
      rcases bind_error panicked with here | ⟨⟨r, middle⟩, first, panicked⟩
      · exact ⟨[], by simp, by simp, Occurs.nothing inside, (decodeRecord_panics small).mp here⟩
      · obtain ⟨fits, recordAt, rfl⟩ := decodeRecord_ok first
        rcases bind_error panicked with behind | ⟨_, _, impossible⟩
        · obtain ⟨records, count, allFit, recordsAt, next⟩ :=
            (ih (by omega) recordAt.bound).mp behind
          refine ⟨r :: records, by simpa using count, List.forall_mem_cons.mpr ⟨fits, allFit⟩,
            recordAt.join recordsAt, ?_⟩
          rw [List.flatMap_cons, List.length_append, ← Nat.add_assoc]
          exact next
        · cases impossible
    · rintro ⟨records, count, allFit, recordsAt, next⟩
      cases records with
      | nil =>
        rw [decodeRecords, (decodeRecord_panics small).mpr next]
        rfl
      | cons r records =>
        rw [List.flatMap_cons] at recordsAt next
        rw [List.length_append, ← Nat.add_assoc] at next
        obtain ⟨fits, restFit⟩ := List.forall_mem_cons.mp allFit
        have here := recordsAt.left_part
        have first := decodeRecord_occurs (i := i) fits here here.bound small
        have behind := (ih (i := i + 1) (by omega) here.bound).mpr
          ⟨records, by simpa using count, restFit, recordsAt.right_part, next⟩
        rw [decodeRecords, first]
        simp only [Bind.bind, Except.bind, behind]

theorem decodeBody_panics {batchLength : Nat} (whole : batch.length = 9 + batchLength)
    (fits : batchLength < 2 ^ 32) (header : batchHeaderSize ≤ batch.length) :
    decodeBody batchLength batch = .error .panic ↔
      29 + minimumRecordSize * get ((batch.drop 21).take 4) ≤ batch.length ∧
        RecordsOverrun (get ((batch.drop 13).take 8)) (int64 (get ((batch.drop 25).take 8))) batch
          (get ((batch.drop 21).take 4)) batchHeaderSize := by
  have size : batchHeaderSize = 33 := rfl
  have minimum : minimumRecordSize = 24 := rfl
  have fixed : baseOffsetSize + recordCountSize + maxTimestampSize = 20 := rfl
  unfold decodeBody
  rw [slice_within (by omega) (by omega), slice_within (by omega) (by omega),
    slice_within (by omega) (by omega), ← whole]
  simp only [Bind.bind, Except.bind, Nat.reduceSub, fixed, minimum]
  generalize get ((batch.drop 21).take 4) = count
  split_ifs with impossible nothing
  · constructor
    · intro panicked
      cases panicked
    · rintro ⟨quota, _⟩
      omega
  · constructor
    · intro panicked
      cases panicked
    · rintro ⟨_, _, impossible, _⟩
      omega
  · rw [← decodeRecords_panics (i := 0) (by omega) (by omega)]
    constructor
    · intro panicked
      refine ⟨by omega, ?_⟩
      rcases bind_error panicked with overrun | ⟨⟨_, _⟩, _, impossible⟩
      · exact overrun
      · dsimp only at impossible
        split at impossible <;> cases impossible
    · rintro ⟨_, overrun⟩
      simp only [overrun]

/-- On the bytes of its declared size alone the decoder panics exactly at an overrun. -/
theorem decodeBatch_panics (declared : batch.length ≤ declaredSize batch) :
    decodeBatch batch = .error .panic ↔ Overreads batch := by
  have enough : 9 ≤ declaredSize batch := Nat.le_add_right _ _
  have fits : declaredSize batch - 9 < 2 ^ 32 := by
    have bound := declaredSize_lt batch
    omega
  rcases framed_or_rejected declared with framed | ⟨reason, notPanic, rejected⟩
  · rw [framed.decode, decodeBody_panics (by rw [framed.whole]; omega) fits framed.header]
    exact ⟨fun ⟨quota, records⟩ => { framed with quota, records },
      fun overreads => ⟨overreads.quota, overreads.records⟩⟩
  · constructor
    · intro panicked
      rw [rejected] at panicked
      exact absurd (Except.error.inj panicked) notPanic
    · intro overreads
      have size : batch.length = 9 + (declaredSize batch - 9) := by rw [overreads.whole]; omega
      rw [overreads.decode]
      exact (decodeBody_panics size fits overreads.header).mpr ⟨overreads.quota, overreads.records⟩

end Panics

/-! ## What follows the batch -/

/-- Unless the run on the cut data ran into its end, the run on the whole data does the same. -/
def Agrees {α : Type} (whole cut : Except DecodeError α) : Prop := cut = .error .panic ∨ whole = cut

section Agrees

variable {α β : Type} {whole cut : Except DecodeError α} {batch : Bytes} {total offset : Nat}

theorem Agrees.refl (x : Except DecodeError α) : Agrees x x := Or.inr rfl

theorem Agrees.bind {f g : α → Except DecodeError β} (agrees : Agrees whole cut)
    (rest : ∀ value, Agrees (f value) (g value)) :
    Agrees (whole >>= f) (cut >>= g) := by
  rcases agrees with rfl | rfl
  · exact Or.inl rfl
  · cases whole with
    | error reason => exact Or.inr rfl
    | ok value => exact rest value

theorem Agrees.ite {condition : Prop} [Decidable condition] {a b a' b' : Except DecodeError α}
    (yes : Agrees a a') (no : Agrees b b') :
    Agrees (if condition then a else b) (if condition then a' else b') := by
  split
  · exact yes
  · exact no

variable (trailing : Bytes)

theorem slice_agrees (low high : Nat) :
    Agrees (slice (batch ++ trailing) low high) (slice batch low high) := by
  by_cases inside : low ≤ high ∧ high ≤ batch.length
  · right
    rw [slice_within inside.1 inside.2, slice_within inside.1 (by rw [List.length_append]; omega),
      List.drop_append_of_le_length (by omega),
      List.take_append_of_le_length (by rw [List.length_drop]; omega)]
  · left
    rw [slice, if_neg inside]

theorem decodeOptional_agrees (overflow : DecodeError) (invalid : Int → DecodeError) :
    Agrees (decodeOptional overflow invalid (batch ++ trailing) total offset)
      (decodeOptional overflow invalid batch total offset) := by
  refine (slice_agrees trailing _ _).bind fun length => ?_
  unfold decodeSized
  refine .ite (.ite (.refl _) ((slice_agrees trailing _ _).bind fun _ => .refl _)) (.refl _)

theorem decodeHeader_agrees (i j : Nat) :
    Agrees (decodeHeader i j (batch ++ trailing) total offset)
      (decodeHeader i j batch total offset) := by
  unfold decodeHeader
  refine .ite (.refl _) ((slice_agrees trailing _ _).bind fun _ => .ite (.refl _) ?_)
  refine (slice_agrees trailing _ _).bind
    fun _ => (slice_agrees trailing _ _).bind fun _ => .ite (.refl _) ?_
  exact (slice_agrees trailing _ _).bind fun _ => .refl _

theorem decodeHeaders_agrees (i remaining j : Nat) :
    Agrees (decodeHeaders i (batch ++ trailing) total remaining j offset)
      (decodeHeaders i batch total remaining j offset) := by
  induction remaining generalizing j offset with
  | zero => exact .refl _
  | succ remaining ih =>
    exact (decodeHeader_agrees trailing i j).bind fun _ => (ih _).bind fun _ => .refl _

theorem decodeRecord_agrees (baseOffset i : Nat) (maxTimestamp : Int) :
    Agrees (decodeRecord baseOffset maxTimestamp i (batch ++ trailing) total offset)
      (decodeRecord baseOffset maxTimestamp i batch total offset) := by
  unfold decodeRecord
  refine .ite (.refl _)
    ((slice_agrees trailing _ _).bind fun _ => (slice_agrees trailing _ _).bind fun _ => ?_)
  refine .ite (.refl _)
    ((decodeOptional_agrees trailing _ _).bind
      fun _ => (decodeOptional_agrees trailing _ _).bind fun _ => ?_)
  refine (slice_agrees trailing _ _).bind fun _ => .ite (.refl _) ?_
  exact (decodeHeaders_agrees trailing _ _ _).bind fun _ => .refl _

theorem decodeRecords_agrees (baseOffset : Nat) (maxTimestamp : Int) (remaining i : Nat) :
    Agrees (decodeRecords baseOffset maxTimestamp (batch ++ trailing) total remaining i offset)
      (decodeRecords baseOffset maxTimestamp batch total remaining i offset) := by
  induction remaining generalizing i offset with
  | zero => exact .refl _
  | succ remaining ih =>
    exact (decodeRecord_agrees trailing baseOffset i maxTimestamp).bind
      fun _ => (ih _).bind fun _ => .refl _

theorem decodeBody_agrees (batchLength : Nat) :
    Agrees (decodeBody batchLength (batch ++ trailing)) (decodeBody batchLength batch) := by
  unfold decodeBody
  refine (slice_agrees trailing _ _).bind fun _ => (slice_agrees trailing _ _).bind fun _ => ?_
  refine (slice_agrees trailing _ _).bind fun _ => .ite (.refl _) (.ite (.refl _) ?_)
  exact (decodeRecords_agrees trailing _ _ _ _).bind fun _ => .refl _

theorem decodeBatch_agrees (header : batchHeaderSize ≤ batch.length)
    (declared : declaredSize batch ≤ batch.length) :
    Agrees (decodeBatch (batch ++ trailing)) (decodeBatch batch) := by
  have size : batchHeaderSize = 33 := rfl
  unfold declaredSize at declared
  have longer : batch.length ≤ (batch ++ trailing).length := by
    rw [List.length_append]
    omega
  have cutField : slice batch 5 9 = .ok ((batch.drop 5).take 4) :=
    slice_within (by omega) (by omega)
  have lengthField : slice (batch ++ trailing) 5 9 = .ok ((batch.drop 5).take 4) := by
    rw [slice_within (by omega) (by omega), List.drop_append_of_le_length (by omega),
      List.take_append_of_le_length (by rw [List.length_drop]; omega)]
  unfold decodeBatch
  rw [if_neg (show ¬ (batch ++ trailing).length < batchHeaderSize by omega),
    if_neg (show ¬ batch.length < batchHeaderSize by omega),
    List.take_append_of_le_length (by omega), List.drop_append_of_le_length (by omega),
    List.take_append_of_le_length (by rw [List.length_drop]; omega),
    cutField, lengthField]
  refine .ite (.refl _) (.ite (.refl _) (.ite (.refl _) ?_))
  rw [if_neg (show ¬ (batch ++ trailing).length < _ by omega),
    if_neg (show ¬ batch.length < _ by omega)]
  refine (slice_agrees trailing _ _).bind fun _ => (slice_agrees trailing _ _).bind fun _ => ?_
  exact .ite (.refl _) (decodeBody_agrees trailing _)

end Agrees

section Reads

variable {data : Bytes}

theorem decodeBatch_small (small : declaredSize data < batchHeaderSize) :
    decodeBatch data ≠ .error .panic := by
  have size : batchHeaderSize = 33 := rfl
  have remainder : minimumBatchRemainder = 24 := rfl
  unfold declaredSize at small
  unfold decodeBatch
  split
  · simp
  split
  · simp
  split
  · simp
  rw [slice_within (by omega) (by omega)]
  simp only [Bind.bind, Except.bind, Nat.reduceSub]
  rw [if_pos (by omega)]
  simp

/-- The decoder returns, and no slice it takes ends behind the data or behind the declared batch. A
    slice fails exactly when it ends behind the bytes it is taken from, and up to the first that
    does the run on the declared batch alone is the run on the data. -/
def ReadsInside (data : Bytes) : Prop :=
  decodeBatch data ≠ .error .panic ∧ decodeBatch (data.take (declaredSize data)) ≠ .error .panic

theorem decodeBatch_reads_inside (data : Bytes) :
    ReadsInside data ↔ ¬ Overreads (data.take (declaredSize data)) := by
  have same := declaredSize_take data (show 9 ≤ declaredSize data from Nat.le_add_right _ _)
  have cut : decodeBatch (data.take (declaredSize data)) = .error .panic ↔
      Overreads (data.take (declaredSize data)) :=
    decodeBatch_panics (by rw [same, List.length_take]; omega)
  unfold ReadsInside
  rw [Ne, Ne, cut]
  refine ⟨And.right, fun guarded => ⟨?_, guarded⟩⟩
  intro panicked
  rw [← cut] at guarded
  by_cases short : data.length ≤ declaredSize data
  · rw [List.take_of_length_le short] at guarded
    exact guarded panicked
  by_cases small : declaredSize data < batchHeaderSize
  · exact decodeBatch_small small panicked
  have length : (data.take (declaredSize data)).length = declaredSize data := by
    rw [List.length_take]
    omega
  have agrees := @decodeBatch_agrees (data.take (declaredSize data)) (data.drop (declaredSize data))
    (by omega) (by omega)
  rw [List.take_append_drop] at agrees
  rcases agrees with atEnd | equal
  · exact guarded atEnd
  · exact guarded (by rw [← equal, panicked])

/-- A batch with a valid checksum whose only record ends behind its key. -/
theorem decodeBatch_reads_outside : ¬ ReadsInside (frameBatch 48
    (put 8 0 ++ put 4 1 ++ put 8 0 ++ (put 4 0 ++ put 8 0 ++ put 4 8 ++ put 8 0))) :=
  fun inside => inside.1 (by decide +kernel)

end Reads

end MessageBroker.Storage
