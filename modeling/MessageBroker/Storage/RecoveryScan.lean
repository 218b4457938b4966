import MessageBroker.Storage.DiskState
import MessageBroker.Storage.Recovery

namespace MessageBroker.Storage

open Faulty BigEndian

/-! ## One round of the scan on the bytes of the log -/

inductive Round where
  | finished
  | torn (closedError : StoreError)
  | rejected (reason : StoreError)
  | panicked
  | batch (records : List StoredRecord) (totalBatchSize : Nat)
  deriving DecidableEq, Repr

def acceptedBatch (data : Bytes) (expectedOffset totalBatchSize : Nat) : Round :=
  match decodeBatch data with
  | .error .panic => .panicked
  | .error reason => .rejected (.corruptBatch reason)
  | .ok records =>
    match checkBatch expectedOffset records with
    | .error reason => .rejected reason
    | .ok () => .batch records totalBatchSize

def prefixRound (maxBatchBytes : Int) (data : Bytes) (currentPos expectedOffset : Nat)
    (prefixBuf : Bytes) : Round :=
  if prefixBuf.take 4 ≠ magicBytes then .rejected .magicMismatch
  else if (prefixBuf.drop 4).take 1 ≠ [formatVersion1] then .rejected .unsupportedVersion
  else
    let batchLength := get ((prefixBuf.drop 5).take 4)
    if batchLength < minimumBatchRemainder then .rejected (.batchLengthTooSmall batchLength)
    else
      let totalBatchSize := 9 + batchLength
      if maxBatchBytes < totalBatchSize then
        .rejected (.batchExceedsLimit totalBatchSize maxBatchBytes)
      else if data.length < currentPos + totalBatchSize then .torn .incompletePayload
      else acceptedBatch ((data.drop currentPos).take totalBatchSize) expectedOffset totalBatchSize

def scanRound (maxBatchBytes : Int) (data : Bytes) (currentPos expectedOffset : Nat) : Round :=
  if currentPos < data.length then
    if data.length < currentPos + 9 then .torn .incompleteHeader
    else prefixRound maxBatchBytes data currentPos expectedOffset ((data.drop currentPos).take 9)
  else .finished

section Rounds

variable {μ : Type} {allowed : Fault → Prop} {m : μ} {d : Directory} {seg : Segment} {file : File}
  {maxBatchBytes : Int} {active : Bool} {currentPos expected validSize : Nat}
  {post : Post μ Directory StoreError (Segment × Nat × Nat)}

theorem meets_tornTail {closedError : StoreError} (found : d.file? seg.path = some file)
    (valid : validSize ≤ file.data.length)
    (truncated : active = true →
      post.returns ({ seg with size := validSize }, expected, validSize) m
      (d.put seg.path { file with data := file.data.take validSize }))
    (refused : active = false → post.fails closedError m d)
    (fails : Shaky allowed → ∀ operation, post.fails (.io operation) m d)
    (dies : Shaky allowed → post.dies d) :
    Meets allowed (tornTail active seg expected validSize closedError) m d post := by
  unfold tornTail
  cases active with
  | false => exact Meets.throw (refused rfl)
  | true =>
    apply Meets.bind
    apply Meets.bind
    refine meets_truncate found valid ?_ (fun shaky => fails shaky _) dies
    exact Meets.pure (Meets.pure (truncated rfl))

theorem meets_acceptBatch {data : Bytes} (totalBatchSize : Nat)
    {post : Post μ Directory StoreError (List StoredRecord)}
    (outcome : match acceptedBatch data expected totalBatchSize with
      | .batch records _ => post.returns records m d
      | .rejected reason => post.fails reason m d
      | .panicked => post.dies d
      | _ => True) :
    Meets allowed (acceptBatch data expected) m d post := by
  unfold acceptedBatch at outcome
  unfold acceptBatch
  generalize decodeBatch data = decoded at outcome ⊢
  rcases decoded with reason | records
  · cases reason <;> first | exact Meets.die outcome | exact Meets.throw outcome
  · dsimp only at outcome ⊢
    cases checked : checkBatch expected records with
    | error reason =>
      rw [checked] at outcome
      exact Meets.throw outcome
    | ok _ =>
      rw [checked] at outcome
      exact Meets.pure outcome

theorem acceptedBatch_size {data : Bytes} {totalBatchSize size : Nat} {records : List StoredRecord}
    (accepted : acceptedBatch data expected totalBatchSize = .batch records size) :
    size = totalBatchSize := by
  unfold acceptedBatch at accepted
  split at accepted
  · cases accepted
  · cases accepted
  · split at accepted
    · cases accepted
    · exact (Round.batch.inj accepted).2.symm

theorem meets_scan_round (found : d.file? seg.path = some file) (size : seg.size = file.data.length)
    (valid : validSize ≤ file.data.length)
    (outcome : match scanRound maxBatchBytes file.data currentPos expected with
      | .finished => post.returns (seg, expected, validSize) m d
      | .torn closedError =>
        (active = true → post.returns ({ seg with size := validSize }, expected, validSize) m
          (d.put seg.path { file with data := file.data.take validSize })) ∧
        (active = false → post.fails closedError m d)
      | .rejected reason => post.fails reason m d
      | .panicked => post.dies d
      | .batch records totalBatchSize =>
        Meets allowed (scanBatches maxBatchBytes active
          { seg with maxTimestamp := raiseTimestamp seg.maxTimestamp records }
          (currentPos + totalBatchSize) (uint64 (expected + records.length))
          (currentPos + totalBatchSize)) m d post)
    (fails : Shaky allowed → ∀ operation, post.fails (.io operation) m d)
    (dies : Shaky allowed → post.dies d) :
    Meets allowed (scanBatches maxBatchBytes active seg currentPos expected validSize) m d
      post := by
  rw [scanBatches]
  rw [size]
  unfold scanRound at outcome
  by_cases inside : currentPos < file.data.length
  case neg =>
    rw [if_neg inside] at outcome
    rw [dif_neg inside]
    exact Meets.pure outcome
  rw [if_pos inside] at outcome
  rw [dif_pos inside]
  by_cases header : file.data.length < currentPos + 9
  case pos =>
    rw [if_pos header] at outcome ⊢
    exact meets_tornTail found valid outcome.1 outcome.2 fails dies
  rw [if_neg header] at outcome ⊢
  apply Meets.bind
  refine meets_readAt found (by omega) ?_ (fun shaky => fails shaky _) dies
  dsimp only
  generalize (file.data.drop currentPos).take 9 = prefixBuf at outcome ⊢
  unfold prefixRound at outcome
  split
  · rw [if_pos (by assumption)] at outcome
    exact Meets.throw outcome
  rw [if_neg (by assumption)] at outcome
  split
  · rw [if_pos (by assumption)] at outcome
    exact Meets.throw outcome
  rw [if_neg (by assumption)] at outcome
  dsimp only at outcome ⊢
  split
  · rw [if_pos (by assumption)] at outcome
    exact Meets.throw outcome
  rw [if_neg (by assumption)] at outcome
  split
  · rw [if_pos (by assumption)] at outcome
    exact Meets.throw outcome
  rw [if_neg (by assumption)] at outcome
  split
  · rw [if_pos (by assumption)] at outcome
    exact meets_tornTail found valid outcome.1 outcome.2 fails dies
  rw [if_neg (by assumption)] at outcome
  apply Meets.bind
  refine meets_readAt found (by omega) ?_ (fun shaky => fails shaky _) dies
  apply Meets.bind
  apply meets_acceptBatch (9 + get ((prefixBuf.drop 5).take 4))
  cases round : acceptedBatch
    ((file.data.drop currentPos).take (9 + get ((prefixBuf.drop 5).take 4))) expected
      (9 + get ((prefixBuf.drop 5).take 4)) with
  | finished => trivial
  | torn closedError => trivial
  | rejected reason =>
    rw [round] at outcome
    exact outcome
  | panicked =>
    rw [round] at outcome
    exact outcome
  | batch records totalBatchSize =>
    rw [round, acceptedBatch_size round, size] at outcome
    exact outcome

end Rounds

/-! ## Rounds over the batches of appends -/

theorem checkContinuity_ok {expected j : Nat} {records : List StoredRecord}
    (consecutive : ∀ i r, records[i]? = some r → r.offset = uint64 (expected + (j + i : Nat))) :
    checkContinuity expected j records = .ok () := by
  induction records generalizing j with
  | nil => rfl
  | cons r records ih =>
    have head := consecutive 0 r rfl
    rw [checkContinuity, if_neg (by rw [head]; simp)]
    apply ih
    intro i other found
    rw [consecutive (i + 1) other found, Nat.add_assoc, Nat.add_comm 1 i]

section Batches

variable {b : Batch} {data : Bytes} {maxBatchBytes : Int} {currentPos expected : Nat}

theorem checkBatch_stored (placed : b.Placed expected) :
    checkBatch expected (b.stored expected) = .ok () := by
  have consecutive :
      ∀ i r, (b.stored expected)[i]? = some r → r.offset = uint64 (expected + (0 + i : Nat)) := by
    intro i r found
    simp only [Batch.stored, stampRecords, List.getElem?_mapIdx, Option.map_eq_some_iff] at found
    obtain ⟨_, _, rfl⟩ := found
    rw [Nat.zero_add]
  have continuous := checkContinuity_ok consecutive
  cases stored : b.stored expected with
  | nil =>
    have nothing : b.records.length = 0 := by rw [← b.stored_length expected, stored]; rfl
    exact absurd (List.length_eq_zero_iff.mp nothing) placed.someRecord
  | cons r rest =>
    rw [stored] at consecutive continuous
    have first := consecutive 0 r rfl
    rw [Nat.add_zero, Int.natCast_zero, Int.add_zero, uint64_of_nat placed.start] at first
    rw [checkBatch, if_neg (by rw [first]; simp), continuous]

/-- What a round does at the first nine bytes of a batch, whether or not the rest of it is there. -/
theorem scanRound_header {base : Nat}
    (front : (data.drop currentPos).take 9 = (b.bytes base).take 9)
    (enough : currentPos + 9 ≤ data.length) (placed : b.Placed base) (small : b.size < 2 ^ 32 + 9) :
    scanRound maxBatchBytes data currentPos expected =
      if maxBatchBytes < b.size then .rejected (.batchExceedsLimit b.size maxBatchBytes)
      else if data.length < currentPos + b.size then .torn .incompletePayload
      else acceptedBatch ((data.drop currentPos).take b.size) expected b.size := by
  obtain ⟨_, _, _, _, bound⟩ := b.bytes_frame placed
  obtain ⟨magic, version, batchLength⟩ := b.prefix_fields placed small
  have remainder : minimumBatchRemainder = 24 := rfl
  have total : 9 + (b.size - 9) = b.size := by omega
  unfold scanRound
  rw [if_pos (by omega), if_neg (by omega), front]
  unfold prefixRound
  rw [if_neg (by rw [magic]; simp), if_neg (by rw [version]; simp)]
  simp only [batchLength, total]
  rw [if_neg (by omega)]

theorem scanRound_occurs (occurs : Occurs data currentPos (b.bytes expected))
    (placed : b.Placed expected) (small : b.size < 2 ^ 32 + 9)
    (limit : (b.size : Int) ≤ maxBatchBytes) :
    scanRound maxBatchBytes data currentPos expected =
      acceptedBatch (b.bytes expected) expected b.size := by
  obtain ⟨_, length⟩ := b.encode_stored expected placed.someRecord
  obtain ⟨_, _, _, _, bound⟩ := b.bytes_frame placed
  have inside := occurs.bound
  have whole := occurs.extract
  rw [length] at inside whole
  rw [scanRound_header (occurs.take_front (by omega)) (by omega) placed small, if_neg (by omega),
    if_neg (by omega), whole]

theorem acceptedBatch_exact (placed : b.Placed expected) (precise : b.Exact) :
    acceptedBatch (b.bytes expected) expected b.size = .batch (b.stored expected) b.size := by
  simp only [acceptedBatch, b.decode_exact placed precise, checkBatch_stored placed]

theorem acceptedBatch_unreadable (valid : b.Valid expected) (unreadable : ¬ b.Readable) :
    acceptedBatch (b.bytes expected) expected b.size =
      .rejected (.corruptBatch .negativeTimestampDelta) := by
  simp only [acceptedBatch, b.decode_unreadable valid unreadable]

theorem prefix_parts (tail : Bytes) : (tail.take 9).take 4 = tail.take 4 ∧
    ((tail.take 9).drop 4).take 1 = (tail.drop 4).take 1 ∧
      ((tail.take 9).drop 5).take 4 = (tail.drop 5).take 4 := by
  refine ⟨?_, ?_, ?_⟩
  · rw [List.take_take]
    rfl
  · rw [List.drop_take, List.take_take]
    rfl
  · rw [List.drop_take, List.take_take]
    rfl

/-- The scan drops what is torn. -/
theorem scanRound_torn (done : Bytes) {tail : Bytes} (torn : Torn maxBatchBytes tail)
    (nonempty : tail ≠ []) :
    ∃ closedError, scanRound maxBatchBytes (done ++ tail) done.length expected =
      .torn closedError := by
  have positive : 0 < tail.length := List.length_pos_iff.mpr nonempty
  unfold scanRound
  rw [List.length_append, if_pos (by omega), List.drop_left]
  by_cases header : done.length + tail.length < done.length + 9
  · exact ⟨_, by rw [if_pos header]⟩
  · rcases torn with short | ⟨magic, version, enough, limit, short⟩
    · omega
    obtain ⟨magicField, versionField, lengthField⟩ := prefix_parts tail
    rw [if_neg header]
    unfold prefixRound
    rw [magicField, versionField, if_neg (not_not.mpr magic), if_neg (not_not.mpr version)]
    simp only [lengthField, List.length_append]
    rw [if_neg (by omega), if_neg (by omega), if_pos (by omega)]
    exact ⟨_, rfl⟩

end Batches

/-! ## The loop -/

section Loop

variable {μ : Type} {allowed : Fault → Prop} {m : μ} {d : Directory} {file : File}
  {maxBatchBytes : Int} {active : Bool} {post : Post μ Directory StoreError (Segment × Nat × Nat)}

theorem meets_scan_end {seg : Segment} {done tail : Bytes} {expected : Nat}
    (found : d.file? seg.path = some file) (size : seg.size = file.data.length)
    (content : file.data = done ++ tail) (torn : Torn maxBatchBytes tail)
    (closed : active = false → tail = [])
    (returns : ∀ d', d'.file? seg.path = some { file with data := done } →
      SameBut seg.path d d' →
      post.returns ({ seg with size := done.length }, expected, done.length) m d')
    (fails : Shaky allowed → ∀ operation, post.fails (.io operation) m d)
    (dies : Shaky allowed → post.dies d) :
    Meets allowed (scanBatches maxBatchBytes active seg done.length expected done.length) m d
      post := by
  apply meets_scan_round found size (by rw [content]; simp) _ fails dies
  by_cases empty : tail = []
  · rw [empty, List.append_nil] at content
    have finished : scanRound maxBatchBytes file.data done.length expected = .finished := by
      rw [scanRound, content, if_neg (by simp)]
    have length : done.length = seg.size := by rw [size, content]
    have same := returns d (by rw [found, ← content]) (SameBut.refl _ _)
    rw [finished]
    rw [length] at same ⊢
    exact same
  · obtain ⟨closedError, round⟩ :
        ∃ closedError, scanRound maxBatchBytes (done ++ tail) done.length expected =
          .torn closedError :=
      scanRound_torn done torn empty
    rw [← content] at round
    rw [round]
    refine ⟨fun _ => ?_, fun inactive => absurd (closed inactive) empty⟩
    rw [content, List.take_left]
    exact returns _ file?_put_self sameBut_put

theorem meets_scan_through {seg : Segment} {expected : Nat} (batches : List Batch)
    (done rest : Bytes) (found : d.file? seg.path = some file) (size : seg.size = file.data.length)
    (content : file.data = done ++ (layout expected batches ++ rest))
    (valid : ValidFrom expected batches) (limit : ∀ b ∈ batches, (b.size : Int) ≤ maxBatchBytes)
    (continues : (∀ b ∈ batches, b.Readable) → Meets allowed (scanBatches maxBatchBytes active
      { seg with
        maxTimestamp := batches.foldl (fun largest b => max largest b.time) seg.maxTimestamp }
      (done ++ layout expected batches).length (expected + span batches)
      (done ++ layout expected batches).length) m d post)
    (unreadable : (∃ b ∈ batches, ¬ b.Readable) →
      post.fails (.corruptBatch .negativeTimestampDelta) m d)
    (fails : Shaky allowed → ∀ operation, post.fails (.io operation) m d)
    (dies : Shaky allowed → post.dies d) :
    Meets allowed (scanBatches maxBatchBytes active seg done.length expected done.length) m d
      post := by
  induction batches generalizing seg done expected with
  | nil =>
    have nothing : layout expected [] = [] := rfl
    simp only [nothing, List.append_nil] at continues
    exact continues fun _ member => absurd member List.not_mem_nil
  | cons b batches ih =>
    have here := valid.1
    have offsets := here.offsets
    have split : layout expected (b :: batches) =
        b.bytes expected ++ layout (expected + b.records.length) batches := rfl
    rw [split, List.append_assoc] at content
    have occurs : Occurs file.data done.length (b.bytes expected) := ⟨done, _, content, rfl⟩
    apply meets_scan_round found size (by rw [content]; simp) _ fails dies
    rw [scanRound_occurs occurs here.placed here.fits (limit b List.mem_cons_self)]
    by_cases readable : b.Readable
    · rw [acceptedBatch_exact here.placed (here.exact readable)]
      have length : (done ++ b.bytes expected).length = done.length + b.size := by
        rw [List.length_append, b.bytes_length here]
      have next : uint64 (expected + (b.stored expected).length) = expected + b.records.length := by
        rw [Batch.stored_length]
        exact uint64_of_nat offsets
      have raised : raiseTimestamp seg.maxTimestamp (b.stored expected) =
          max seg.maxTimestamp b.time :=
        b.largest_from here.placed seg.maxTimestamp
      dsimp only
      rw [next, raised, ← length]
      refine @ih { seg with maxTimestamp := max seg.maxTimestamp b.time } _
        (done ++ b.bytes expected) found size (by rw [content, List.append_assoc]) valid.2
        (fun other member => limit other (List.mem_cons_of_mem _ member)) ?_ ?_
      · intro others
        rw [split] at continues
        rw [List.append_assoc, Nat.add_assoc]
        exact continues (List.forall_mem_cons.mpr ⟨readable, others⟩)
      · exact fun ⟨other, member, bad⟩ => unreadable ⟨other, List.mem_cons_of_mem _ member, bad⟩
    · rw [acceptedBatch_unreadable here readable]
      exact unreadable ⟨b, List.mem_cons_self, readable⟩

/-- The scan goes through the batches of the log, drops a torn tail and returns what it counted. -/
theorem meets_scanBatches {seg : Segment} {expected : Nat} (batches : List Batch)
    (done tail : Bytes) (found : d.file? seg.path = some file) (size : seg.size = file.data.length)
    (content : file.data = done ++ (layout expected batches ++ tail))
    (valid : ValidFrom expected batches) (limit : ∀ b ∈ batches, (b.size : Int) ≤ maxBatchBytes)
    (torn : Torn maxBatchBytes tail) (closed : active = false → tail = [])
    (returns : (∀ b ∈ batches, b.Readable) →
      ∀ d', d'.file? seg.path = some { file with data := done ++ layout expected batches } →
      SameBut seg.path d d' →
      post.returns ({ seg with
        size := (done ++ layout expected batches).length
        maxTimestamp := batches.foldl (fun largest b => max largest b.time) seg.maxTimestamp },
        expected + span batches, (done ++ layout expected batches).length) m d')
    (unreadable : (∃ b ∈ batches, ¬ b.Readable) →
      post.fails (.corruptBatch .negativeTimestampDelta) m d)
    (fails : Shaky allowed → ∀ operation, post.fails (.io operation) m d)
    (dies : Shaky allowed → post.dies d) :
    Meets allowed (scanBatches maxBatchBytes active seg done.length expected done.length) m d
      post := by
  refine meets_scan_through batches done tail found size content valid limit (fun readable => ?_)
    unreadable fails dies
  exact meets_scan_end found size (by rw [content, List.append_assoc]) torn closed
    (returns readable) fails dies

end Loop

end MessageBroker.Storage
