import MessageBroker.Offsets.Store

/-! The scan of the offset log with its cursors: every slice and every subtraction of two `uint32`
    is checked, and one that is out of range ends the process as a Go panic would. -/

namespace MessageBroker.Offsets

open Faulty Program BigEndian Crc32

/-- Why the parser stops: Go panics on a slice out of range and does not notice an underflow. -/
inductive Stop where
  | outOfRange
  | underflow
  | report (reason : OffsetError)
  deriving DecidableEq, Repr

/-- The slice expression `data[low:high]`. -/
def slice (data : Bytes) (low high : Nat) : Except Stop Bytes :=
  if low ≤ high ∧ high ≤ data.length then .ok ((data.drop low).take (high - low))
  else .error .outOfRange

def subtract (left right : Nat) : Except Stop Nat :=
  if right ≤ left then .ok (left - right) else .error .underflow

structure NameErrors where
  missing : OffsetError
  badLength : Nat → OffsetError
  pastPayload : OffsetError
  notUtf8 : OffsetError

def groupErrors (position : Nat) : NameErrors :=
  ⟨.noGroupLength position, (.invalidGroupLength · position), .groupPastPayload position,
    .groupNotUtf8 position⟩

def topicErrors (position : Nat) : NameErrors :=
  ⟨.noTopicLength position, (.invalidTopicLength · position), .topicPastPayload position,
    .topicNotUtf8 position⟩

def nameCursor (errors : NameErrors) (limit : Nat) (payload : Bytes) (cursor : Nat) :
    Except Stop (Bytes × Nat) := do
  if (← subtract payload.length cursor) < 4 then .error (.report errors.missing)
  else
    let length := get (← slice payload cursor (cursor + 4))
    let cursor := cursor + 4
    if length = 0 ∨ limit < length then .error (.report (errors.badLength length))
    else if (← subtract payload.length cursor) < length then .error (.report errors.pastPayload)
    else
      let name ← slice payload cursor (cursor + length)
      if ¬ validString name then .error (.report errors.notUtf8) else .ok (name, cursor + length)

/-- The payload's checks in the order and with the cursor of the source. The lengths are those of
    the names. -/
def parseCursor (position entryLength : Nat) (payload : Bytes) : Except Stop (Key × UInt64) := do
  let (group, cursor) ← nameCursor (groupErrors position) maxConsumerGroupBytes payload 0
  let (topic, cursor) ← nameCursor (topicErrors position) maxTopicNameBytes payload cursor
  let expected := offsetMinRemainder + group.length + topic.length
  if entryLength ≠ expected then
    .error (.report (.entryLengthMismatch entryLength expected position))
  else if (← subtract payload.length cursor) ≠ 20 then
    .error (.report (.remainderMismatch position))
  else
    let partition := get (← slice payload cursor (cursor + 4))
    let nextOffset := get (← slice payload (cursor + 4) (cursor + 12))
    .ok (⟨group, topic, UInt32.ofNat partition⟩, UInt64.ofNat nextOffset)

/-! ## No check leaves its range -/

section Safe

variable {data : Bytes} {low high left right : Nat}

theorem slice_within (ordered : low ≤ high) (inside : high ≤ data.length) :
    slice data low high = .ok ((data.drop low).take (high - low)) := by
  rw [slice, if_pos ⟨ordered, inside⟩]

theorem subtract_within (ordered : right ≤ left) : subtract left right = .ok (left - right) := by
  rw [subtract, if_pos ordered]

def parseName (errors : NameErrors) (limit : Nat) (rest : Bytes) : Except OffsetError Bytes :=
  if rest.length < 4 then .error errors.missing
  else
    let length := get (rest.take 4)
    if length = 0 ∨ limit < length then .error (errors.badLength length)
    else if (rest.drop 4).length < length then .error errors.pastPayload
    else if ¬ validString ((rest.drop 4).take length) then .error errors.notUtf8
    else .ok ((rest.drop 4).take length)

/-- What `parseName` has seen of a name it accepts. -/
structure NameAt (limit : Nat) (rest name : Bytes) : Prop where
  bytes : ∃ after, rest = put 4 name.length ++ (name ++ after)
  nonempty : name.length ≠ 0
  short : name.length ≤ limit
  text : validString name = true

theorem parseName_ok {errors : NameErrors} {limit : Nat} {rest name : Bytes}
    (parsed : parseName errors limit rest = .ok name) :
    NameAt limit rest name := by
  unfold parseName at parsed
  split at parsed
  · cases parsed
  rename_i enough
  dsimp only at parsed
  split_ifs at parsed with bad past text
  cases parsed
  have length : ((rest.drop 4).take (get (rest.take 4))).length = get (rest.take 4) := by
    rw [List.length_take]
    omega
  refine ⟨⟨(rest.drop 4).drop (get (rest.take 4)), ?_⟩, by omega, by omega, by simpa using text⟩
  have field : put 4 (get (rest.take 4)) = rest.take 4 := by
    have whole := put_get_self (rest.take 4)
    rwa [List.length_take, Nat.min_eq_left (by omega)] at whole
  rw [length, field, List.take_append_drop, List.take_append_drop]

theorem nameCursor_safe (errors : NameErrors) (limit : Nat) {payload : Bytes} {cursor : Nat}
    (inside : cursor ≤ payload.length) :
    nameCursor errors limit payload cursor =
      match parseName errors limit (payload.drop cursor) with
      | .ok name => .ok (name, cursor + 4 + name.length)
      | .error reason => .error (.report reason) := by
  unfold nameCursor parseName
  rw [subtract_within inside]
  simp only [Bind.bind, Except.bind, List.length_drop]
  by_cases missing : payload.length - cursor < 4
  · rw [if_pos missing, if_pos missing]
  rw [if_neg missing, if_neg missing, slice_within (by omega) (by omega), Nat.add_sub_cancel_left]
  dsimp only
  generalize get ((payload.drop cursor).take 4) = length
  by_cases bad : length = 0 ∨ limit < length
  · rw [if_pos bad, if_pos bad]
  rw [if_neg bad, if_neg bad, subtract_within (by omega)]
  dsimp only
  by_cases past : payload.length - (cursor + 4) < length
  · rw [if_pos past, if_pos (by omega)]
  rw [if_neg past, if_neg (by omega), slice_within (by omega) (by omega), Nat.add_sub_cancel_left,
    List.drop_drop]
  dsimp only
  split_ifs
  · simp only [List.length_take, List.length_drop]
    rw [Nat.min_eq_left (by omega)]
  · rfl

def parseFields (position entryLength : Nat) (payload group topic : Bytes) :
    Except OffsetError (Key × UInt64) :=
  let rest := payload.drop (4 + group.length + 4 + topic.length)
  if entryLength ≠ offsetMinRemainder + group.length + topic.length then
    .error (.entryLengthMismatch entryLength (offsetMinRemainder + group.length + topic.length)
      position)
  else if rest.length ≠ 20 then .error (.remainderMismatch position)
  else .ok (⟨group, topic, UInt32.ofNat (get (rest.take 4))⟩,
    UInt64.ofNat (get ((rest.drop 4).take 8)))

theorem parseName_bind {α : Type} (errors : NameErrors) (limit : Nat) (rest : Bytes)
    (next : Bytes → Except OffsetError α) :
    parseName errors limit rest >>= next =
      if rest.length < 4 then .error errors.missing
      else if get (rest.take 4) = 0 ∨ limit < get (rest.take 4) then
        .error (errors.badLength (get (rest.take 4)))
      else if (rest.drop 4).length < get (rest.take 4) then .error errors.pastPayload
      else if ¬ validString ((rest.drop 4).take (get (rest.take 4))) then .error errors.notUtf8
      else next ((rest.drop 4).take (get (rest.take 4))) := by
  unfold parseName
  dsimp only
  split_ifs <;> rfl

theorem parsePayload_eq (position entryLength : Nat) (payload : Bytes) :
    parsePayload position entryLength payload =
      (parseName (groupErrors position) maxConsumerGroupBytes payload >>= fun group =>
        parseName (topicErrors position) maxTopicNameBytes (payload.drop (4 + group.length)) >>=
          fun topic => parseFields position entryLength payload group topic) := by
  rw [parseName_bind]
  unfold parsePayload
  dsimp only
  generalize get (payload.take 4) = groupLen
  by_cases past : (payload.drop 4).length < groupLen
  · rw [if_pos past, if_pos past]
    rfl
  have groupLength : ((payload.drop 4).take groupLen).length = groupLen := by
    rw [List.length_take]
    omega
  rw [parseName_bind, groupLength, ← List.drop_drop]
  generalize behind : (payload.drop 4).drop groupLen = rest
  generalize get (rest.take 4) = topicLen
  by_cases past' : (rest.drop 4).length < topicLen
  · rw [if_pos past', if_pos past']
    rfl
  have topicLength : ((rest.drop 4).take topicLen).length = topicLen := by
    rw [List.length_take]
    omega
  unfold parseFields
  rw [groupLength, topicLength, ← List.drop_drop, ← List.drop_drop, ← List.drop_drop, behind]
  rfl

theorem parseCursor_safe (position entryLength : Nat) (payload : Bytes) :
    parseCursor position entryLength payload =
      match parsePayload position entryLength payload with
      | .ok parsed => .ok parsed
      | .error reason => .error (.report reason) := by
  rw [parsePayload_eq]
  unfold parseCursor
  rw [nameCursor_safe _ _ (Nat.zero_le _), List.drop_zero]
  cases groupAt : parseName (groupErrors position) maxConsumerGroupBytes payload with
  | error reason => rfl
  | ok group =>
    simp only [Bind.bind, Except.bind]
    obtain ⟨after, bytes⟩ := (parseName_ok groupAt).bytes
    have size := congrArg List.length bytes
    simp only [List.length_append, put_length] at size
    rw [nameCursor_safe _ _ (by omega), show 0 + 4 + group.length = 4 + group.length by omega]
    cases topicAt : parseName (topicErrors position) maxTopicNameBytes
      (payload.drop (4 + group.length)) with
    | error reason => rfl
    | ok topic =>
      obtain ⟨after', bytes'⟩ := (parseName_ok topicAt).bytes
      have size' := congrArg List.length bytes'
      simp only [List.length_append, put_length, List.length_drop] at size'
      unfold parseFields
      dsimp only
      by_cases wrong : entryLength ≠ offsetMinRemainder + group.length + topic.length
      · rw [if_pos wrong, if_pos wrong]
      rw [if_neg wrong, if_neg wrong, subtract_within (by omega), List.length_drop]
      dsimp only
      by_cases remainder : payload.length - (4 + group.length + 4 + topic.length) ≠ 20
      · rw [if_pos remainder, if_pos remainder]
      rw [if_neg remainder, if_neg remainder, slice_within (by omega) (by omega),
        slice_within (by omega) (by omega), Nat.add_sub_cancel_left, List.drop_drop]
      dsimp only
      rw [show 4 + group.length + 4 + topic.length +
        12 - (4 + group.length + 4 + topic.length + 4) = 8 by omega]

end Safe

/-! ## The scan -/

section Scan

variable {μ α : Type}

/-- A panic takes the process with it. -/
def trapped : Except Stop α → Program μ Disk OffsetError α
  | .ok value => pure value
  | .error (.report reason) => throw reason
  | .error _ => die

def recoverCursor (fileSize pos : Nat) (offsets : AList (fun _ : Key => UInt64)) :
    Program μ Disk OffsetError (AList (fun _ : Key => UInt64) × Nat) :=
  if _inside : pos < fileSize then
    if fileSize - pos < offsetPrefixSize then do
      truncateAndSync pos
      pure (offsets, pos)
    else do
      let prefixBuf ← readAt pos offsetPrefixSize
      let magic ← trapped (slice prefixBuf 0 4)
      let version ← trapped (slice prefixBuf 4 5)
      let entryLength := get (← trapped (slice prefixBuf 5 9))
      if magic ≠ offsetMagic ∨ version ≠ [0x01] then throw (.invalidMagicOrVersion pos)
      else if entryLength < offsetMinRemainder then throw (.entryTooSmall entryLength pos)
      else if maxOffsetEntryBytes < entryLength then throw (.entryTooLarge entryLength pos)
      else if fileSize < pos + offsetPrefixSize + entryLength then do
        truncateAndSync pos
        pure (offsets, pos)
      else do
        let frame ← readAt (pos + offsetPrefixSize) entryLength
        let expected ← trapped (slice frame 0 4)
        let payload ← trapped (slice frame 4 frame.length)
        if get expected ≠ checksumIEEE payload then throw (.checksumMismatch pos)
        else do
          let (key, nextOffset) ← trapped (parseCursor pos entryLength payload)
          recoverCursor fileSize (pos + offsetPrefixSize + entryLength)
            (offsets.insert key nextOffset)
  else pure (offsets, pos)
termination_by fileSize - pos
decreasing_by
  simp only [offsetPrefixSize]
  omega

def recoverChecked : Program μ Disk OffsetError Store := do
  let fileSize ← statFile
  let (offsets, size) ← recoverCursor fileSize 0 ∅
  pure ⟨offsets, size, false, false⟩

theorem readAt_length {position count : Nat} {bytes : Bytes} {world after : World μ Disk}
    (returned : readAt position count world = (.ok bytes, after)) : bytes.length = count := by
  obtain ⟨m, ⟨file⟩, faults⟩ := world
  unfold readAt fileOperation operate at returned
  cases file with
  | none => rcases faults with _ | ⟨_ | _ | _, faults⟩ <;> cases returned
  | some data =>
    by_cases inside : position + count ≤ data.length
    · have size : ((data.drop position).take count).length = count := by
        rw [List.length_take, List.length_drop]
        omega
      simp only [if_pos inside] at returned
      rcases faults with _ | ⟨_ | _ | _, faults⟩ <;> cases returned <;> exact size
    · simp only [if_neg inside] at returned
      rcases faults with _ | ⟨_ | _ | _, faults⟩ <;> cases returned

theorem readAt_bind_congr {position count : Nat} {left right : Bytes → Program μ Disk OffsetError α}
    (same : ∀ bytes, bytes.length = count → left bytes = right bytes) :
    readAt position count >>= left = readAt position count >>= right := by
  funext world
  show Program.bind _ _ world = Program.bind _ _ world
  unfold Program.bind
  cases run : readAt (μ := μ) position count world with
  | mk exit after =>
    cases exit with
    | ok bytes => exact congrFun (same bytes (readAt_length run)) after
    | error reason => rfl
    | died => rfl

theorem trapped_slice {data : Bytes} {low high : Nat} (ordered : low ≤ high)
    (inside : high ≤ data.length) (next : Bytes → Program μ Disk OffsetError α) :
    trapped (slice data low high) >>= next = next ((data.drop low).take (high - low)) := by
  rw [slice_within ordered inside]
  rfl

/-- The cursor stays in range in every file, whatever the environment does to the reads. -/
theorem recoverCursor_eq (fileSize pos : Nat) (offsets : AList (fun _ : Key => UInt64)) :
    (recoverCursor fileSize pos offsets : Program μ Disk OffsetError _) =
      recoverFrom fileSize pos offsets := by
  induction left : fileSize - pos using Nat.strong_induction_on generalizing pos offsets with
  | _ left ih =>
    rw [recoverCursor, recoverFrom]
    by_cases inside : pos < fileSize
    · rw [dif_pos inside, dif_pos inside]
      congr 1
      apply readAt_bind_congr
      intro prefixBuf whole
      have nine : prefixBuf.length = 9 := whole
      rw [trapped_slice (by omega) (by omega), trapped_slice (by omega) (by omega),
        trapped_slice (by omega) (by omega), List.drop_zero]
      generalize get ((prefixBuf.drop 5).take 4) = entryLength
      by_cases marked : prefixBuf.take 4 ≠ offsetMagic ∨ (prefixBuf.drop 4).take 1 ≠ [0x01]
      · rw [if_pos marked, if_pos marked]
      by_cases small : entryLength < offsetMinRemainder
      · rw [if_neg marked, if_neg marked, if_pos small, if_pos small]
      rw [if_neg marked, if_neg marked, if_neg small, if_neg small]
      congr 2
      apply readAt_bind_congr
      intro frame length
      unfold offsetMinRemainder at small
      have payload : (frame.drop 4).take (frame.length - 4) = frame.drop 4 :=
        List.take_of_length_le (by rw [List.length_drop])
      rw [trapped_slice (by omega) (by omega), trapped_slice (by omega) (by omega), List.drop_zero,
        payload]
      dsimp only
      congr 1
      rw [parseCursor_safe]
      cases parsePayload pos entryLength (frame.drop 4) with
      | error reason => rfl
      | ok parsed => exact ih _ (by unfold offsetPrefixSize; omega) _ _ rfl
    · rw [dif_neg inside, dif_neg inside]

theorem recoverChecked_eq : (recoverChecked : Program μ Disk OffsetError Store) = recover := by
  unfold recoverChecked recover
  simp only [recoverCursor_eq]

end Scan

end MessageBroker.Offsets
