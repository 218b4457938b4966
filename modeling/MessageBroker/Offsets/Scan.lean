import MessageBroker.Offsets.Cursor
import MessageBroker.Offsets.Entries

namespace MessageBroker.Offsets

open Faulty Program BigEndian Crc32

inductive Head where
  | finished
  | torn
  | corrupt (reason : OffsetError)
  | frame (key : Key) (nextOffset : UInt64) (size : Nat)

def scanHead (position : Nat) (rest : Bytes) : Head :=
  if rest.length = 0 then .finished
  else if rest.length < offsetPrefixSize then .torn
  else
    let entryLength := get ((rest.drop 5).take 4)
    if rest.take 4 ≠ offsetMagic ∨ (rest.drop 4).take 1 ≠ [0x01] then
      .corrupt (.invalidMagicOrVersion position)
    else if entryLength < offsetMinRemainder then .corrupt (.entryTooSmall entryLength position)
    else if maxOffsetEntryBytes < entryLength then .corrupt (.entryTooLarge entryLength position)
    else if rest.length < offsetPrefixSize + entryLength then .torn
    else
      let frame := (rest.drop offsetPrefixSize).take entryLength
      if get (frame.take 4) ≠ checksumIEEE (frame.drop 4) then .corrupt (.checksumMismatch position)
      else
        match parsePayload position entryLength (frame.drop 4) with
        | .error reason => .corrupt reason
        | .ok (key, nextOffset) => .frame key nextOffset (offsetPrefixSize + entryLength)

/-! ## The loop on a disk without faults -/

section Loop

variable {μ α : Type} {m : μ} {data : Bytes}

theorem readAt_healthy {position count : Nat} (inside : position + count ≤ data.length)
    (next : Bytes → Program μ Disk OffsetError α) :
    (readAt position count >>= next) ⟨m, ⟨some data⟩, []⟩ =
      next ((data.drop position).take count) ⟨m, ⟨some data⟩, []⟩ := by
  show Program.bind _ _ _ = _
  simp only [Program.bind, readAt, fileOperation, operate, if_pos inside]

theorem truncateAndSync_healthy {before rest : Bytes} (value : α) :
    (truncateAndSync before.length >>= fun _ => pure value : Program μ Disk OffsetError α)
      ⟨m, ⟨some (before ++ rest)⟩, []⟩ =
      (.ok value, ⟨m, ⟨some before⟩, []⟩) := by
  have cut : (before ++ rest ++ List.replicate (before.length - (before ++ rest).length) 0).take
      before.length = before := by
    rw [List.append_assoc, List.take_left]
  show (Exit.ok value, World.mk m (Disk.mk (some _)) []) = _
  rw [cut]

/-- What the scan does from here on depends on its head alone. -/
theorem recoverFrom_step (before rest : Bytes) (offsets : AList fun _ : Key => UInt64) :
    recoverFrom (before ++ rest).length before.length offsets ⟨m, ⟨some (before ++ rest)⟩, []⟩ =
      match scanHead before.length rest with
      | .finished => (.ok (offsets, before.length), ⟨m, ⟨some (before ++ rest)⟩, []⟩)
      | .torn => (.ok (offsets, before.length), ⟨m, ⟨some before⟩, []⟩)
      | .corrupt reason => (.error reason, ⟨m, ⟨some (before ++ rest)⟩, []⟩)
      | .frame key nextOffset size =>
        recoverFrom (before ++ rest).length (before.length + size) (offsets.insert key nextOffset)
          ⟨m, ⟨some (before ++ rest)⟩, []⟩ := by
  have whole : (before ++ rest).length = before.length + rest.length := List.length_append
  rw [recoverFrom, scanHead]
  by_cases finished : rest.length = 0
  · rw [dif_neg (by omega), if_pos finished]
    rfl
  rw [dif_pos (by omega), if_neg finished]
  by_cases short : rest.length < offsetPrefixSize
  · rw [if_pos (by omega), if_pos short]
    exact truncateAndSync_healthy _
  rw [if_neg (by omega), if_neg short, readAt_healthy (by omega), List.drop_left]
  have nine : offsetPrefixSize = 9 := rfl
  have magic : (rest.take offsetPrefixSize).take 4 = rest.take 4 := by
    rw [List.take_take, nine]
    rfl
  have version : ((rest.take offsetPrefixSize).drop 4).take 1 = (rest.drop 4).take 1 := by
    rw [List.drop_take, List.take_take, nine]
    rfl
  have length : ((rest.take offsetPrefixSize).drop 5).take 4 = (rest.drop 5).take 4 := by
    rw [List.drop_take, List.take_take, nine]
    rfl
  rw [magic, version, length]
  generalize get ((rest.drop 5).take 4) = entryLength
  dsimp only
  by_cases marked : rest.take 4 ≠ offsetMagic ∨ (rest.drop 4).take 1 ≠ [0x01]
  · rw [if_pos marked, if_pos marked]
    rfl
  rw [if_neg marked, if_neg marked]
  by_cases small : entryLength < offsetMinRemainder
  · rw [if_pos small, if_pos small]
    rfl
  rw [if_neg small, if_neg small]
  by_cases large : maxOffsetEntryBytes < entryLength
  · rw [if_pos large, if_pos large]
    rfl
  rw [if_neg large, if_neg large]
  by_cases past : rest.length < offsetPrefixSize + entryLength
  · rw [if_pos (by omega), if_pos past]
    exact truncateAndSync_healthy _
  rw [if_neg (by omega), if_neg past, readAt_healthy (by omega), ← List.drop_drop, List.drop_left]
  generalize (rest.drop offsetPrefixSize).take entryLength = frame
  by_cases sums : get (frame.take 4) ≠ checksumIEEE (frame.drop 4)
  · rw [if_pos sums, if_pos sums]
    rfl
  rw [if_neg sums, if_neg sums]
  cases parsePayload before.length entryLength (frame.drop 4) with
  | error reason => rfl
  | ok parsed => rw [Nat.add_assoc]

end Loop

/-! ## The format -/

/-- Bytes behind the last entry that the scan cuts off: too few for the fields in front of an entry,
    or fields whose length runs past the end of the file. -/
inductive Incomplete : Bytes → Prop where
  | short {tail : Bytes} (few : tail.length < offsetPrefixSize) : Incomplete tail
  | overrun {entryLength : Nat} {more : Bytes} (least : offsetMinRemainder ≤ entryLength)
      (most : entryLength ≤ maxOffsetEntryBytes) (past : more.length < entryLength) :
      Incomplete (offsetMagic ++ [0x01] ++ put 4 entryLength ++ more)

section Format

variable {e : Entry} {position entryLength : Nat} {rest payload : Bytes} {key : Key}
  {nextOffset : UInt64}

theorem timestamp_bytes {stamp : Bytes} (eight : stamp.length = 8) :
    put 8 (uint64 (get stamp)) = stamp := by
  have bound := get_lt stamp
  rw [eight] at bound
  have same : uint64 (get stamp) = get stamp := by
    unfold uint64
    omega
  rw [same, ← eight, put_get_self]

theorem partition_bytes {field : Bytes} (four : field.length = 4) :
    put 4 (UInt32.ofNat (get field)).toNat = field := by
  have bound := get_lt field
  rw [four] at bound
  rw [UInt32.toNat_ofNat_of_lt' bound, ← four, put_get_self]

theorem nextOffset_bytes {field : Bytes} (eight : field.length = 8) :
    put 8 (UInt64.ofNat (get field)).toNat = field := by
  have bound := get_lt field
  rw [eight] at bound
  rw [UInt64.toNat_ofNat_of_lt' bound, ← eight, put_get_self]

/-- Nothing but the payload of a valid entry gets through the checks. -/
theorem parsePayload_ok (parsed : parsePayload position entryLength payload =
    .ok (key, nextOffset)) :
    ∃ e : Entry, e.Valid ∧
      e.payload = payload ∧ entryLength = 32 + e.key.group.length + e.key.topic.length ∧
      e.key = key ∧ e.nextOffset = nextOffset := by
  rw [parsePayload_eq] at parsed
  cases groupAt : parseName (groupErrors position) maxConsumerGroupBytes payload with
  | error reason => rw [groupAt] at parsed; cases parsed
  | ok group =>
    rw [groupAt] at parsed
    change (parseName _ _ _ >>= _) = _ at parsed
    cases topicAt : parseName (topicErrors position) maxTopicNameBytes
      (payload.drop (4 + group.length)) with
    | error reason => rw [topicAt] at parsed; cases parsed
    | ok topic =>
      rw [topicAt] at parsed
      change parseFields position entryLength payload group topic = _ at parsed
      have groupName := parseName_ok groupAt
      have topicName := parseName_ok topicAt
      obtain ⟨after, groupBytes⟩ := groupName.bytes
      obtain ⟨fields, topicBytes⟩ := topicName.bytes
      have behindGroup : payload.drop (4 + group.length) = after := by
        rw [groupBytes, ← List.drop_drop, List.drop_left' (put_length 4 _), List.drop_left]
      rw [behindGroup] at topicBytes
      have behindTopic : payload.drop (4 + group.length + 4 + topic.length) = fields := by
        rw [← List.drop_drop, ← List.drop_drop, behindGroup, topicBytes,
          List.drop_left' (put_length 4 _), List.drop_left]
      unfold parseFields at parsed
      rw [behindTopic] at parsed
      dsimp only at parsed
      split_ifs at parsed with mismatch remainder
      cases parsed
      have twenty : fields.length = 20 := not_not.mp remainder
      refine ⟨⟨⟨group, topic, UInt32.ofNat (get (fields.take 4))⟩,
        UInt64.ofNat (get ((fields.drop 4).take 8)), (get (fields.drop 12) : Nat)⟩, ⟨?_, ?_⟩, ?_,
        not_not.mp mismatch, rfl, rfl⟩
      · exact invalidName_iff.mpr ⟨groupName.nonempty, groupName.short, groupName.text⟩
      · exact invalidName_iff.mpr ⟨topicName.nonempty, topicName.short, topicName.text⟩
      · have stamp : (fields.drop 4).drop 8 = fields.drop 12 := List.drop_drop
        unfold Entry.payload encodePayload
        dsimp only
        rw [partition_bytes (by rw [List.length_take]; omega),
          nextOffset_bytes (by rw [List.length_take, List.length_drop]; omega),
          timestamp_bytes (by rw [List.length_drop]; omega), groupBytes, topicBytes]
        simp only [List.append_assoc]
        rw [← stamp, List.take_append_drop, List.take_append_drop]

/-- A frame behind its magic, version and length. -/
def frameHead (position entryLength : Nat) (frame : Bytes) : Head :=
  if get (frame.take 4) ≠ checksumIEEE (frame.drop 4) then .corrupt (.checksumMismatch position)
  else
    match parsePayload position entryLength (frame.drop 4) with
    | .error reason => .corrupt reason
    | .ok (key, nextOffset) => .frame key nextOffset (offsetPrefixSize + entryLength)

theorem scanHead_marked (fits : entryLength < 256 ^ 4) (more : Bytes) :
    scanHead position (offsetMagic ++ [0x01] ++ put 4 entryLength ++ more) =
      if entryLength < offsetMinRemainder then .corrupt (.entryTooSmall entryLength position)
      else if maxOffsetEntryBytes < entryLength then .corrupt (.entryTooLarge entryLength position)
      else if more.length < entryLength then .torn
      else frameHead position entryLength (more.take entryLength) := by
  have size : (offsetMagic ++ [0x01] ++ put 4 entryLength ++ more).length = 9 + more.length := by
    simp only [List.length_append, put_length]
    rfl
  have behind : (offsetMagic ++ [0x01] ++ put 4 entryLength ++ more).drop offsetPrefixSize =
      more := by
    rw [List.drop_left']
    simp [offsetMagic, offsetPrefixSize]
  have field : ((offsetMagic ++ [0x01] ++ put 4 entryLength ++ more).drop 5).take 4 =
      put 4 entryLength := by
    rw [List.append_assoc, List.drop_left' (by rfl), List.take_left' (put_length 4 _)]
  have magic : (offsetMagic ++ [0x01] ++ put 4 entryLength ++ more).take 4 = offsetMagic := rfl
  have version : ((offsetMagic ++ [0x01] ++ put 4 entryLength ++ more).drop 4).take 1 = [0x01] :=
    rfl
  rw [scanHead, behind, field, magic, version, size, get_put_of_lt fits]
  unfold offsetPrefixSize
  rw [if_neg (by omega), if_neg (by omega), if_neg (by simp)]
  simp only [Nat.add_lt_add_iff_left]
  rfl

theorem marked_of_fields (enough : offsetPrefixSize ≤ rest.length)
    (magic : rest.take 4 = offsetMagic) (version : (rest.drop 4).take 1 = [0x01]) :
    rest = offsetMagic ++ [0x01] ++ put 4 (get ((rest.drop 5).take 4)) ++ rest.drop 9 := by
  unfold offsetPrefixSize at enough
  have field := put_get_self ((rest.drop 5).take 4)
  rw [List.length_take, List.length_drop, Nat.min_eq_left (by omega)] at field
  rw [field, ← magic, ← version, show rest.drop 5 = (rest.drop 4).drop 1 by rw [List.drop_drop],
    show rest.drop 9 = ((rest.drop 4).drop 1).drop 4 by rw [List.drop_drop, List.drop_drop]]
  simp only [List.append_assoc, List.take_append_drop]

/-- A turn of the loop takes exactly the valid entries. -/
theorem scanHead_entry (valid : e.Valid) (after : Bytes) :
    scanHead position (e.bytes ++ after) = .frame e.key e.nextOffset e.bytes.length := by
  obtain ⟨_, groupLimit, _, topicLimit⟩ := valid.lengths
  have size := e.payload_length
  have whole := e.bytes_length
  have layout : e.bytes ++ after =
      offsetMagic ++ [0x01] ++ put 4 (32 + e.key.group.length + e.key.topic.length) ++
      (put 4 (checksumIEEE e.payload) ++ e.payload ++ after) := by
    simp only [Entry.bytes, encodeEntry, Entry.payload, List.append_assoc, offsetMinRemainder]
  have frame : (put 4 (checksumIEEE e.payload) ++ e.payload ++ after).take
      (32 + e.key.group.length + e.key.topic.length) =
      put 4 (checksumIEEE e.payload) ++ e.payload := by
    rw [List.take_left']
    rw [List.length_append, put_length]
    omega
  rw [layout, scanHead_marked (by omega), frame]
  unfold offsetMinRemainder maxOffsetEntryBytes
  rw [if_neg (by omega), if_neg (by omega),
    if_neg (by simp only [List.length_append, put_length]; omega), frameHead,
    List.take_left' (put_length 4 _), List.drop_left' (put_length 4 _),
    get_put_of_lt (checksumIEEE_lt _), if_neg (by simp), Entry.parse valid]
  dsimp only
  rw [whole]
  unfold offsetPrefixSize
  congr 1
  omega

theorem frameHead_cases (position entryLength : Nat) {frame : Bytes} (enough : 4 ≤ frame.length) :
    (∃ reason, frameHead position entryLength frame = .corrupt reason) ∨
      ∃ e : Entry, e.Valid ∧ frame = put 4 (checksumIEEE e.payload) ++ e.payload ∧
        entryLength = 32 + e.key.group.length + e.key.topic.length := by
  unfold frameHead
  split_ifs with sums
  · exact .inl ⟨_, rfl⟩
  cases parsed : parsePayload position entryLength (frame.drop 4) with
  | error reason => exact .inl ⟨reason, rfl⟩
  | ok found =>
    obtain ⟨e, valid, payload, length, -⟩ := parsePayload_ok parsed
    refine .inr ⟨e, valid, ?_, length⟩
    have field := put_get_self (frame.take 4)
    rw [List.length_take, Nat.min_eq_left enough, not_not.mp sums] at field
    rw [payload, field, List.take_append_drop]

theorem scanHead_cases (position : Nat) (rest : Bytes) :
    (scanHead position rest = .finished ∧ rest = []) ∨
      (scanHead position rest = .torn ∧ Incomplete rest) ∨
      (∃ reason, scanHead position rest = .corrupt reason) ∨
      ∃ (e : Entry) (after : Bytes), e.Valid ∧ rest = e.bytes ++ after := by
  by_cases finished : rest.length = 0
  · have nothing := List.eq_nil_of_length_eq_zero finished
    exact .inl ⟨by rw [nothing]; rfl, nothing⟩
  by_cases short : rest.length < offsetPrefixSize
  · refine .inr (.inl ⟨?_, .short short⟩)
    rw [scanHead, if_neg finished, if_pos short]
  by_cases marked : rest.take 4 ≠ offsetMagic ∨ (rest.drop 4).take 1 ≠ [0x01]
  · refine .inr (.inr (.inl ⟨.invalidMagicOrVersion position, ?_⟩))
    rw [scanHead, if_neg finished, if_neg short]
    dsimp only
    rw [if_pos marked]
  obtain ⟨magic, version⟩ := not_or.mp marked
  have layout := marked_of_fields (not_lt.mp short) (not_not.mp magic) (not_not.mp version)
  have fits : get ((rest.drop 5).take 4) < 256 ^ 4 :=
    lt_of_lt_of_le (get_lt _) (Nat.pow_le_pow_right (by omega) (List.length_take_le _ _))
  rw [layout]
  generalize get ((rest.drop 5).take 4) = entryLength at fits
  generalize rest.drop 9 = more
  rw [scanHead_marked fits]
  by_cases small : entryLength < offsetMinRemainder
  · rw [if_pos small]
    exact .inr (.inr (.inl ⟨_, rfl⟩))
  by_cases large : maxOffsetEntryBytes < entryLength
  · rw [if_neg small, if_pos large]
    exact .inr (.inr (.inl ⟨_, rfl⟩))
  by_cases past : more.length < entryLength
  · rw [if_neg small, if_neg large, if_pos past]
    exact .inr (.inl ⟨rfl, .overrun (not_lt.mp small) (not_lt.mp large) past⟩)
  rw [if_neg small, if_neg large, if_neg past]
  have length : (more.take entryLength).length = entryLength := by
    rw [List.length_take]
    omega
  unfold offsetMinRemainder at small
  rcases frameHead_cases position entryLength (by omega : 4 ≤ (more.take entryLength).length)
    with corrupt | ⟨e, valid, frame, sizes⟩
  · exact .inr (.inr (.inl corrupt))
  · refine .inr (.inr (.inr ⟨e, more.drop entryLength, valid, ?_⟩))
    have parts : more = put 4 (checksumIEEE e.payload) ++ e.payload ++ more.drop entryLength := by
      rw [← frame, List.take_append_drop]
    rw [Entry.bytes, encodeEntry, offsetMinRemainder, ← sizes]
    nth_rewrite 1 [parts]
    simp only [Entry.payload, List.append_assoc]

end Format

/-! ## What is accepted -/

section Accepted

variable {μ : Type} {m : μ} {log : List Entry} {before rest tail : Bytes}
  {offsets : AList fun _ : Key => UInt64}

theorem Incomplete.head (incomplete : Incomplete rest) (position : Nat) :
    (scanHead position rest = .finished ∧ rest = []) ∨ scanHead position rest = .torn := by
  cases incomplete with
  | short few =>
    by_cases finished : rest.length = 0
    · have nothing := List.eq_nil_of_length_eq_zero finished
      exact .inl ⟨by rw [nothing]; rfl, nothing⟩
    · right
      rw [scanHead, if_neg finished, if_pos few]
  | overrun least most past =>
    right
    rw [scanHead_marked (lt_of_le_of_lt most (by decide)), if_neg (not_lt.mpr least),
      if_neg (not_lt.mpr most), if_pos past]

/-- The scan ends at an incomplete tail and cuts it off. -/
theorem Incomplete.recoverFrom (incomplete : Incomplete tail) (before : Bytes)
    (offsets : AList fun _ : Key => UInt64) :
    Offsets.recoverFrom (before ++ tail).length before.length offsets ⟨m, ⟨some (before ++ tail)⟩,
      []⟩ =
      (.ok (offsets, before.length), ⟨m, ⟨some before⟩, []⟩) := by
  rw [recoverFrom_step]
  rcases incomplete.head before.length with ⟨head, rfl⟩ | head
  · rw [head, List.append_nil]
  · rw [head]

/-- The scan passes over the entries at the start of the file, whatever is behind them. -/
theorem recoverFrom_log (valid : ∀ e ∈ log, e.Valid) (rest : Bytes) :
    recoverFrom (logBytes log ++ rest).length 0 ∅ ⟨m, ⟨some (logBytes log ++ rest)⟩, []⟩ =
      recoverFrom (logBytes log ++ rest).length (logBytes log).length (replay log)
        ⟨m, ⟨some (logBytes log ++ rest)⟩, []⟩ := by
  induction log using List.reverseRecOn generalizing rest with
  | nil => rfl
  | append_singleton log e ih =>
    have single : logBytes [e] = e.bytes := by simp [logBytes]
    have entry : e.Valid := valid e (by simp)
    rw [logBytes_append, single, List.append_assoc,
      ih (fun e member => valid e (List.mem_append_left _ member)),
      recoverFrom_step, scanHead_entry entry]
    dsimp only
    rw [← replay_append, @List.length_append _ _ e.bytes]

/-- The scan reports an error and leaves the file, or the file was entries and an incomplete
    tail. -/
theorem recoverFrom_total (before rest : Bytes) (offsets : AList fun _ : Key => UInt64) :
    (∃ reason, recoverFrom (before ++ rest).length before.length offsets
      ⟨m, ⟨some (before ++ rest)⟩, []⟩ =
      (.error reason, ⟨m, ⟨some (before ++ rest)⟩, []⟩)) ∨
    ∃ log tail, (∀ e ∈ log, Entry.Valid e) ∧ rest = logBytes log ++ tail ∧ Incomplete tail := by
  induction length : rest.length using Nat.strong_induction_on generalizing before rest offsets with
  | _ size ih =>
    rcases scanHead_cases before.length rest
      with ⟨-, nothing⟩ | ⟨-, incomplete⟩ | ⟨reason, head⟩ | ⟨e, after, entry, layout⟩
    · exact .inr ⟨[], [], by simp, nothing, .short (by decide)⟩
    · exact .inr ⟨[], rest, by simp, rfl, incomplete⟩
    · exact .inl ⟨reason, by rw [recoverFrom_step, head]⟩
    · have whole := e.bytes_length
      have shorter : after.length < size := by
        rw [← length, layout, List.length_append]
        omega
      rcases ih _ shorter (before ++ e.bytes) after (offsets.insert e.key e.nextOffset) rfl with
        ⟨reason, failed⟩ | ⟨log, tail, valid, rfl, incomplete⟩
      · left
        refine ⟨reason, ?_⟩
        rw [List.append_assoc, @List.length_append _ _ e.bytes] at failed
        rw [layout, recoverFrom_step, scanHead_entry entry]
        exact failed
      · right
        refine ⟨e :: log, tail, ?_, ?_, incomplete⟩
        · simpa using ⟨entry, valid⟩
        · rw [layout, ← List.append_assoc]
          rfl

theorem recover_ok {data : Bytes} {size : Nat} {after : World μ Disk}
    (scanned : recoverFrom data.length 0 ∅ ⟨m, ⟨some data⟩, []⟩ = (.ok (offsets, size), after)) :
    recover ⟨m, ⟨some data⟩, []⟩ = (.ok ⟨offsets, size, false, false⟩, after) := by
  show Program.bind (recoverFrom data.length 0 ∅) _ ⟨m, ⟨some data⟩, []⟩ = _
  rw [Program.bind, scanned]
  rfl

theorem recover_error {data : Bytes} {reason : OffsetError} {after : World μ Disk}
    (scanned : recoverFrom data.length 0 ∅ ⟨m, ⟨some data⟩, []⟩ = (.error reason, after)) :
    recover ⟨m, ⟨some data⟩, []⟩ = (.error reason, after) := by
  show Program.bind (recoverFrom data.length 0 ∅) _ ⟨m, ⟨some data⟩, []⟩ = _
  rw [Program.bind, scanned]

theorem openStore_ok {d : Disk} {s : Store} {after : World μ Disk}
    (recovered : recover ⟨m, ⟨some (d.file.getD [])⟩, []⟩ = (.ok s, after)) :
    openStore ⟨m, d, []⟩ = (.ok s, after) := by
  show Program.onError recover closeFile ⟨m, ⟨some (d.file.getD [])⟩, []⟩ = _
  show Program.bind (attempt recover) _ _ = _
  rw [Program.bind, attempt, recovered]
  rfl

theorem openStore_error {d d' : Disk} {reason : OffsetError}
    (recovered : recover ⟨m, ⟨some (d.file.getD [])⟩, []⟩ = (.error reason, ⟨m, d', []⟩)) :
    openStore ⟨m, d, []⟩ = (.error reason, ⟨m, d', []⟩) := by
  show Program.bind (attempt recover) _ ⟨m, ⟨some (d.file.getD [])⟩, []⟩ = _
  rw [Program.bind, attempt, recovered]
  rfl

theorem Incomplete.recover (incomplete : Incomplete tail) (valid : ∀ e ∈ log, e.Valid) :
    Offsets.recover ⟨m, ⟨some (logBytes log ++ tail)⟩, []⟩ =
      (.ok ⟨replay log, (logBytes log).length, false, false⟩, ⟨m, ⟨some (logBytes log)⟩, []⟩) := by
  apply recover_ok
  rw [recoverFrom_log valid, incomplete.recoverFrom]

/-- Recovery takes exactly the logs with an incomplete tail: on any other content it fails, and no
    access is out of range on either. -/
theorem recover_exact (m : μ) (data : Bytes) :
    recoverChecked ⟨m, ⟨some data⟩, []⟩ = recover ⟨m, ⟨some data⟩, []⟩ ∧
      (recoverChecked ⟨m, ⟨some data⟩, []⟩).1 ≠ .died ∧
    ((∃ s after, recover ⟨m, ⟨some data⟩, []⟩ = (.ok s, after)) ↔
      ∃ log tail, (∀ e ∈ log, Entry.Valid e) ∧ data = logBytes log ++ tail ∧ Incomplete tail) ∧
    ∀ log tail, (∀ e ∈ log, Entry.Valid e) → data = logBytes log ++ tail → Incomplete tail →
      ∃ s : Store, recover ⟨m, ⟨some data⟩, []⟩ = (.ok s, ⟨m, ⟨some (logBytes log)⟩, []⟩) ∧
        s.size = (logBytes log).length ∧ (∀ key, s.offsets.lookup key = latest log key) ∧
        openStore ⟨m, ⟨some data⟩, []⟩ = (.ok s, ⟨m, ⟨some (logBytes log)⟩, []⟩) ∧
        openStore ⟨m, ⟨some (logBytes log)⟩, []⟩ = (.ok s, ⟨m, ⟨some (logBytes log)⟩, []⟩) := by
  have accepts :
      ∀ log tail, (∀ e ∈ log, Entry.Valid e) → data = logBytes log ++ tail → Incomplete tail →
      recover ⟨m, ⟨some data⟩, []⟩ =
        (.ok ⟨replay log, (logBytes log).length, false, false⟩,
          ⟨m, ⟨some (logBytes log)⟩, []⟩) := by
    intro log tail valid layout incomplete
    rw [layout, incomplete.recover valid]
  have total : (∃ reason, recover ⟨m, ⟨some data⟩, []⟩ = (.error reason, ⟨m, ⟨some data⟩, []⟩)) ∨
      ∃ log tail, (∀ e ∈ log, Entry.Valid e) ∧ data = logBytes log ++ tail ∧ Incomplete tail :=
    (recoverFrom_total [] data ∅).imp_left fun ⟨reason, failed⟩ => ⟨reason, recover_error failed⟩
  rw [recoverChecked_eq]
  refine ⟨rfl, ?_, ⟨?_, ?_⟩, ?_⟩
  · rcases total with ⟨reason, failed⟩ | ⟨log, tail, valid, layout, incomplete⟩
    · rw [failed]
      nofun
    · rw [accepts log tail valid layout incomplete]
      nofun
  · rintro ⟨s, after, succeeded⟩
    rcases total with ⟨reason, failed⟩ | decomposed
    · rw [failed] at succeeded
      cases succeeded
    · exact decomposed
  · rintro ⟨log, tail, valid, layout, incomplete⟩
    exact ⟨_, _, accepts log tail valid layout incomplete⟩
  · intro log tail valid layout incomplete
    have first := accepts log tail valid layout incomplete
    have second :=
      (Incomplete.short (by decide : [].length < offsetPrefixSize)).recover (m := m) valid
    rw [List.append_nil] at second
    exact ⟨_, first, rfl, fun key => lookup_replay log key, openStore_ok first, openStore_ok second⟩

end Accepted

end MessageBroker.Offsets
