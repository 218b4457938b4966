import MessageBroker.Offsets.Scan
import MessageBroker.Storage.Changed

namespace MessageBroker.Offsets

open Faulty Program BigEndian Crc32
open Storage (field_changed field_before field_after checksum_changed)

/-! ## One changed byte of an entry -/

section Entries

variable {e : Entry} {position i : Nat} {value : UInt8}

/-- The length fields of the names say how long the payload is, so no payload starts another. -/
theorem Entry.payload_lengths {e e' : Entry} (valid : e.Valid) (valid' : e'.Valid)
    {rest rest' : Bytes} (same : e.payload ++ rest = e'.payload ++ rest') :
    e.key.group.length = e'.key.group.length ∧ e.key.topic.length = e'.key.topic.length := by
  obtain ⟨_, groupLimit, _, topicLimit⟩ := valid.lengths
  obtain ⟨_, groupLimit', _, topicLimit'⟩ := valid'.lengths
  simp only [Entry.payload, encodePayload, List.append_assoc] at same
  obtain ⟨groupField, same⟩ := List.append_inj same (by simp)
  have group : e.key.group.length = e'.key.group.length := by
    rw [← get_length groupLimit, groupField, get_length groupLimit']
  obtain ⟨_, same⟩ := List.append_inj same group
  obtain ⟨topicField, _⟩ := List.append_inj same (by simp)
  refine ⟨group, ?_⟩
  rw [← get_length topicLimit, topicField, get_length topicLimit']

/-- The checksum covers everything behind it. -/
theorem frameHead_changed (entryLength : Nat)
    (inside : i < (put 4 (checksumIEEE e.payload) ++ e.payload).length)
    (differs : (put 4 (checksumIEEE e.payload) ++ e.payload)[i]? ≠ some value) :
    frameHead position entryLength ((put 4 (checksumIEEE e.payload) ++ e.payload).set i value) =
      .corrupt (.checksumMismatch position) := by
  unfold frameHead
  rw [if_pos]
  intro sums
  apply differs
  by_cases field : i < 4
  · refine field_changed 0 4 (Nat.zero_le i) (by omega) inside ?_
    rw [field_after field, List.drop_left' (put_length 4 _)] at sums
    apply get_injective
    · simp
    rw [List.drop_zero, List.drop_zero, sums, List.take_left' (put_length 4 _),
      get_put_of_lt (checksumIEEE_lt _)]
  · rw [List.take_set_of_le (by omega), List.take_left' (put_length 4 _),
      get_put_of_lt (checksumIEEE_lt _), List.drop_set, if_neg (by omega),
      List.drop_left' (put_length 4 _)] at sums
    rw [List.length_append, put_length] at inside
    have found := checksum_changed (by omega) sums.symm
    rwa [List.getElem?_append_right (by rw [put_length]; omega), put_length]

/-- A length that is not the entry's own is reported, if the file is long enough for it. -/
theorem frameHead_length (valid : e.Valid) {entryLength : Nat} (rest : Bytes)
    (least : offsetMinRemainder ≤ entryLength)
    (differs : entryLength ≠ 32 + e.key.group.length + e.key.topic.length)
    (inside : entryLength ≤ (put 4 (checksumIEEE e.payload) ++ e.payload ++ rest).length) :
    ∃ reason, frameHead position entryLength
      ((put 4 (checksumIEEE e.payload) ++ e.payload ++ rest).take entryLength) =
      .corrupt reason := by
  unfold offsetMinRemainder at least
  generalize whole : put 4 (checksumIEEE e.payload) ++ e.payload ++ rest = more at inside ⊢
  refine (frameHead_cases position entryLength (by rw [List.length_take]; omega)).resolve_right ?_
  rintro ⟨e', valid', frame, length⟩
  have parts := List.take_append_drop entryLength more
  rw [frame, ← whole, List.append_assoc, List.append_assoc] at parts
  obtain ⟨_, payloads⟩ := List.append_inj parts (by simp)
  obtain ⟨group, topic⟩ := Entry.payload_lengths valid' valid payloads
  omega

theorem Entry.parts (e : Entry) :
    e.bytes = offsetMagic ++ [0x01] ++ put 4 (32 + e.key.group.length + e.key.topic.length) ++
    (put 4 (checksumIEEE e.payload) ++ e.payload) := by
  simp only [Entry.bytes, encodeEntry, Entry.payload, List.append_assoc, offsetMinRemainder]

theorem scanHead_changed_marks (early : i < 5) (differs : e.bytes[i]? ≠ some value) (rest : Bytes) :
    ∃ reason, scanHead position (e.bytes.set i value ++ rest) = .corrupt reason := by
  have size := e.bytes_length
  have length : (e.bytes.set i value ++ rest).length = e.bytes.length + rest.length := by simp
  obtain ⟨magic, version⟩ := @Entry.markers e e.bytes.length (by omega)
  rw [List.take_length, List.take_take] at magic
  rw [List.take_length, List.drop_take, List.take_take] at version
  have marks : (e.bytes.set i value ++ rest).take 4 ≠ offsetMagic ∨
      ((e.bytes.set i value ++ rest).drop 4).take 1 ≠ [0x01] := by
    rw [List.take_append_of_le_length (by rw [List.length_set]; omega),
      List.drop_append_of_le_length (by rw [List.length_set]; omega),
      List.take_append_of_le_length (by rw [List.length_drop, List.length_set]; omega)]
    by_contra same
    obtain ⟨magic', version'⟩ := not_or.mp same
    apply differs
    by_cases first : i < 4
    · exact field_changed 0 4 (Nat.zero_le i) (by omega) (by omega)
        ((not_not.mp magic').trans magic.symm)
    · exact field_changed 4 1 (by omega) (by omega) (by omega)
        ((not_not.mp version').trans version.symm)
  rw [scanHead, if_neg (by omega), if_neg (by unfold offsetPrefixSize; omega)]
  dsimp only
  rw [if_pos marks]
  exact ⟨_, rfl⟩

theorem scanHead_changed_body (valid : e.Valid) (late : 9 ≤ i) (inside : i < e.bytes.length)
    (differs : e.bytes[i]? ≠ some value) (rest : Bytes) :
    ∃ reason, scanHead position (e.bytes.set i value ++ rest) = .corrupt reason := by
  obtain ⟨_, groupLimit, _, topicLimit⟩ := valid.lengths
  have whole := e.bytes_length
  have size := e.payload_length
  have front : (offsetMagic ++ [0x01] ++
      put 4 (32 + e.key.group.length + e.key.topic.length)).length = 9 := by
    simp [offsetMagic]
  have layout : e.bytes.set i value ++ rest =
      offsetMagic ++ [0x01] ++ put 4 (32 + e.key.group.length + e.key.topic.length) ++
      ((put 4 (checksumIEEE e.payload) ++ e.payload).set (i - 9) value ++ rest) := by
    rw [e.parts, List.set_append_right _ _ (by omega), front, List.append_assoc]
  have frame : ((put 4 (checksumIEEE e.payload) ++ e.payload).set (i - 9) value ++ rest).take
      (32 + e.key.group.length + e.key.topic.length) =
      (put 4 (checksumIEEE e.payload) ++ e.payload).set (i - 9) value := by
    rw [List.take_left']
    rw [List.length_set, List.length_append, put_length]
    omega
  rw [e.parts, List.getElem?_append_right (by omega), front] at differs
  rw [layout, scanHead_marked (by omega), frame]
  unfold offsetMinRemainder maxOffsetEntryBytes
  rw [if_neg (by omega), if_neg (by omega),
    if_neg (by simp only [List.length_append, List.length_set, put_length]; omega),
    frameHead_changed _ (by simp only [List.length_append, put_length]; omega) differs]
  exact ⟨_, rfl⟩

def changedLength (e : Entry) (i : Nat) (value : UInt8) : Nat :=
  get (((e.bytes.set i value).drop 5).take 4)

/-- A change inside the length field only changes the length. -/
theorem changedLength_parts (late : 5 ≤ i) (early : i < 9) (value : UInt8) : e.bytes.set i value =
    offsetMagic ++ [0x01] ++ put 4 (changedLength e i value) ++
      (put 4 (checksumIEEE e.payload) ++ e.payload) := by
  have parts : e.bytes.set i value =
      offsetMagic ++ [0x01] ++ (put 4 (32 + e.key.group.length + e.key.topic.length)).set
        (i - 5) value ++
      (put 4 (checksumIEEE e.payload) ++ e.payload) := by
    rw [e.parts, List.set_append_left _ _ (by simp [offsetMagic]; omega),
      List.set_append_right _ _ (by simpa [offsetMagic] using late)]
    rfl
  have field := put_get_self
    ((put 4 (32 + e.key.group.length + e.key.topic.length)).set (i - 5) value)
  have length : changedLength e i value =
      get ((put 4 (32 + e.key.group.length + e.key.topic.length)).set (i - 5) value) := by
    rw [changedLength, parts, List.append_assoc, List.drop_left' (by rfl),
      List.take_left' (by simp)]
  rw [List.length_set, put_length, ← length] at field
  rw [field, parts]

theorem changedLength_ne (late : 5 ≤ i) (early : i < 9) (differs : e.bytes[i]? ≠ some value) :
    changedLength e i value ≠ 32 + e.key.group.length + e.key.topic.length := by
  intro same
  have size := e.bytes_length
  have unchanged : e.bytes.set i value = e.bytes := by
    rw [changedLength_parts late early, same, ← e.parts]
  apply differs
  rw [← unchanged, List.getElem?_set_self (by omega)]

/-- A change of the length field that makes the entry look longer than the rest of the file. -/
structure Overruns (e : Entry) (i : Nat) (value : UInt8) (rest : Bytes) : Prop where
  late : 5 ≤ i
  early : i < 9
  least : offsetMinRemainder ≤ changedLength e i value
  most : changedLength e i value ≤ maxOffsetEntryBytes
  past : e.bytes.length + rest.length < offsetPrefixSize + changedLength e i value

theorem Overruns.incomplete {rest : Bytes} (overruns : Overruns e i value rest) :
    Incomplete (e.bytes.set i value ++ rest) := by
  obtain ⟨late, early, least, most, past⟩ := overruns
  have size := e.payload_length
  rw [e.bytes_length, offsetPrefixSize] at past
  rw [changedLength_parts late early, List.append_assoc]
  exact .overrun least most (by simp only [List.length_append, put_length]; omega)

/-- A changed entry is reported unless it overruns the file. -/
theorem scanHead_changed (valid : e.Valid) (inside : i < e.bytes.length)
    (differs : e.bytes[i]? ≠ some value) (rest : Bytes) :
    (∃ reason, scanHead position (e.bytes.set i value ++ rest) = .corrupt reason) ∨
      Overruns e i value rest := by
  by_cases marks : i < 5
  · exact .inl (scanHead_changed_marks marks differs rest)
  by_cases body : 9 ≤ i
  · exact .inl (scanHead_changed_body valid body inside differs rest)
  have late : 5 ≤ i := by omega
  have early : i < 9 := by omega
  have own := changedLength_ne late early differs
  have fits : changedLength e i value < 256 ^ 4 :=
    lt_of_lt_of_le (get_lt _) (Nat.pow_le_pow_right (by omega) (List.length_take_le _ _))
  by_cases overruns : Overruns e i value rest
  · exact .inr overruns
  left
  have size := e.payload_length
  have whole := e.bytes_length
  rw [changedLength_parts late early, List.append_assoc, scanHead_marked fits]
  split_ifs with small large past
  · exact ⟨_, rfl⟩
  · exact ⟨_, rfl⟩
  · refine absurd ⟨late, early, not_lt.mp small, not_lt.mp large, ?_⟩ overruns
    simp only [List.length_append, put_length] at past
    unfold offsetPrefixSize
    omega
  · exact frameHead_length valid rest (not_lt.mp small) own (not_lt.mp past)

end Entries

/-! ## One changed byte of the log -/

section Logs

variable {μ : Type} {m : μ} {log : List Entry} {i : Nat} {value : UInt8}

/-- Opening the file reports an error or gives every key its offset of the log. -/
def ReportsOrKeeps (m : μ) (log : List Entry) (data : Bytes) : Prop :=
  match openStore ⟨m, ⟨some data⟩, []⟩ with
  | (.ok s, _) => ∀ key, s.offsets.lookup key = latest log key
  | (.error _, _) => True
  | (.died, _) => False

/-- The changed byte makes an entry overrun the file, and the entries before it are not the whole
    truth. -/
def Forgets (log : List Entry) (i : Nat) (value : UInt8) : Prop :=
  ∃ before e after j,
    log = before ++ e :: after ∧
      i = (logBytes before).length + j ∧ Overruns e j value (logBytes after) ∧
    ∃ key, latest before key ≠ latest log key

theorem entry_at (inside : i < (logBytes log).length) :
    ∃ before e after j,
      log = before ++ e :: after ∧ i = (logBytes before).length + j ∧ j < e.bytes.length := by
  induction log generalizing i with
  | nil => exact absurd inside (Nat.not_lt_zero i)
  | cons e log ih =>
    have split : logBytes (e :: log) = e.bytes ++ logBytes log := rfl
    rw [split, List.length_append] at inside
    by_cases first : i < e.bytes.length
    · exact ⟨[], e, log, i, rfl, by simp [logBytes], first⟩
    · obtain ⟨before, e', after, j, rfl, place, short⟩ := @ih (i - e.bytes.length) (by omega)
      refine ⟨e :: before, e', after, j, rfl, ?_, short⟩
      have split' : logBytes (e :: before) = e.bytes ++ logBytes before := rfl
      rw [split', List.length_append]
      omega

theorem logBytes_set {before after : List Entry} {e : Entry} {j : Nat} (short : j < e.bytes.length)
    (value : UInt8) :
    (logBytes (before ++ e :: after)).set ((logBytes before).length + j) value =
      logBytes before ++ (e.bytes.set j value ++ logBytes after) := by
  have split : logBytes (e :: after) = e.bytes ++ logBytes after := rfl
  rw [logBytes_append, split, List.set_append_right _ _ (by omega), Nat.add_sub_cancel_left,
    List.set_append_left _ _ short]

theorem reportsOrKeeps_corrupt {before : List Entry} {rest : Bytes} {reason : OffsetError}
    (valid : ∀ e ∈ before, e.Valid)
    (head : scanHead (logBytes before).length rest = .corrupt reason) :
    ReportsOrKeeps m log (logBytes before ++ rest) := by
  have failed : recover ⟨m, ⟨some (logBytes before ++ rest)⟩, []⟩ =
      (.error reason, ⟨m, ⟨some (logBytes before ++ rest)⟩, []⟩) := by
    apply recover_error
    rw [recoverFrom_log valid, recoverFrom_step, head]
  unfold ReportsOrKeeps
  rw [openStore_error failed]
  trivial

theorem reportsOrKeeps_incomplete {before : List Entry} {tail : Bytes}
    (valid : ∀ e ∈ before, e.Valid) (incomplete : Incomplete tail) :
    ReportsOrKeeps m log (logBytes before ++ tail) ↔ ∀ key, latest before key = latest log key := by
  unfold ReportsOrKeeps
  rw [openStore_ok (incomplete.recover valid)]
  simp only [lookup_replay]

/-- A changed byte of a log of committed entries is noticed or does no harm, unless it makes an
    entry look incomplete. -/
theorem changed_byte_noticed (m : μ) (valid : ∀ e ∈ log, e.Valid)
    (inside : i < (logBytes log).length) (differs : (logBytes log)[i]? ≠ some value) :
    ReportsOrKeeps m log ((logBytes log).set i value) ↔ ¬ Forgets log i value := by
  constructor
  · rintro kept ⟨before, e, after, j, rfl, rfl, overruns, key, differ⟩
    have size := e.bytes_length
    have early := overruns.early
    rw [logBytes_set (by omega),
      reportsOrKeeps_incomplete (fun e member => valid e (List.mem_append_left _ member))
      overruns.incomplete] at kept
    exact differ (kept key)
  · intro remembered
    obtain ⟨before, e, after, j, rfl, rfl, short⟩ := entry_at inside
    have entry : e.Valid := valid e (by simp)
    have earlier : ∀ e ∈ before, Entry.Valid e :=
      fun e member => valid e (List.mem_append_left _ member)
    have own : e.bytes[j]? ≠ some value := by
      intro same
      apply differs
      have split : logBytes (e :: after) = e.bytes ++ logBytes after := rfl
      rw [logBytes_append, split, List.getElem?_append_right (by omega), Nat.add_sub_cancel_left,
        List.getElem?_append_left short, same]
    rw [logBytes_set short]
    rcases scanHead_changed entry short own (logBytes after) with ⟨reason, head⟩ | overruns
    · exact reportsOrKeeps_corrupt earlier head
    · rw [reportsOrKeeps_incomplete earlier overruns.incomplete]
      intro key
      by_contra differ
      exact remembered ⟨before, e, after, j, rfl, rfl, overruns, key, differ⟩

def loneCommit : Entry := ⟨⟨[0x67], [0x74], 0⟩, 7, 0⟩

theorem loneCommit_valid : ∀ e ∈ [loneCommit], e.Valid := by
  intro e member
  rw [List.mem_singleton] at member
  subst member
  exact ⟨by decide, by decide⟩

theorem changed_byte_noticed_payload :
    (∀ e ∈ [loneCommit], e.Valid) ∧ (logBytes [loneCommit])[22]? = some 0x74 ∧
    ReportsOrKeeps () [loneCommit] ((logBytes [loneCommit]).set 22 0x75) := by
  have inside : 22 < (logBytes [loneCommit]).length := by decide +kernel
  have byte : (logBytes [loneCommit])[22]? = some 0x74 := by decide +kernel
  refine ⟨loneCommit_valid, byte,
    (changed_byte_noticed () loneCommit_valid inside (by rw [byte]; decide)).mpr ?_⟩
  rintro ⟨before, e, after, j, split, place, overruns, -⟩
  have early := overruns.early
  cases before with
  | nil => simp [logBytes] at place; omega
  | cons first before => simp at split

/-- With its length changed from 34 to 35 the only commit of the log is cut off as incomplete. -/
theorem lone_commit_forgotten :
    (∀ e ∈ [loneCommit], e.Valid) ∧ (logBytes [loneCommit])[8]? = some 34 ∧
    openStore ⟨(), ⟨some ((logBytes [loneCommit]).set 8 35)⟩, []⟩ = (.ok ⟨∅, 0, false, false⟩,
      ⟨(), ⟨some []⟩, []⟩) ∧
    latest [loneCommit] loneCommit.key = some 7 ∧
      ¬ ReportsOrKeeps () [loneCommit] ((logBytes [loneCommit]).set 8 35) := by
  have overruns : Overruns loneCommit 8 35 [] :=
    ⟨by decide, by decide, by decide +kernel, by decide +kernel, by decide +kernel⟩
  have opened : openStore ⟨(), ⟨some ((logBytes [loneCommit]).set 8 35)⟩, []⟩ =
      (.ok ⟨∅, 0, false, false⟩, ⟨(), ⟨some []⟩, []⟩) :=
    openStore_ok (overruns.incomplete.recover (by simp) :
      recover ⟨(), ⟨some (logBytes [] ++ _)⟩, []⟩ = _)
  refine ⟨loneCommit_valid, by decide +kernel, opened, by decide, ?_⟩
  unfold ReportsOrKeeps
  rw [opened]
  intro kept
  exact absurd (kept loneCommit.key) (by decide)

end Logs

end MessageBroker.Offsets
