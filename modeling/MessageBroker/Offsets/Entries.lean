import Mathlib.Data.List.Induction
import MessageBroker.Offsets.Store

namespace MessageBroker.Offsets

open BigEndian Crc32

structure Entry where
  key : Key
  nextOffset : UInt64
  timestamp : Int
  deriving DecidableEq, Repr

namespace Entry

def bytes (e : Entry) : Bytes := encodeEntry e.key e.nextOffset e.timestamp

def payload (e : Entry) : Bytes := encodePayload e.key e.nextOffset e.timestamp

structure Valid (e : Entry) : Prop where
  group : invalidName e.key.group maxConsumerGroupBytes = false
  topic : invalidName e.key.topic maxTopicNameBytes = false

end Entry

/-- Last writer wins. -/
def latest (log : List Entry) (key : Key) : Option UInt64 :=
  log.foldl (fun found e => if e.key = key then some e.nextOffset else found) none

def replay (log : List Entry) : AList (fun _ : Key => UInt64) :=
  log.foldl (fun offsets e => offsets.insert e.key e.nextOffset) ∅

def logBytes (log : List Entry) : Bytes := log.flatMap Entry.bytes

theorem latest_append (log : List Entry) (e : Entry) (key : Key) :
    latest (log ++ [e]) key = if e.key = key then some e.nextOffset else latest log key := by
  simp [latest]

theorem mem_latest {log : List Entry} {key : Key} {nextOffset : UInt64}
    (found : latest log key = some nextOffset) :
    ∃ e ∈ log, e.key = key ∧ e.nextOffset = nextOffset := by
  induction log using List.reverseRecOn with
  | nil => cases found
  | append_singleton log e ih =>
    rw [latest_append] at found
    split_ifs at found with own
    · exact ⟨e, by simp, own, Option.some.inj found⟩
    · obtain ⟨e', member, facts⟩ := ih found
      exact ⟨e', List.mem_append_left _ member, facts⟩

theorem replay_append (log : List Entry) (e : Entry) :
    replay (log ++ [e]) = (replay log).insert e.key e.nextOffset := by
  simp [replay]

theorem logBytes_append (left right : List Entry) :
    logBytes (left ++ right) = logBytes left ++ logBytes right := by
  simp [logBytes]

theorem lookup_insert (offsets : AList fun _ : Key => UInt64) (e : Entry) (key : Key) :
    (offsets.insert e.key e.nextOffset).lookup key = if e.key = key then some e.nextOffset
      else offsets.lookup key := by
  split_ifs with same
  · rw [← same]
    exact AList.lookup_insert _
  · exact AList.lookup_insert_ne (Ne.symm same)

/-- Replaying the entries gives every key its last one. -/
theorem lookup_replay (log : List Entry) (key : Key) :
    (replay log).lookup key = latest log key := by
  induction log using List.reverseRecOn with
  | nil => rfl
  | append_singleton log e ih => rw [replay_append, lookup_insert, ih, latest_append]

/-! ## The bytes of an entry -/

section Bytes

variable {e : Entry}

theorem invalidName_iff {name : Bytes} {limit : Nat} :
    invalidName name limit = false ↔
      name.length ≠ 0 ∧ name.length ≤ limit ∧ validString name = true := by
  simp [invalidName, and_assoc]

theorem Entry.payload_length (e : Entry) :
    e.payload.length = 28 + e.key.group.length + e.key.topic.length := by
  simp only [Entry.payload, encodePayload, List.length_append, put_length]
  omega

theorem Entry.bytes_length (e : Entry) :
    e.bytes.length = 41 + e.key.group.length + e.key.topic.length := by
  have inner := e.payload_length
  have whole : e.bytes.length = 13 + e.payload.length := by
    simp only [Entry.bytes, encodeEntry, Entry.payload, List.length_append, put_length, offsetMagic,
      List.length_cons, List.length_nil]
  omega

theorem Entry.header (e : Entry) {count : Nat} (enough : 9 ≤ count) : (e.bytes.take count).take 9 =
    offsetMagic ++ [0x01] ++
      put 4 (offsetMinRemainder + e.key.group.length + e.key.topic.length) := by
  rw [List.take_take, Nat.min_eq_left enough, Entry.bytes, encodeEntry, List.append_assoc,
    List.take_left']
  simp [offsetMagic]

theorem Entry.body (e : Entry) : e.bytes.drop 9 = put 4 (checksumIEEE e.payload) ++ e.payload := by
  rw [Entry.bytes, encodeEntry, List.append_assoc, List.drop_left']
  · rfl
  · simp [offsetMagic]

theorem get_length {length : Nat} (small : length ≤ 255) : get (put 4 length) = length :=
  get_put_of_lt (by omega)

theorem Entry.Valid.lengths (valid : e.Valid) : 0 < e.key.group.length ∧ e.key.group.length ≤ 255 ∧
    0 < e.key.topic.length ∧ e.key.topic.length ≤ 255 := by
  obtain ⟨someGroup, group, _⟩ := invalidName_iff.mp valid.group
  obtain ⟨someTopic, topic, _⟩ := invalidName_iff.mp valid.topic
  exact ⟨Nat.pos_of_ne_zero someGroup, group, Nat.pos_of_ne_zero someTopic, topic⟩

theorem Entry.lengthField (valid : e.Valid) {count : Nat} (enough : 9 ≤ count) :
    get ((((e.bytes.take count).take 9).drop 5).take 4) =
      32 + e.key.group.length + e.key.topic.length := by
  obtain ⟨_, group, _, topic⟩ := valid.lengths
  rw [e.header enough, List.drop_left' (by rfl), List.take_of_length_le (by simp)]
  exact get_put_of_lt (by unfold offsetMinRemainder; omega)

theorem Entry.markers (e : Entry) {count : Nat} (enough : 9 ≤ count) :
    ((e.bytes.take count).take 9).take 4 = offsetMagic ∧
      (((e.bytes.take count).take 9).drop 4).take 1 = [0x01] := by
  rw [e.header enough]
  exact ⟨rfl, rfl⟩

/-- The parser takes back what the encoder wrote. -/
theorem Entry.parse (valid : e.Valid) (position : Nat) :
    parsePayload position (32 + e.key.group.length + e.key.topic.length) e.payload =
      .ok (e.key, e.nextOffset) := by
  obtain ⟨group, groupLimit, topic, topicLimit⟩ := valid.lengths
  have groupText := (invalidName_iff.mp valid.group).2.2
  have topicText := (invalidName_iff.mp valid.topic).2.2
  have whole := e.payload_length
  have parts : e.payload =
      put 4 e.key.group.length ++ (e.key.group ++ (put 4 e.key.topic.length ++ (e.key.topic ++
      (put 4 e.key.partition.toNat ++
        (put 8 e.nextOffset.toNat ++ put 8 (uint64 e.timestamp)))))) := by
    simp only [Entry.payload, encodePayload, List.append_assoc]
  have groupField : get (put 4 e.key.group.length) = e.key.group.length := get_length groupLimit
  have topicField : get (put 4 e.key.topic.length) = e.key.topic.length := get_length topicLimit
  have partition : UInt32.ofNat (get (put 4 e.key.partition.toNat)) = e.key.partition := by
    rw [get_put_of_lt e.key.partition.toNat_lt]
    exact UInt32.ofNat_toNat
  have next : UInt64.ofNat (get (put 8 e.nextOffset.toNat)) = e.nextOffset := by
    rw [get_put_of_lt e.nextOffset.toNat_lt]
    exact UInt64.ofNat_toNat
  unfold parsePayload
  rw [if_neg (by omega)]
  rw [parts]
  simp only [List.take_left' (put_length 4 _), List.drop_left' (put_length 4 _), List.take_left,
    List.drop_left, groupField, topicField, List.take_left' (put_length 8 _)]
  rw [if_neg (by unfold maxConsumerGroupBytes; omega), if_neg (by simp),
    if_neg (by simp [groupText]), if_neg (by simp), if_neg (by unfold maxTopicNameBytes; omega),
    if_neg (by simp), if_neg (by simp [topicText]), if_neg (by unfold offsetMinRemainder; simp),
    if_neg (by simp), partition, next]

end Bytes

end MessageBroker.Offsets
