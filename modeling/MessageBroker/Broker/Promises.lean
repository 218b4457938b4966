import MessageBroker.Broker.Chronicle

namespace MessageBroker.Broker

open Faulty Program Storage Topics Runs
open MessageBroker.Configuration (defaultStorage)

section Promises

variable {limit : Int} {n : Node} {sv : Server} {past : List NodeEvent}

/-- An offset stands for one record for good: whatever fails, dies, is restarted or expires in
    between, no two answers give different records for one offset of a partition. -/
theorem offset_names_record {topic : Bytes} {id : Nat} {event event' : NodeEvent}
    {r r' : StoredRecord} (small : limit < 2 ^ 31)
    (run : Run Node.perform (SteadyTurn limit) Node.new past n)
    (member : event ∈ past) (member' : event' ∈ past) (reported : r ∈ reportedAt event topic id)
    (reported' : r' ∈ reportedAt event' topic id) (same : r.offset = r'.offset) : r = r' := by
  obtain ⟨J, L, chronicle⟩ := chronicle_run small run
  obtain ⟨_, found⟩ := chronicle.told event member topic id r reported
  obtain ⟨_, found'⟩ := chronicle.told event' member' topic id r' reported'
  rw [same, found', Option.some.injEq] at found
  exact found.symm

/-- A produce request whose flush fails is not acknowledged, but its record stays; a record that
    dies in its write does not, and the next one gets its offset. -/
theorem offset_names_record_restarted :
    let start : Turn := ⟨.start .inOrder defaultStorage 0 0, []⟩
    let produce (byte : UInt8) (faults : List Fault) : Turn :=
      ⟨.produce 5000000 [97] 0 [⟨none, some [byte], [], 0⟩], faults⟩
    let history := execute Node.perform [] Node.new
      [start, ⟨.createTopic [97] 1 ⟨0, 0⟩, []⟩, produce 1 [.pass, .pass, .fail 0], start,
        produce 2 [.die 9], start,
       produce 3 [], ⟨.fetch [97] 0 0 100, []⟩, ⟨.readOffset 0, []⟩, ⟨.readOffset 0, []⟩]
    (history.1.map fun event => reportedAt event [97] 0) =
        [[], [], [], [], [], [], [⟨1, 5, none, some [3], []⟩], [], [],
         [⟨0, 5, none, some [1], []⟩, ⟨1, 5, none, some [3], []⟩]] ∧
      ∀ event ∈ history.1,
        ∀ event' ∈ history.1, ∀ r ∈ reportedAt event [97] 0, ∀ r' ∈ reportedAt event' [97] 0,
        r.offset = r'.offset → r = r' :=
  ⟨by decide +kernel, fun _ member _ member' _ reported _ reported' same =>
    @offset_names_record 5242880 _ _ _ _ _ _ _ _ (by decide)
      (run_execute .start (by decide +kernel)) member member'
      reported reported' same⟩

/-- Acknowledged offsets rise: an append never gets an offset that was given out before. -/
theorem produced_in_order (small : limit < 2 ^ 31)
    (run : Run Node.perform (SteadyTurn limit) Node.new past n) :
    past.Pairwise fun earlier later =>
      ∀ topic id, ∀ r ∈ producedAt earlier topic id, ∀ r' ∈ producedAt later topic id,
      r.offset < r'.offset := by
  obtain ⟨J, L, chronicle⟩ := chronicle_run small run
  exact chronicle.ordered

theorem produced_in_order_restarted :
    let start : Turn := ⟨.start .inOrder defaultStorage 0 0, []⟩
    let produce (faults : List Fault) : Turn :=
      ⟨.produce 5000000 [97] 0 [⟨none, some [1], [], 0⟩], faults⟩
    let history := execute Node.perform [] Node.new
      [start, ⟨.createTopic [97] 1 ⟨0, 0⟩, []⟩, produce [], produce [.die 9], start, produce []]
    (history.1.map fun event => (producedAt event [97] 0).map StoredRecord.offset) =
      [[], [], [0], [], [], [1]] ∧
      history.1.Pairwise fun earlier later => ∀ topic id, ∀ r ∈ producedAt earlier topic id,
        ∀ r' ∈ producedAt later topic id, r.offset < r'.offset :=
  ⟨by decide +kernel,
    @produced_in_order 5242880 _ _ (by decide) (run_execute .start (by decide +kernel))⟩

def Answer.response? : Answer → Option (FetchRequest × FetchResponse)
  | .fetched req response => some (req, response)
  | _ => none

/-- What the response to the `i`-th fetch says behind a history. The records, the earliest offset
    and the log end are read one after the other, so the earliest offset may lie beyond the records
    when retention came between. -/
structure Served (past : List NodeEvent) (i : Nat) (req : FetchRequest) (response : FetchResponse) :
    Prop where
  asked : ∃ event ∈ past, event.before.fetches.length = i ∧ event.after.fetches.length = i + 1 ∧
    event.input.call = .fetch req.topic req.partition req.offset req.maxBytes
  consecutive : Consecutive req.offset.toNat response.records
  inside : req.offset.toNat + response.records.length ≤ response.logEndOffset
  window : response.earliestOffset ≤ response.logEndOffset
  produced : ∀ r ∈ response.records, ∃ event ∈ past, ∃ now records,
    event.input.call = .produce now req.topic req.partition records ∧
    ∃ sent ∈ records, r = ⟨r.offset, unixMilli now, sent.key, sent.value, sent.headers⟩
  acknowledged :
    ∀ event ∈ past, ∀ r ∈ producedAt event req.topic req.partition.toNat,
      r.offset < response.logEndOffset
  ends : ∀ event ∈ past, ∀ w ∈ windowAt event req.topic req.partition.toNat,
    w.logEnd ≤ response.logEndOffset
  starts : ∀ event ∈ past, event.after.fetches.length ≤ i →
    ∀ w ∈ windowAt event req.topic req.partition.toNat, w.earliest ≤ response.earliestOffset

theorem Chronicle.answered {J : Bytes → Nat → Journal} {L : Bytes → Nat → List Batch} {i : Nat}
    {faults : List Fault} {req : FetchRequest} {response : FetchResponse}
    (chronicle : Chronicle limit past n J L)
    (answered : (n.perform ⟨.readOffset i, faults⟩).1.response? = some (req, response)) :
    n.fetches[i]? = some (some ⟨req, .readEarliest response.records response.earliestOffset⟩) ∧
      response.logEndOffset = (J req.topic req.partition.toNat).logEnd := by
  by_cases goes : ∃ sv f, n.server = some sv ∧ n.fetches[i]? = some (some f)
  swap
  · rw [perform_readOffset_nobody fun sv f running going => goes ⟨sv, f, running, going⟩]
      at answered
    cases answered
  obtain ⟨sv, f, running, going⟩ := goes
  rw [perform_readOffset running going, Node.readOffset] at answered
  cases resolved : sv.topicManager.getPartition f.req.topic f.req.partition.toNat with
  | error reason =>
    rw [resolved] at answered
    cases answered
  | ok s =>
    obtain ⟨_, tracks⟩ := chronicle.tracks running (getPartition_ok.mp resolved)
    obtain ⟨req', stage⟩ := f
    rw [resolved] at answered
    cases stage with
    | read stored => cases answered
    | readEarliest stored earliest =>
      cases answered
      exact ⟨going, (tracks.offsets rfl).1⟩

/-- A fetch delivers the records from its offset on without a gap, all of them sent by produce
    requests to the partition. Its log end lies behind everything acknowledged by then and behind
    every log end given before; its earliest offset is not below one given before it came. -/
theorem fetch_served {i : Nat} {faults : List Fault} {req : FetchRequest} {response : FetchResponse}
    (small : limit < 2 ^ 31) (run : Run Node.perform (SteadyTurn limit) Node.new past n)
    (answered : (n.perform ⟨.readOffset i, faults⟩).1.response? = some (req, response)) :
    Served past i req response := by
  obtain ⟨J, L, chronicle⟩ := chronicle_run small run
  obtain ⟨going, logEnd⟩ := chronicle.answered answered
  have holding := chronicle.fetching i _ going
  have listed : n.tree.Lists req.topic req.partition.toNat := holding.listed
  have logged := chronicle.streams.logEnd listed
  obtain ⟨low, starts⟩ := holding.earliest response.records response.earliestOffset rfl
  refine ⟨holding.asked, holding.consecutive, ?_, ?_, ?_, ?_, ?_, starts⟩
  · have fits := holding.records.length_le
    rw [List.length_drop, storedFrom_length] at fits
    have inside := holding.inside
    simp only [FetchStage.stored] at fits inside
    omega
  · rw [logEnd]
    exact low.trans (Nat.le_add_right _ _)
  · intro r member
    obtain ⟨b, present, sent, own, _, same⟩ :=
      mem_storedFrom (List.mem_of_mem_drop (holding.records.subset member))
    obtain ⟨event, happened, sends⟩ :=
      chronicle.origin req.topic req.partition.toNat listed b present
    refine ⟨event, happened, ?_⟩
    unfold Call.sends at sends
    split at sends
    · rename_i now name partition' records call
      obtain ⟨rfl, id, rfl⟩ := sends
      rw [← UInt32.toNat_inj.mp id] at call
      exact ⟨now, records, call, sent, own, same⟩
    · exact sends.elim
  · intro event happened r acked
    obtain ⟨_, found⟩ :=
      chronicle.told event happened req.topic req.partition.toNat r (List.mem_append_left _ acked)
    have inside := (List.getElem?_eq_some_iff.mp found).1
    rw [storedFrom_length, logged] at inside
    rw [logEnd]
    exact inside
  · intro event happened w seen
    rw [logEnd]
    exact (chronicle.windows event happened req.topic req.partition.toNat w seen).2.2

/-- Behind a restart one more batch is appended and retention takes the first one while the fetch is
    on its way. -/
theorem fetch_served_overtaken :
    let start : Turn := ⟨.start .inOrder ⟨"./data", 20, 60, 60, 10, "sync"⟩ 0 0, []⟩
    let produce (byte : UInt8) : Turn := ⟨.produce 5000000 [97] 0 [⟨none, some [byte], [], 0⟩], []⟩
    let history := execute Node.perform [] Node.new
      [start, ⟨.createTopic [97] 1 ⟨0, 0⟩, []⟩, produce 1, produce 2, ⟨.fetch [97] 0 0 1, []⟩,
        ⟨.readOffset 0, []⟩,
       ⟨.readOffset 0, []⟩, start, ⟨.fetch [97] 0 0 1, []⟩, produce 3,
       ⟨.retain 9000000 ⟨[97], 0, 0, 1⟩, []⟩, ⟨.readOffset 1, []⟩]
    (history.1.map fun event => windowAt event [97] 0) =
        [none, none, none, none, none, none, some ⟨0, 2⟩, none, none, none, none, none] ∧
      (history.2.perform ⟨.readOffset 1, []⟩).1.response? =
        some (⟨[97], 0, 0, 1⟩, ⟨[⟨0, 5, none, some [1], []⟩], 2, 3⟩) ∧
      Served history.1 1 ⟨[97], 0, 0, 1⟩ ⟨[⟨0, 5, none, some [1], []⟩], 2, 3⟩ :=
  ⟨by decide +kernel, by decide +kernel,
    @fetch_served 60 _ _ 1 [] _ _ (by decide) (run_execute .start (by decide +kernel))
    (by decide +kernel)⟩

/-- What was acknowledged or delivered once can be fetched again, until retention takes it. -/
theorem reported_fetchable {topic : Bytes} {partition : UInt32} {maxBytes : UInt32}
    {event : NodeEvent} {r : StoredRecord} {s : Store} (small : limit < 2 ^ 31)
    (run : Run Node.perform (SteadyTurn limit) Node.new past n)
    (stamped : ∀ event ∈ past, event.input.call.stamp ≠ some (-2 ^ 63))
    (running : n.server = some sv) (found : sv.topicManager.store? topic partition.toNat = some s)
    (healthy : s.closed = false ∧ s.writeFailed = false) (member : event ∈ past)
    (reported : r ∈ reportedAt event topic partition.toNat) (kept : s.earliestOffset ≤ r.offset)
    (positive : maxBytes ≠ 0) :
    ∃ response, (n.fetch topic partition (UInt64.ofNat r.offset) maxBytes []).1.response? =
        some (⟨topic, partition, UInt64.ofNat r.offset, maxBytes⟩, response) ∧
        response.records.head? = some r := by
  obtain ⟨J, L, chronicle⟩ := chronicle_run small run
  obtain ⟨listed, place⟩ := chronicle.told event member topic partition.toNat r reported
  obtain ⟨_, represents⟩ := chronicle.represents running found healthy.2
  have low := represents.earliestOffset ▸ kept
  have inside := (List.getElem?_eq_some_iff.mp place).1
  rw [storedFrom_length, chronicle.streams.logEnd listed] at inside
  have same : (UInt64.ofNat r.offset).toNat = r.offset :=
    UInt64.toNat_ofNat_of_lt (lt_trans inside represents.valid.logEnd_lt)
  have nonempty : maxBytes.toNat ≠ 0 := fun zero => positive (UInt32.toNat_inj.mp zero)
  have head : ((J topic partition.toNat).records.drop
      (r.offset - (J topic partition.toNat).floor)).head? = Option.some r := by
    rw [← chronicle.streams.records listed low, List.head?_drop]
    exact place
  obtain ⟨rest, split⟩ := List.head?_eq_some_iff.mp head
  rw [fetch_healthy running found represents healthy (chronicle.journal_readable stamped listed),
    fetchOf, if_neg nonempty, if_neg (by dsimp only; omega)]
  refine ⟨_, rfl, ?_⟩
  dsimp only
  rw [same, split]
  rfl

/-- A process that starts behind a death in a write gives the records of the one before. -/
theorem reported_fetchable_restarted :
    let start : Turn := ⟨.start .inOrder defaultStorage 0 0, []⟩
    let produce (byte : UInt8) (faults : List Fault) : Turn :=
      ⟨.produce 5000000 [97] 0 [⟨none, some [byte], [], 0⟩], faults⟩
    let history := execute Node.perform [] Node.new
      [start, ⟨.createTopic [97] 1 ⟨0, 0⟩, []⟩, produce 1 [], produce 2 [.die 9], start]
    ∃ response, (history.2.fetch [97] 0 (UInt64.ofNat 0) 10 []).1.response? =
      some (⟨[97], 0, UInt64.ofNat 0, 10⟩, response) ∧
      response.records.head? = some ⟨0, 5, none, some [1], []⟩ := by
  intro start produce history
  have facts : history.2.server.isSome ∧
      ∀ sv ∈ history.2.server, (sv.topicManager.store? [97] 0).isSome ∧
      ∀ s ∈ sv.topicManager.store? [97] 0,
        (s.closed = false ∧ s.writeFailed = false) ∧ s.earliestOffset ≤ 0 := by
    decide +kernel
  obtain ⟨sv, running⟩ := Option.isSome_iff_exists.mp facts.1
  obtain ⟨s, found⟩ := Option.isSome_iff_exists.mp (facts.2 sv running).1
  obtain ⟨healthy, kept⟩ := (facts.2 sv running).2 s found
  obtain ⟨event, member, reported⟩ : ∃ event ∈ history.1,
      ⟨0, 5, none, some [1], []⟩ ∈ reportedAt event [97] 0 := by
    decide +kernel
  exact @reported_fetchable 5242880 _ sv _ [97] 0 10 event _ s (by decide)
    (run_execute .start (by decide +kernel)) (by decide +kernel) running found healthy member
    reported kept (by decide)

end Promises

end MessageBroker.Broker
