import MessageBroker.Broker.Handler
import MessageBroker.Storage.GreedyReads
import MessageBroker.Storage.HealthyDisk
import MessageBroker.Topics.TreeRules

namespace MessageBroker.Broker

open Faulty Program Storage Topics Runs Proto
open MessageBroker.Configuration (StorageConfig loadStorage defaultStorage)

/-! ## The handlers as calls on one partition -/

section Handlers

variable {m : Manager} {tree : Tree} {topic : Bytes} {id offset maxBytes : Nat}
  {faults : List Fault} {s : Store}

theorem readRecords_reads (positive : maxBytes ≠ 0) (found : m.store? topic id = some s) :
    readRecords topic id offset maxBytes ⟨m, tree, faults⟩ =
      match read offset maxBytes ⟨s, tree.partitions topic id, faults⟩ with
      | (.ok stored, after) => (.ok stored,
          ⟨m.setStore topic id after.memory, tree.setPartition topic id after.disk, after.faults⟩)
      | (.error reason, after) => (.error (readError offset (.storage reason)),
          ⟨m.setStore topic id after.memory, tree.setPartition topic id after.disk, after.faults⟩)
      | (.died, after) => (.died,
          ⟨m.setStore topic id after.memory, tree.setPartition topic id after.disk,
            after.faults⟩) := by
  have resolved := getPartition_ok.mpr found
  rcases ran : read offset maxBytes ⟨s, tree.partitions topic id, faults⟩ with ⟨exit, after⟩
  cases exit <;>
    simp [readRecords, positive, Bind.bind, Program.bind, memory, resolved, mapError, onStore,
      found, focus, ran]

theorem fetch_reads (positive : maxBytes ≠ 0) (found : m.store? topic id = some s) :
    fetch topic id offset maxBytes ⟨m, tree, faults⟩ =
      match read offset maxBytes ⟨s, tree.partitions topic id, faults⟩ with
      | (.ok stored, after) =>
        (.ok ⟨stored, after.memory.earliestOffset, after.memory.logEndOffset⟩,
          ⟨m.setStore topic id after.memory, tree.setPartition topic id after.disk, after.faults⟩)
      | (.error reason, after) => (.error (readError offset (.storage reason)),
          ⟨m.setStore topic id after.memory, tree.setPartition topic id after.disk, after.faults⟩)
      | (.died, after) => (.died,
          ⟨m.setStore topic id after.memory, tree.setPartition topic id after.disk,
            after.faults⟩) := by
  have again : ∀ s', (m.setStore topic id s').getPartition topic id = .ok s' :=
    fun s' => getPartition_ok.mpr (store?_setStore_self found)
  simp only [fetch, Bind.bind, Program.bind, readRecords_reads positive found]
  rcases read offset maxBytes ⟨s, tree.partitions topic id, faults⟩ with ⟨exit, after⟩
  cases exit <;> simp [memory, again, Pure.pure]

theorem produce_appends {cfg : StorageConfig} {now : Instant} {records : List Record}
    (nonempty : records ≠ []) (found : m.store? topic id = Option.some s)
    (checked : checkRecords cfg.maxRecordBytes 0 records = .ok ()) :
    produce cfg now topic id records ⟨m, tree, faults⟩ =
      match append now records ⟨s, tree.partitions topic id, faults⟩ with
      | (.ok (base, last), after) => (.ok ⟨base, last, records.length % 2 ^ 32⟩,
          ⟨m.setStore topic id after.memory, tree.setPartition topic id after.disk, after.faults⟩)
      | (.error reason, after) => (.error (appendError (.storage reason)),
          ⟨m.setStore topic id after.memory, tree.setPartition topic id after.disk, after.faults⟩)
      | (.died, after) => (.died,
          ⟨m.setStore topic id after.memory, tree.setPartition topic id after.disk,
            after.faults⟩) := by
  have resolved := getPartition_ok.mpr found
  rcases ran : append now records ⟨s, tree.partitions topic id, faults⟩ with ⟨exit, after⟩
  cases exit <;>
    simp [produce, nonempty, Bind.bind, Program.bind, memory, resolved, checked, mapError, onStore,
      found, focus, ran, Pure.pure]

theorem fetch_found {response : FetchResponse} {after : World Manager Tree}
    (fetched : fetch topic id offset maxBytes ⟨m, tree, faults⟩ = (.ok response, after)) :
    ∃ s s' d', m.store? topic id = some s ∧ 0 < maxBytes ∧
      Partition.perform ⟨some s, tree.partitions topic id⟩ ⟨.read offset maxBytes, faults⟩ =
        (.found response.records, ⟨some s', d'⟩) ∧
      response.earliestOffset = s'.earliestOffset ∧ response.logEndOffset = s'.logEndOffset := by
  by_cases positive : maxBytes = 0
  · simp [fetch, readRecords, positive, Bind.bind, Program.bind, Program.throw] at fetched
  cases found : m.store? topic id with
  | none =>
    cases resolved : m.getPartition topic id with
    | ok s => rw [getPartition_ok.mp resolved] at found; cases found
    | error reason =>
      simp [fetch, readRecords, positive, Bind.bind, Program.bind, memory, resolved,
        Program.throw] at fetched
  | some s =>
    rw [fetch_reads positive found] at fetched
    show ∃ s₀ s' d', some s = some s₀ ∧ _
    rcases ran : read offset maxBytes ⟨s, tree.partitions topic id, faults⟩ with ⟨exit, inner⟩
    rw [ran] at fetched
    cases exit with
    | ok stored =>
      cases fetched
      refine ⟨s, inner.memory, inner.disk, rfl, Nat.pos_of_ne_zero positive, ?_, rfl, rfl⟩
      show settle .found (read offset maxBytes ⟨s, tree.partitions topic id, faults⟩) = _
      rw [ran]
      rfl
    | error reason => cases fetched
    | died => cases fetched

theorem fetch_serves {p : Partition} {records : List StoredRecord} (positive : maxBytes ≠ 0)
    (held : m.store? topic id = p.store) (stored : tree.partitions topic id = p.directory)
    (ran : (p.perform ⟨.read offset maxBytes, faults⟩).1 = .found records) :
    ∃ response after, fetch topic id offset maxBytes ⟨m, tree, faults⟩ = (.ok response, after) ∧
      response.records = records := by
  obtain ⟨store, d⟩ := p
  cases store with
  | none => cases ran
  | some s =>
    rw [fetch_reads positive held, stored]
    replace ran : (settle .found (read offset maxBytes ⟨s, d, faults⟩)).1 = .found records := ran
    dsimp only
    rcases inner : read offset maxBytes ⟨s, d, faults⟩ with ⟨exit, world⟩
    rw [inner] at ran
    cases exit with
    | ok stored => exact ⟨_, _, rfl, Outcome.found.inj ran⟩
    | error reason => cases ran
    | died => cases ran

end Handlers

/-! ## The size of a response -/

/-- The record's share of a full response, which has 65514 bytes beside its two offsets for what
    `recordSize` does not count. No offset takes more bytes than the end of the log. -/
def Slim (maxBatchBytes : Int) (logEnd : Nat) (now : Instant) (r : Record) : Prop :=
  messageField (storedRecordSize ⟨logEnd, unixMilli now, r.key, r.value, r.headers⟩) *
    maxBatchBytes ≤
    (maxBatchBytes + 65514) * (recordPayloadSize r + 16)

instance (maxBatchBytes : Int) (logEnd : Nat) (now : Instant) (r : Record) :
    Decidable (Slim maxBatchBytes logEnd now r) :=
  inferInstanceAs (Decidable (_ ≤ _))

def SlimCall (maxBatchBytes : Int) (logEnd : Nat) : Action → Prop
  | .append now records => ∀ r ∈ records, Slim maxBatchBytes logEnd now r
  | _ => True

instance (maxBatchBytes : Int) (logEnd : Nat) : DecidablePred (SlimCall maxBatchBytes logEnd)
  | .append _ _ => inferInstanceAs (Decidable (∀ r ∈ _, _))
  | .openStore _ | .read _ _ | .applyRetention _ _ _ | .closeStore =>
    inferInstanceAs (Decidable True)

section Sizes

theorem storedRecordSize_mono {r r' : StoredRecord} (before : r.offset ≤ r'.offset)
    (time : r'.timestamp = r.timestamp) (key : r'.key = r.key) (value : r'.value = r.value)
    (headers : r'.headers = r.headers) :
    messageField (storedRecordSize r) ≤ messageField (storedRecordSize r') := by
  have place := scalarField_mono before
  refine messageField_mono ?_
  unfold storedRecordSize
  rw [time, key, value, headers]
  omega

theorem records_wire {records : List StoredRecord} {maxBatchBytes : Int}
    (slim : ∀ r ∈ records,
      messageField (storedRecordSize r) * maxBatchBytes ≤
        (maxBatchBytes + 65514) * (recordSize r : Int)) :
    recordsSize records * maxBatchBytes ≤ (maxBatchBytes + 65514) * (bytesOf records : Int) := by
  induction records with
  | nil => simp [recordsSize, bytesOf]
  | cons r rest ih =>
    have own := slim r List.mem_cons_self
    have others := ih fun r' member => slim r' (List.mem_cons_of_mem _ member)
    rw [recordsSize, List.map_cons, List.sum_cons, ← recordsSize, bytesOf_cons]
    push_cast
    rw [add_mul, mul_add]
    exact add_le_add own others

theorem wireSize_le {cfg : StorageConfig} {response : FetchResponse}
    (positive : 0 < cfg.maxBatchBytes) (earliest : response.earliestOffset < 2 ^ 64)
    (logEnd : response.logEndOffset < 2 ^ 64)
    (within : (bytesOf response.records : Int) ≤ cfg.maxBatchBytes)
    (slim : ∀ r ∈ response.records, messageField (storedRecordSize r) * cfg.maxBatchBytes ≤
      (cfg.maxBatchBytes + 65514) * (recordSize r : Int)) :
    (response.wireSize : Int) ≤ maxMsgSize cfg := by
  have first := scalarField_le earliest
  have last := scalarField_le logEnd
  have size : (recordsSize response.records : Int) ≤ cfg.maxBatchBytes + 65514 := by
    refine Int.le_of_mul_le_mul_right ((records_wire slim).trans ?_) positive
    exact Int.mul_le_mul_of_nonneg_left within (by omega)
  unfold FetchResponse.wireSize maxMsgSize
  omega

end Sizes

/-! ## What a log holds -/

section Log

variable {J : Journal} {r : StoredRecord}

theorem mem_storedFrom {base : Nat} {batches : List Batch} (member : r ∈ storedFrom base batches) :
    ∃ b ∈ batches, ∃ source ∈ b.records, r.offset < base + span batches ∧
      r = ⟨r.offset, b.time, source.key, source.value, source.headers⟩ := by
  induction batches generalizing base with
  | nil => cases member
  | cons b rest ih =>
    rcases List.mem_append.mp member with here | later
    · simp only [Batch.stored, stampRecords, List.mem_mapIdx] at here
      obtain ⟨i, inside, rfl⟩ := here
      refine ⟨b, List.mem_cons_self, _, List.getElem_mem inside, ?_, rfl⟩
      have place := uint64_le (base + i)
      rw [span_cons]
      push_cast at place
      dsimp only
      omega
    · obtain ⟨b', inside, source, present, place, made⟩ := ih later
      refine ⟨b', List.mem_cons_of_mem _ inside, source, present, ?_, made⟩
      rw [span_cons]
      omega

theorem batch_size {b : Batch} (nonempty : b.records ≠ []) :
    b.size = 33 + (b.records.map
      fun r => minimumRecordSize + optionalLength r.key + optionalLength r.value +
      (r.headers.map fun h => 8 + h.key.length + h.value.length).sum).sum := by
  have stored : b.stored 0 ≠ [] := by
    rw [← List.length_pos_iff, Batch.stored_length]
    exact List.length_pos_iff.mpr nonempty
  obtain ⟨bytes, encoded, length⟩ := encodeBatch_length stored
  rw [Batch.size, Batch.bytes, encoded, Option.getD_some, length, Batch.stored, stamped_payload]
  rfl

theorem greedy_all {maxBytes : Int} {records : List StoredRecord}
    (fits : (bytesOf records : Int) ≤ maxBytes) :
    greedy maxBytes records = records := by
  obtain ⟨k, same, _, most⟩ := greedy_greatest maxBytes records
  have all : records.length ≤ k := most ⟨le_refl _, Or.inr (by rw [List.take_length]; exact fits)⟩
  rw [same, List.take_of_length_le all]

theorem greedy_mem {maxBytes : Int} {records : List StoredRecord}
    (member : r ∈ greedy maxBytes records) : r ∈ records := by
  obtain ⟨k, same, _⟩ := greedy_greatest maxBytes records
  rw [same] at member
  exact List.mem_of_mem_take member

theorem greedy_within {maxBytes : Int} {records : List StoredRecord}
    (several : 2 ≤ (greedy maxBytes records).length) :
    (bytesOf (greedy maxBytes records) : Int) ≤ maxBytes := by
  obtain ⟨k, same, ⟨_, affordable⟩, _⟩ := greedy_greatest maxBytes records
  rw [same] at several ⊢
  rcases affordable with one | fits
  · have short := List.length_take_le k records
    omega
  · exact fits

end Log

section Deliverable

variable {cfg : StorageConfig} {config : Config} {past : List Event} {p : Partition} {m : Manager}
  {tree : Tree} {topic : Bytes} {id offset maxBytes : Nat} {faults : List Fault}
  {response : FetchResponse} {after : World Manager Tree}

theorem slim_stored {J : Journal} {log : List Batch} {alive : Bool} {maxBatchBytes : Int}
    {logEnd : Nat} {r : StoredRecord} (positive : 0 < maxBatchBytes)
    (accounts : Accounts past p J log alive) (top : J.logEnd ≤ logEnd)
    (slim : ∀ event ∈ past, SlimCall maxBatchBytes logEnd event.input.action)
    (member : r ∈ J.records) :
    messageField (storedRecordSize r) * maxBatchBytes ≤
      (maxBatchBytes + 65514) * (recordSize r : Int) := by
  obtain ⟨gone, batches, _⟩ := accounts.batches
  obtain ⟨b, inside, source, present, place, made⟩ := mem_storedFrom member
  have logged : b ∈ log := by
    rw [batches]
    exact List.mem_append_right _ inside
  obtain ⟨event, earlier, now, records, action, rfl⟩ :=
    survivors_appended accounts.survivors logged
  have call := slim event earlier
  rw [action] at call
  have own := call source present
  rw [Slim, recordPayloadSize] at own
  rw [made]
  refine le_trans (Int.mul_le_mul_of_nonneg_right ?_ positive.le) own
  exact_mod_cast @storedRecordSize_mono ⟨r.offset, unixMilli now, source.key, source.value,
    source.headers⟩ ⟨logEnd, _, _, _, _⟩ (le_of_lt (lt_of_lt_of_le place top)) rfl rfl rfl rfl

/-- Where every record keeps to its share, a response of two records or more can be sent. -/
theorem fetch_deliverable (loaded : loadStorage cfg = .ok config)
    (small : cfg.maxBatchBytes < 2 ^ 31)
    (run : Run Partition.perform (CrashCall config) Partition.new past p)
    {logEnd : Nat} (below : ∀ s ∈ p.store, s.logEndOffset ≤ logEnd)
    (slim : ∀ event ∈ past, SlimCall cfg.maxBatchBytes logEnd event.input.action)
    (held : m.store? topic id = p.store) (stored : tree.partitions topic id = p.directory)
    (budget : (maxBytes : Int) ≤ cfg.maxBatchBytes)
    (fetched : fetch topic id offset maxBytes ⟨m, tree, faults⟩ = (.ok response, after))
    (several : 2 ≤ response.records.length) : (response.wireSize : Int) ≤ maxMsgSize cfg := by
  obtain ⟨_, limit, positive, recordLimit, _, _, _⟩ := Configuration.loadStorage_ok loaded
  rw [← limit] at small
  obtain ⟨s, s', d', opened, _, read, earliest, final⟩ := fetch_found fetched
  have here : p = ⟨some s, tree.partitions topic id⟩ := by
    rw [stored, ← opened, held]
  obtain ⟨J, log, alive, tracks, accounts⟩ : CrashState config past p :=
    run.invariant (crashState_new config) fun _ _ _ state call => state.follows small call
  have follows :=
    @Tracks.perform _ _ _ _ _ ⟨.read offset maxBytes, faults⟩ tracks (fun _ _ _ torn => torn)
      trivial (fun _ _ => trivial) trivial
  rw [here, read] at follows
  obtain ⟨J', moves, tracks', _⟩ := follows
  generalize found : Outcome.found response.records = outcome at moves
  cases moves with
  | found =>
    have same := Outcome.found.inj found
    have room := tracks'.holds.valid.logEnd_lt
    obtain ⟨ends, starts⟩ := tracks'.offsets rfl
    have low : J.floor ≤ J.logEnd := Nat.le_add_right _ _
    have top : J.logEnd ≤ logEnd := by
      rw [← (tracks.offsets (held.symm.trans opened)).1]
      exact below s (held.symm.trans opened)
    have within : (bytesOf response.records : Int) ≤ maxBytes := by
      rw [same] at several ⊢
      exact greedy_within several
    have positive : 0 < cfg.maxBatchBytes := lt_of_lt_of_le positive recordLimit
    refine wireSize_le positive (by omega) (by omega) (within.trans budget) fun r member => ?_
    rw [same] at member
    exact slim_stored positive accounts top slim (List.mem_of_mem_drop (greedy_mem member))
  | _ => cases found

/-- Two batches behind a restart, in a response of 40 bytes. -/
theorem fetch_deliverable_small :
    let cfg : StorageConfig := ⟨"./data", 100, 1000, 1000, 10, "sync"⟩
    let config : Config := ⟨1000, 1000, 10, .sync⟩
    let history := execute Partition.perform [] Partition.new
      [⟨.openStore config, []⟩, ⟨.append 5000000 [⟨none, some [97], [⟨[98], []⟩], 0⟩], []⟩,
        ⟨.openStore config, []⟩,
       ⟨.append 6000000 [⟨none, some [99], [], 0⟩], []⟩]
    let m : Manager := ⟨AList.singleton [97] ⟨[97], history.2.store.toList, ⟨0, 0⟩⟩, config, 0, 0⟩
    let tree := Tree.empty.setPartition [97] 0 history.2.directory
    ∃ response after, fetch [97] 0 0 1000 ⟨m, tree, []⟩ = (.ok response, after) ∧
      response.records.length = 2 ∧
      (response.wireSize : Int) ≤ maxMsgSize cfg := by
  intro cfg config history m tree
  have run : Run Partition.perform (CrashCall config) Partition.new history.1 history.2 :=
    run_execute .start (by decide +kernel)
  have slim : ∀ event ∈ history.1, SlimCall cfg.maxBatchBytes 2 event.input.action := by
    decide +kernel
  have below : ∀ s ∈ history.2.store, s.logEndOffset ≤ 2 := by decide +kernel
  have answer : (history.2.perform ⟨.read 0 1000, []⟩).1 =
      .found [⟨0, 5, none, some [97], [⟨[98], []⟩]⟩, ⟨1, 6, none, some [99], []⟩] := by
        decide +kernel
  have holds : ∀ store : Option Store,
      Manager.store? ⟨AList.singleton [97] ⟨[97], store.toList, ⟨0, 0⟩⟩, config, 0, 0⟩ [97] 0 =
        store := by
    intro store
    cases store <;> rfl
  have held : m.store? [97] 0 = history.2.store := holds history.2.store
  have stored : tree.partitions [97] 0 = history.2.directory := partitions_setPartition_self
  obtain ⟨response, after, fetched, records⟩ :=
    @fetch_serves m tree [97] 0 0 1000 [] _ _ (by decide) held stored answer
  have two : response.records.length = 2 := by rw [records]; rfl
  exact ⟨response, after, fetched, two,
    fetch_deliverable (by decide +kernel) (by decide) run below slim held stored (by decide) fetched
      (by omega)⟩

end Deliverable

/-! ## Headers that nothing counts -/

section Bare

variable {config : Config} {h count : Nat}

/-- A record with nothing in it but headers with nothing in them. -/
def bareRecord (headers : Nat) : Record := ⟨none, none, List.replicate headers ⟨[], []⟩, 0⟩

theorem bare_payload (h : Nat) : recordPayloadSize (bareRecord h) = 0 := by
  simp [recordPayloadSize, bareRecord, optionalLength]

theorem bare_size (time : Int) (h : Nat) : Batch.size ⟨time, [bareRecord h]⟩ = 57 + 8 * h := by
  rw [batch_size (by simp)]
  simp [bareRecord, optionalLength, minimumRecordSize]
  omega

/-- `recordSize` counts sixteen bytes for a bare record, and its response two for every header. -/
theorem bare_stored {r : StoredRecord} {time : Int}
    (member : r ∈ storedFrom 0 (List.replicate count ⟨time, [bareRecord h]⟩)) :
    recordSize r = 16 ∧ 2 * h ≤ messageField (storedRecordSize r) := by
  obtain ⟨b, inside, source, present, _, made⟩ := mem_storedFrom member
  rw [List.eq_of_mem_replicate inside] at present
  rw [List.mem_singleton.mp present] at made
  have headers : r.headers = (bareRecord h).headers := by rw [made]
  refine ⟨?_, ?_⟩
  · rw [made]
    simp [recordSize, bareRecord, optionalLength]
  · have whole := le_messageField (storedRecordSize r)
    have empty : messageField (headerSize ⟨[], []⟩) = 2 := by decide +kernel
    have sum : (r.headers.map fun h => messageField (headerSize h)).sum = 2 * h := by
      rw [headers, bareRecord, List.map_replicate, List.sum_replicate_nat, empty]
      omega
    unfold storedRecordSize at whole ⊢
    omega

theorem bare_undeliverable {cfg : StorageConfig} (limit : config.maxBatchBytes = cfg.maxBatchBytes)
    (small : cfg.maxBatchBytes < 2 ^ 31) (fits : ((57 + 8 * h : Nat) : Int) ≤ cfg.maxBatchBytes)
    (room : ((count * (57 + 8 * h) : Nat) : Int) ≤ config.segmentMaxBytes)
    (few : 16 * count < 2 ^ 32) (budget : ((16 * count : Nat) : Int) ≤ cfg.maxBatchBytes)
    (large : cfg.maxBatchBytes + 65536 < (count * (2 * h) : Nat)) :
    ∃ past s d, Run Partition.perform (CrashCall config) Partition.new past ⟨some s, d⟩ ∧
      past.map Event.input =
        ⟨.openStore config, []⟩ :: List.replicate count ⟨.append 5000000 [bareRecord h], []⟩ ∧
      ∀ (m : Manager) (tree : Tree) topic id,
        m.store? topic id = some s → tree.partitions topic id = d →
        ∃ response after,
          fetch topic id 0 cfg.maxBatchBytes.toNat ⟨m, tree, []⟩ = (.ok response, after) ∧
          response.records.length = count ∧ maxMsgSize cfg < response.wireSize := by
  have size := bare_size 5 h
  have stamp : (5 : Int) = unixMilli 5000000 := by decide
  obtain ⟨past, s, d, J, run, inputs, filled⟩ :=
    @filled_run config 5000000 ⟨5, [bareRecord h]⟩ stamp (by simp)
    (by rw [size, limit]; exact fits) (by rw [limit]; exact small) count
    (by show count * 1 ≤ _; omega) (by rw [size]; exact room)
  have records : J.records = storedFrom 0 (List.replicate count ⟨5, [bareRecord h]⟩) := by
    rw [Journal.records, filled.floor, filled.batches]
  have length : J.records.length = count := by
    rw [records, storedFrom_length]
    simp [span]
  have bytes : bytesOf J.records = count * 16 := by
    have same : J.records.map recordSize = J.records.map fun _ => 16 :=
      List.map_congr_left fun r member => (bare_stored (records ▸ member)).1
    rw [bytesOf, same, List.map_const', List.sum_replicate_nat, length]
  have wire : count * (2 * h) ≤ recordsSize J.records := by
    have each := List.card_nsmul_le_sum (J.records.map fun r => messageField (storedRecordSize r))
      (2 * h) (by
      intro size made
      obtain ⟨r, member, rfl⟩ := List.mem_map.mp made
      exact (bare_stored (records ▸ member)).2)
    rwa [List.length_map, length] at each
  have positive : 0 < cfg.maxBatchBytes := by omega
  have readable : ∀ b ∈ J.batches, b.Readable := by
    rw [filled.batches]
    intro b member
    rw [List.eq_of_mem_replicate member]
    exact (by decide : (5 : Int) ≠ -2 ^ 63)
  have found := congrArg Prod.fst
    (@Represents.read_gives J s d _ 0 cfg.maxBatchBytes filled.represents
    ⟨filled.closed, filled.running⟩ readable positive (by rw [filled.floor]) (Nat.zero_le _))
  rw [Nat.zero_sub, List.drop_zero, greedy_all (by rw [bytes]; omega)] at found
  refine ⟨past, s, d, run.mono ?_, inputs, ?_⟩
  · rintro _ _ ⟨action, _⟩ ⟨_, call⟩
    cases action <;> exact call
  · intro m tree topic id held stored
    rw [← Int.toNat_of_nonneg (le_of_lt positive)] at found
    obtain ⟨response, after, fetched, same⟩ :=
      @fetch_serves m tree topic id 0 _ [] ⟨some s, d⟩ _ (by omega) held stored found
    refine ⟨response, after, fetched, by rw [same, length], ?_⟩
    unfold FetchResponse.wireSize maxMsgSize
    rw [same]
    omega

/-- Under the default limits five batches of a record with 655352 bare headers are taken, and a
    fetch of all five makes a response that is never sent. -/
theorem fetch_undeliverable :
    loadStorage defaultStorage = .ok ⟨134217728, 5242880, 4096, .sync⟩ ∧
      checkRecords defaultStorage.maxRecordBytes 0 [bareRecord 655352] = .ok () ∧
      ∃ past s d, Run Partition.perform (CrashCall ⟨134217728, 5242880, 4096, .sync⟩) Partition.new
        past ⟨some s, d⟩ ∧
        past.map Event.input = ⟨.openStore ⟨134217728, 5242880, 4096, .sync⟩, []⟩ ::
          List.replicate 5 ⟨.append 5000000 [bareRecord 655352], []⟩ ∧
        ∀ (m : Manager) (tree : Tree) topic id,
          m.store? topic id = some s → tree.partitions topic id = d →
          ∃ response after, fetch topic id 0 5242880 ⟨m, tree, []⟩ = (.ok response, after) ∧
            response.records.length = 5 ∧ maxMsgSize defaultStorage < response.wireSize := by
  refine ⟨Configuration.loadStorage_default, ?_, ?_⟩
  · rw [checkRecords, bare_payload]
    rfl
  · exact @bare_undeliverable ⟨134217728, 5242880, 4096, .sync⟩ 655352 5 defaultStorage rfl
      (by decide) (by decide) (by decide) (by decide) (by decide) (by decide)

end Bare

end MessageBroker.Broker
