import MessageBroker.Broker.Committed
import MessageBroker.Topics.Streams

namespace MessageBroker.Broker

open Faulty Program Storage Topics Runs
open MessageBroker.Configuration (StorageConfig)

/-! ## What the calls and the answers say -/

def Call.sends (call : Call) (topic : Bytes) (id : Nat) (b : Batch) : Prop :=
  match call with
  | .produce now name partition records =>
    topic = name ∧ id = partition.toNat ∧ b = ⟨unixMilli now, records⟩
  | _ => False

def producedBy (call : Call) (answer : Answer) (topic : Bytes) (id : Nat) : List StoredRecord :=
  match call, answer with
  | .produce now name partition records, .produced response =>
    if topic = name ∧ id = partition.toNat then
      stampRecords response.baseOffset (unixMilli now) records
    else []
  | _, _ => []

def fetchedBy (call : Call) (answer : Answer) (topic : Bytes) (id : Nat) : List StoredRecord :=
  match call, answer with
  | .readOffset _, .fetched req response =>
    if topic = req.topic ∧ id = req.partition.toNat then response.records else []
  | _, _ => []

structure Window where
  earliest : Nat
  logEnd : Nat
  deriving DecidableEq, Repr

def windowBy (call : Call) (answer : Answer) (topic : Bytes) (id : Nat) : Option Window :=
  match call, answer with
  | .readOffset _, .fetched req response =>
    if topic = req.topic ∧ id = req.partition.toNat then
      some ⟨response.earliestOffset, response.logEndOffset⟩
    else none
  | _, _ => none

def rangeBy (call : Call) (answer : Answer) (topic : Bytes) (id : Nat) : Option (Nat × Nat) :=
  match call, answer with
  | .produce _ name partition _, .produced response =>
    if topic = name ∧ id = partition.toNat then some (response.baseOffset, response.lastOffset)
    else none
  | _, _ => none

def reportedBy (call : Call) (answer : Answer) (topic : Bytes) (id : Nat) : List StoredRecord :=
  producedBy call answer topic id ++ fetchedBy call answer topic id

def producedAt (event : NodeEvent) : Bytes → Nat → List StoredRecord :=
  producedBy event.input.call event.outcome

def reportedAt (event : NodeEvent) : Bytes → Nat → List StoredRecord :=
  reportedBy event.input.call event.outcome

def windowAt (event : NodeEvent) : Bytes → Nat → Option Window :=
  windowBy event.input.call event.outcome

/-- The answer reports records that stand in the streams at their offsets, and acknowledges them
    behind everything that was there before. -/
structure Tells (call : Call) (answer : Answer) (tree' : Tree) (L : Bytes → Nat → List Batch)
    (J' : Bytes → Nat → Journal) (L' : Bytes → Nat → List Batch) : Prop where
  reported : ∀ topic id, ∀ r ∈ reportedBy call answer topic id,
    tree'.Lists topic id ∧ (storedFrom 0 (L' topic id))[r.offset]? = some r
  behind : ∀ topic id, ∀ r ∈ producedBy call answer topic id, span (L topic id) ≤ r.offset
  window : ∀ topic id, ∀ w ∈ windowBy call answer topic id,
    tree'.Lists topic id ∧ w.earliest ≤ (J' topic id).floor ∧ w.logEnd = (J' topic id).logEnd
  range : ∀ topic id base last, rangeBy call answer topic id = some (base, last) →
    tree'.Lists topic id ∧ base = span (L topic id) ∧ base ≤ last ∧ last + 1 = span (L' topic id)

structure Reads (J : Journal) (batches : List Batch) (offset : Nat) (stored : List StoredRecord) :
    Prop where
  records : stored <+: (storedFrom 0 batches).drop offset
  consecutive : Consecutive offset stored
  inside : J.floor ≤ offset ∧ offset ≤ J.logEnd

section Calls

variable {limit : Int} {J J' : Bytes → Nat → Journal} {L L' : Bytes → Nat → List Batch}
  {m : Manager} {tree : Tree} {h : Host}

def Silent (call : Call) (answer : Answer) : Prop :=
  ∀ topic id, reportedBy call answer topic id = [] ∧
    windowBy call answer topic id = none ∧ rangeBy call answer topic id = none

theorem tells_nothing {call : Call} {answer : Answer} (silent : Silent call answer) :
    Tells call answer tree L J' L' := by
  refine ⟨fun topic id r member => ?_, fun topic id r member => ?_, fun topic id w member => ?_,
    fun topic id base last found => ?_⟩
  · rw [(silent topic id).1] at member
    cases member
  · have nothing := (silent topic id).1
    rw [reportedBy, List.append_eq_nil_iff] at nothing
    rw [nothing.1] at member
    cases member
  · rw [(silent topic id).2.1] at member
    cases member
  · rw [(silent topic id).2.2] at found
    cases found

/-- The host that a call leaves and what its answer says. -/
def Continues (limit : Int) (tree : Tree) (J : Bytes → Nat → Journal) (L : Bytes → Nat → List Batch)
    (call : Call) (answer : Answer) (h : Host) : Prop :=
  ∃ J' L', Evolves limit tree J L call.sends J' L' h ∧ Tells call answer h.tree L J' L'

theorem continues_silent {call : Call} {answer : Answer} {sent : Bytes → Nat → Batch → Prop}
    (evolves : ∃ J' L', Evolves limit tree J L sent J' L' h)
    (allows : ∀ name id b, sent name id b → call.sends name id b)
    (silent : Silent call answer) : Continues limit tree J L call answer h := by
  obtain ⟨J', L', evolves⟩ := evolves
  exact ⟨J', L', evolves.mono allows, tells_nothing silent⟩

section Produce

variable {cfg : StorageConfig} {now : Instant} {topic : Bytes} {partition : UInt32}
  {records : List Record}

theorem append_brings {outcome : Outcome} {b : Batch}
    (brought : writtenOf (.append now records) outcome = some b ∨
      pendingOf (.append now records) outcome = some b) :
    (Call.produce now topic partition records).sends topic partition.toNat b := by
  rcases brought with written | pending
  · obtain ⟨_, _, same, rfl⟩ := writtenOf_append written
    cases same
    exact ⟨rfl, rfl, rfl⟩
  · obtain ⟨_, _, same, rfl⟩ := pendingOf_append pending
    cases same
    exact ⟨rfl, rfl, rfl⟩

theorem produced_tells {s : Store} {base last count : Nat}
    (carries : Carries limit J tree topic partition.toNat s (.append now records)
      (.appended base last) h)
    (streams : Streams tree J L) (listed : tree.Lists topic partition.toNat) :
    Continues limit tree J L (.produce now topic partition records) (.produced ⟨base, last, count⟩)
      h := by
  obtain ⟨J', added, adds, moves, evolves⟩ :=
    carries.evolves streams fun b brought => append_brings brought
  have logged := streams.logEnd listed
  have valid : J'.Valid := by
    have tracks := evolves.rooted.tracks topic partition.toNat
    rw [movedAt_self] at tracks
    exact tracks.holds.valid
  refine ⟨_, _, evolves, ?_, ?_, (fun _ _ _ nothing => by cases nothing), ?_⟩
  · intro other id r member
    simp only [reportedBy, producedBy, fetchedBy, List.append_nil] at member
    split_ifs at member with own
    · obtain ⟨rfl, rfl⟩ := own
      refine ⟨evolves.listed _ _ listed, ?_⟩
      rw [loggedAt_self]
      exact @records_step anything [] ⟨_, ⟨.append now records, []⟩, .appended base last,
        ⟨none, Directory.empty⟩⟩ _ J' _ added
        logged (by simp [acknowledged]) moves valid
        (adds.imp (fun same => same) fun pending => ⟨⟨.fail 0, trivial⟩, pending⟩)
        r (by simpa [acknowledged, acknowledgedBy] using member)
    · cases member
  · intro other id r member
    simp only [producedBy] at member
    split_ifs at member with own
    · obtain ⟨rfl, rfl⟩ := own
      cases moves with
      | appended _ _ _ _ =>
        obtain ⟨i, found⟩ := List.mem_iff_getElem?.mp member
        have placed : Batch.Valid ⟨unixMilli now, records⟩ (J other partition.toNat).logEnd := by
          have all := valid.validFrom
          rw [Journal.push_batches, Journal.push_floor, validFrom_append] at all
          exact all.2.1
        have place := Batch.stored_consecutive placed i r found
        rw [logged, place]
        exact Nat.le_add_right _ _
    · cases member
  · intro other id first final found
    simp only [rangeBy] at found
    split_ifs at found with own
    obtain ⟨rfl, rfl⟩ := own
    cases found
    cases moves with
    | appended _ _ nonempty _ =>
      have count := List.length_pos_iff.mpr nonempty
      have batch : added = [⟨unixMilli now, records⟩] := by
        rcases adds with rfl | ⟨_, nothing, _⟩
        · rfl
        · cases nothing
      have one : span [⟨unixMilli now, records⟩] = records.length := by simp [span]
      rw [loggedAt_self, batch, span_append, one, logged]
      exact ⟨evolves.listed _ _ listed, rfl, by omega, by omega⟩

theorem produce_continues (rooted : Rooted limit J ⟨some m, tree⟩) (streams : Streams tree J L)
    (small : limit < 2 ^ 31)
    (room : ∀ s ∈ m.store? topic partition.toNat, s.logEndOffset + records.length < 2 ^ 64) :
    Meets anything (Broker.produce cfg now topic partition.toNat records) m tree
      ⟨fun response m' tree' =>
        Continues limit tree J L (.produce now topic partition records) (.produced response)
          ⟨some m', tree'⟩,
       fun reason m' tree' =>
         Continues limit tree J L (.produce now topic partition records) (.notProduced reason)
           ⟨some m', tree'⟩,
       fun tree' => Continues limit tree J L (.produce now topic partition records) .died
         ⟨none, tree'⟩⟩ := by
  have stays : ∀ reason,
      Continues limit tree J L (.produce now topic partition records) (.notProduced reason)
        ⟨some m, tree⟩ :=
    fun reason => continues_silent ⟨J, L, evolves_same rooted streams rfl⟩ (fun _ _ _ sent => sent)
      fun _ _ => ⟨rfl, rfl, rfl⟩
  unfold Broker.produce
  split_ifs
  · exact Meets.throw (stays _)
  apply Meets.bind
  apply Meets.memory
  dsimp only
  cases resolved : m.getPartition topic partition.toNat with
  | error reason => exact Meets.throw (stays _)
  | ok s =>
    have found := getPartition_ok.mp resolved
    have tracks := rooted.tracks topic partition.toNat
    have admits := rooted.admits topic partition.toNat small (.append now records)
    change Tracks _ _ _ _ ⟨m.store? topic partition.toNat, _⟩ at tracks
    rw [found] at tracks admits
    cases checkRecords cfg.maxRecordBytes 0 records with
    | error reason => exact Meets.throw (stays _)
    | ok =>
      apply Meets.bind
      apply Meets.mapError
      refine (rooted.carries found
        fun faults => tracks.append_follows (fun _ _ => trivial) (tolerates_crash limit)
        (admits s rfl) (room s found)).mono ?_ ?_ ?_
      · rintro ⟨base, last⟩ m' tree' carries
        exact Meets.pure (produced_tells carries streams (rooted.lists.mpr ⟨s, found⟩))
      · rintro reason m' tree' ⟨_, carries⟩
        obtain ⟨_, _, _, _, evolves⟩ :=
          carries.evolves streams fun b brought => append_brings brought
        exact ⟨_, _, evolves, tells_nothing fun _ _ => ⟨rfl, rfl, rfl⟩⟩
      · intro tree' carries
        obtain ⟨_, _, _, _, evolves⟩ :=
          carries.evolves streams fun b brought => append_brings brought
        exact ⟨_, _, evolves, tells_nothing fun _ _ => ⟨rfl, rfl, rfl⟩⟩

/-- On a healthy disk a request that is not acknowledged leaves the streams as they were. -/
theorem produce_firm (rooted : Rooted limit J ⟨some m, tree⟩) (streams : Streams tree J L)
    (small : limit < 2 ^ 31)
    (room : ∀ s ∈ m.store? topic partition.toNat, s.logEndOffset + records.length < 2 ^ 64) :
    Meets never (Broker.produce cfg now topic partition.toNat records) m tree
      ⟨fun response m' tree' =>
        Continues limit tree J L (.produce now topic partition records) (.produced response)
          ⟨some m', tree'⟩,
       fun _ m' tree' => Evolves limit tree J L nothing J L ⟨some m', tree'⟩, fun _ => False⟩ := by
  have stays : Evolves limit tree J L nothing J L ⟨some m, tree⟩ := evolves_same rooted streams rfl
  unfold Broker.produce
  split_ifs
  · exact Meets.throw stays
  apply Meets.bind
  apply Meets.memory
  dsimp only
  cases resolved : m.getPartition topic partition.toNat with
  | error reason => exact Meets.throw stays
  | ok s =>
    have found := getPartition_ok.mp resolved
    cases checkRecords cfg.maxRecordBytes 0 records with
    | error reason => exact Meets.throw stays
    | ok =>
      apply Meets.bind
      apply Meets.mapError
      refine (rooted.append_firm found small (room s found)).mono ?_ ?_ ?_
      · rintro ⟨base, last⟩ m' tree' carries
        exact Meets.pure (produced_tells carries streams (rooted.lists.mpr ⟨s, found⟩))
      · rintro reason m' tree' ⟨after, same⟩
        exact evolves_same after streams same
      · exact fun _ impossible => impossible

end Produce

section Fetch

variable {topic : Bytes} {partition : UInt32} {offset : UInt64} {maxBytes : UInt32} {s : Store}

theorem reads_of_carries {maxBytes : Int} {place : Nat} {stored : List StoredRecord} {m' : Manager}
    {tree' : Tree}
    (carries : Carries limit J tree topic partition.toNat s (.read place maxBytes) (.found stored)
      ⟨some m', tree'⟩)
    (streams : Streams tree J L) (listed : tree.Lists topic partition.toNat) :
    Reads (J topic partition.toNat) (L topic partition.toNat) place stored := by
  have rooted := (carries.read streams).rooted
  have valid := (rooted.tracks topic partition.toNat).holds.valid
  obtain ⟨J', moves, _⟩ := carries
  cases moves with
  | found _ low high =>
    refine ⟨?_, ?_, low, high⟩
    · rw [streams.records listed low]
      exact greedy_prefix _ _
    · have all := valid.consecutive.drop (place - (J topic partition.toNat).floor)
      rw [Nat.add_sub_cancel' low] at all
      obtain ⟨rest, split⟩ :=
        greedy_prefix maxBytes
          ((J topic partition.toNat).records.drop (place - (J topic partition.toNat).floor))
      intro i r here
      refine all i r ?_
      rw [← split, List.getElem?_append_left (List.getElem?_eq_some_iff.mp here).1]
      exact here

theorem readRecords_continues (rooted : Rooted limit J ⟨some m, tree⟩)
    (streams : Streams tree J L) :
    Meets anything (readRecords topic partition.toNat offset.toNat maxBytes.toNat) m tree
      ⟨fun stored m' tree' =>
        Evolves limit tree J L nothing J L ⟨some m', tree'⟩ ∧ tree.Lists topic partition.toNat ∧
        Reads (J topic partition.toNat) (L topic partition.toNat) offset.toNat stored,
       fun _ m' tree' => Evolves limit tree J L nothing J L ⟨some m', tree'⟩,
       fun tree' => Evolves limit tree J L nothing J L ⟨none, tree'⟩⟩ := by
  have stays : Evolves limit tree J L nothing J L ⟨some m, tree⟩ := evolves_same rooted streams rfl
  unfold readRecords
  split_ifs
  · exact Meets.throw stays
  apply Meets.bind
  apply Meets.memory
  dsimp only
  cases resolved : m.getPartition topic partition.toNat with
  | error reason => exact Meets.throw stays
  | ok s =>
    have found := getPartition_ok.mp resolved
    have listed := rooted.lists.mpr ⟨s, found⟩
    have tracks := rooted.tracks topic partition.toNat
    change Tracks _ _ _ _ ⟨m.store? topic partition.toNat, _⟩ at tracks
    rw [found] at tracks
    apply Meets.mapError
    refine (rooted.carries found fun faults => tracks.read_follows fun _ _ => trivial).mono ?_ ?_ ?_
    · exact fun stored m' tree' carries =>
        ⟨carries.read streams, listed, reads_of_carries carries streams listed⟩
    · rintro reason m' tree' ⟨_, carries⟩
      exact carries.read streams
    · exact fun tree' carries => carries.read streams

end Fetch

theorem retain_evolves {now : Instant} {target : Target} (rooted : Rooted limit J ⟨some m, tree⟩)
    (streams : Streams tree J L) :
    Meets anything
      (onStore target.name target.id (applyRetention now target.maxAge target.maxBytes.toNat)) m
      tree ⟨fun _ m' tree' => ∃ J' L', Evolves limit tree J L nothing J' L' ⟨some m', tree'⟩,
       fun _ m' tree' => ∃ J' L', Evolves limit tree J L nothing J' L' ⟨some m', tree'⟩,
       fun tree' => ∃ J' L', Evolves limit tree J L nothing J' L' ⟨none, tree'⟩⟩ := by
  have silent : ∀ (outcome : Outcome) b,
      writtenOf (.applyRetention now target.maxAge target.maxBytes.toNat) outcome = some b ∨
        pendingOf (.applyRetention now target.maxAge target.maxBytes.toNat) outcome = some b →
      nothing target.name target.id b := by
    rintro outcome b (written | pending)
    · cases outcome <;> cases written
    · cases outcome <;> cases pending
  cases found : m.store? target.name target.id with
  | none =>
    apply Meets.bind
    apply Meets.memory
    dsimp only
    rw [found]
    exact Meets.die ⟨J, L, evolves_same rooted.stop streams rfl⟩
  | some s =>
    have tracks := rooted.tracks target.name target.id
    change Tracks _ _ _ _ ⟨m.store? target.name target.id, _⟩ at tracks
    rw [found] at tracks
    refine (rooted.carries found fun faults => tracks.retention_follows fun _ _ => trivial).mono ?_
      ?_ ?_
    · intro _ m' tree' carries
      obtain ⟨_, _, _, _, evolves⟩ := carries.evolves streams (silent _)
      exact ⟨_, _, evolves⟩
    · rintro _ m' tree' ⟨_, carries⟩
      obtain ⟨_, _, _, _, evolves⟩ := carries.evolves streams (silent _)
      exact ⟨_, _, evolves⟩
    · intro tree' carries
      obtain ⟨_, _, _, _, evolves⟩ := carries.evolves streams (silent _)
      exact ⟨_, _, evolves⟩

end Calls

/-! ## Fetches on their way -/

def FetchStage.stored : FetchStage → List StoredRecord
  | .read stored | .readEarliest stored _ => stored

/-- What the `i`-th fetch has read so far: its records stand in the stream, and its earliest offset
    is not below one that was reported before it came. -/
structure Holding (past : List NodeEvent) (tree : Tree) (J : Bytes → Nat → Journal)
    (L : Bytes → Nat → List Batch) (i : Nat) (f : Fetching) : Prop where
  asked : ∃ event ∈ past, event.before.fetches.length = i ∧ event.after.fetches.length = i + 1 ∧
    event.input.call = .fetch f.req.topic f.req.partition f.req.offset f.req.maxBytes
  listed : tree.Lists f.req.topic f.req.partition.toNat
  records : f.stage.stored <+: (storedFrom 0 (L f.req.topic f.req.partition.toNat)).drop
    f.req.offset.toNat
  consecutive : Consecutive f.req.offset.toNat f.stage.stored
  inside : f.req.offset.toNat ≤ span (L f.req.topic f.req.partition.toNat)
  earliest : ∀ stored earliest, f.stage = .readEarliest stored earliest →
    earliest ≤ (J f.req.topic f.req.partition.toNat).floor ∧
      ∀ event ∈ past, event.after.fetches.length ≤ i →
      ∀ w ∈ windowAt event f.req.topic f.req.partition.toNat, w.earliest ≤ earliest

/-- What a step makes of the fetches: it leaves one alone, ends it or takes it further, and may
    begin a new one. -/
structure Fetchings (past : List NodeEvent) (event : NodeEvent) (J' : Bytes → Nat → Journal)
    (L' : Bytes → Nat → List Batch) :
    Prop where
  longer : event.before.fetches.length ≤ event.after.fetches.length
  holding : ∀ (i : Nat) f, event.after.fetches[i]? = some (some f) →
    event.before.fetches[i]? = some (some f) ∨
    Holding (past ++ [event]) event.after.tree J' L' i f

structure Fewer (before after : List (Option Fetching)) : Prop where
  length : after.length = before.length
  left : ∀ (i : Nat) f, after[i]? = some (some f) → before[i]? = some (some f)

section Fewer

variable {fetches : List (Option Fetching)} {n : Node} {sv : Server} {past : List NodeEvent}
  {event : NodeEvent} {J : Bytes → Nat → Journal} {L : Bytes → Nat → List Batch}

theorem Fewer.refl : Fewer fetches fetches := ⟨rfl, fun _ _ here => here⟩

theorem fewer_gone : Fewer fetches (fetches.map fun _ => none) := by
  refine ⟨List.length_map _, fun i f here => ?_⟩
  rw [List.getElem?_map, Option.map_eq_some_iff] at here
  obtain ⟨_, _, gone⟩ := here
  cases gone

theorem fewer_answered (i : Nat) : Fewer fetches (fetches.set i none) := by
  refine ⟨List.length_set, fun j f here => ?_⟩
  by_cases same : i = j
  · subst same
    rw [List.getElem?_set, if_pos rfl] at here
    split_ifs at here
    cases Option.some.inj here
  · rwa [List.getElem?_set_ne same] at here

theorem Fewer.fetchings (fewer : Fewer event.before.fetches event.after.fetches) :
    Fetchings past event J L :=
  ⟨fewer.length.ge, fun i f here => Or.inl (fewer.left i f here)⟩

theorem fetchings_arrival {next : Option Fetching} (fewer : Fewer event.before.fetches fetches)
    (arrival : event.after.fetches = fetches ++ [next])
    (held : ∀ f, next = some f →
      Holding (past ++ [event]) event.after.tree J L event.before.fetches.length f) :
    Fetchings past event J L := by
  refine ⟨?_, fun i f here => ?_⟩
  · rw [arrival, List.length_append, fewer.length]
    exact Nat.le_add_right _ _
  · rw [arrival] at here
    rcases Nat.lt_trichotomy i fetches.length with old | rfl | beyond
    · rw [List.getElem?_append_left old] at here
      exact Or.inl (fewer.left i f here)
    · rw [List.getElem?_concat_length] at here
      rw [fewer.length]
      exact Or.inr (held f (Option.some.inj here))
    · rw [List.getElem?_eq_none (by rw [List.length_append]; exact beyond)] at here
      cases here

theorem fetchings_set {i : Nat} {f : Fetching}
    (goes : event.after.fetches = event.before.fetches.set i (some f))
    (held : Holding (past ++ [event]) event.after.tree J L i f) : Fetchings past event J L := by
  refine ⟨?_, fun j other here => ?_⟩
  · rw [goes, List.length_set]
  · rw [goes] at here
    by_cases same : i = j
    · subst same
      rw [List.getElem?_set, if_pos rfl] at here
      split_ifs at here
      cases here
      exact Or.inr held
    · rw [List.getElem?_set_ne same] at here
      exact Or.inl here

theorem settleTopics_fewer {α ε : Type} {report : α → Answer} {failure : ε → Answer}
    {run : Exit ε α × World Manager Tree} :
    Fewer n.fetches (n.settleTopics sv report failure run).2.fetches := by
  obtain ⟨exit, after⟩ := run
  cases exit with
  | ok value => exact .refl
  | error reason => exact .refl
  | died => exact fewer_gone

theorem start_fewer {order : MapOrder} {cfg : StorageConfig} {maxAgeSeconds maxBytes : UInt64}
    {faults : List Fault} :
    Fewer n.fetches (n.start order cfg maxAgeSeconds maxBytes faults).2.fetches := by
  unfold Node.start
  repeat' split
  all_goals exact fewer_gone

theorem Beside.fewer {n' : Node} (beside : Beside n n') : Fewer n.fetches n'.fetches := by
  cases beside with
  | stays _ _ same =>
    rw [same]
    exact .refl
  | died => exact fewer_gone

theorem perform_fewer {turn : Turn}
    (notRead : ∀ topic partition offset maxBytes,
      turn.call ≠ .fetch topic partition offset maxBytes)
    (notOffset : ∀ i, turn.call ≠ .readOffset i) : Fewer n.fetches (n.perform turn).2.fetches := by
  obtain ⟨call, faults⟩ := turn
  obtain ⟨server, tree, offsetLog, handlers, fetches⟩ := n
  cases call with
  | start order cfg maxAgeSeconds maxBytes => exact start_fewer
  | kill => exact fewer_gone
  | fetch topic partition offset maxBytes =>
    exact absurd rfl (notRead topic partition offset maxBytes)
  | readOffset i => exact absurd rfl (notOffset i)
  | createTopic name partitionCount retention | produce now topic partition records
    | retain now target =>
    cases server with
    | none => exact .refl
    | some sv => exact settleTopics_fewer
  | resolve req | validate i | commit i now => exact (perform_beside rfl).fewer

theorem perform_fetch {topic : Bytes} {partition : UInt32} {offset : UInt64} {maxBytes : UInt32}
    {faults : List Fault} (running : n.server = some sv) :
    n.perform ⟨.fetch topic partition offset maxBytes, faults⟩ =
      n.read sv ⟨topic, partition, offset, maxBytes⟩ faults := by
  simp only [Node.perform, running]

theorem read_length {req : FetchRequest} {faults : List Fault} :
    (n.read sv req faults).2.fetches.length = n.fetches.length + 1 :=
  List.length_append.trans (congrArg (· + 1) settleTopics_fewer.length)

theorem read_fetches {req : FetchRequest} {faults : List Fault} {k : Nat} {f : Fetching}
    (going : (n.read sv req faults).2.fetches[k]? = some (some f)) :
    n.fetches[k]? = some (some f) ∨ k = n.fetches.length ∧ f.req = req := by
  have fewer : Fewer n.fetches
      (n.settleTopics sv (fun _ => .waits) .notFetched (readRecords req.topic req.partition.toNat
    req.offset.toNat req.maxBytes.toNat ⟨sv.topicManager, n.tree, faults⟩)).2.fetches :=
    settleTopics_fewer
  rw [Node.read] at going
  dsimp only at going
  rcases Nat.lt_trichotomy k n.fetches.length with old | rfl | beyond
  · rw [List.getElem?_append_left (fewer.length ▸ old)] at going
    exact Or.inl (fewer.left k f going)
  · rw [← fewer.length, List.getElem?_concat_length, Option.some.injEq] at going
    refine Or.inr ⟨rfl, ?_⟩
    unfold fetchingOf at going
    split at going <;> cases going
    rfl
  · rw [List.getElem?_eq_none (by rw [List.length_append, fewer.length]; exact beyond)] at going
    cases going

theorem readOffset_fetches {i k : Nat} {f g : Fetching} (here : n.fetches[i]? = some (some f))
    (going : (n.readOffset sv i f).2.fetches[k]? = some (some g)) :
    ∃ g', n.fetches[k]? = some (some g') ∧ g'.req = g.req := by
  have gone : (n.fetches.set i none)[k]? = some (some g) →
      ∃ g', n.fetches[k]? = some (some g') ∧ g'.req = g.req :=
    fun still => ⟨g, (fewer_answered i).left k g still, rfl⟩
  unfold Node.readOffset at going
  repeat' split at going
  · exact gone going
  · by_cases same : i = k
    · subst same
      rw [List.getElem?_set, if_pos rfl] at going
      split_ifs at going
      cases going
      exact ⟨f, here, rfl⟩
    · rw [List.getElem?_set_ne same] at going
      exact ⟨g, going, rfl⟩
  · exact gone going

theorem perform_requests {turn : Turn} {k : Nat} {f : Fetching} (came : k < n.fetches.length)
    (going : (n.perform turn).2.fetches[k]? = some (some f)) :
    ∃ f', n.fetches[k]? = some (some f') ∧ f'.req = f.req := by
  have others : (∀ topic partition offset maxBytes,
      turn.call ≠ .fetch topic partition offset maxBytes) →
      (∀ i, turn.call ≠ .readOffset i) → ∃ f', n.fetches[k]? = some (some f') ∧ f'.req = f.req :=
    fun notRead notOffset => ⟨f, (perform_fewer notRead notOffset).left k f going, rfl⟩
  obtain ⟨call, faults⟩ := turn
  cases call with
  | fetch topic partition offset maxBytes =>
    cases running : n.server with
    | none =>
      simp only [Node.perform, running] at going
      exact ⟨f, going, rfl⟩
    | some sv =>
      rw [perform_fetch running] at going
      rcases read_fetches going with old | ⟨new, _⟩
      · exact ⟨f, old, rfl⟩
      · omega
  | readOffset i =>
    by_cases goes : ∃ sv f, n.server = some sv ∧ n.fetches[i]? = some (some f)
    · obtain ⟨sv, g, running, here⟩ := goes
      rw [perform_readOffset running here] at going
      exact readOffset_fetches here going
    · rw [perform_readOffset_nobody fun sv f running going => goes ⟨sv, f, running, going⟩] at going
      exact ⟨f, going, rfl⟩
  | _ => exact others (fun _ _ _ _ same => by cases same) fun _ same => by cases same

end Fewer

/-! ## The node -/

/-- The journals and streams behind a run, and what they have to do with its answers. -/
structure Chronicle (limit : Int) (past : List NodeEvent) (n : Node) (J : Bytes → Nat → Journal)
    (L : Bytes → Nat → List Batch) : Prop where
  rooted : Rooted limit J ⟨n.server.map Server.topicManager, n.tree⟩
  streams : Streams n.tree J L
  told : ∀ event ∈ past, ∀ topic id, ∀ r ∈ reportedAt event topic id,
    n.tree.Lists topic id ∧ (storedFrom 0 (L topic id))[r.offset]? = some r
  origin : ∀ topic id,
    n.tree.Lists topic id → ∀ b ∈ L topic id, ∃ event ∈ past, event.input.call.sends topic id b
  windows : ∀ event ∈ past, ∀ topic id, ∀ w ∈ windowAt event topic id,
    n.tree.Lists topic id ∧ w.earliest ≤ (J topic id).floor ∧ w.logEnd ≤ (J topic id).logEnd
  ordered : past.Pairwise fun earlier later => ∀ topic id, ∀ r ∈ producedAt earlier topic id,
    ∀ r' ∈ producedAt later topic id, r.offset < r'.offset
  fetching : ∀ (i : Nat) f, n.fetches[i]? = some (some f) → Holding past n.tree J L i f

section Node

variable {limit : Int} {J J' : Bytes → Nat → Journal} {L L' : Bytes → Nat → List Batch} {n : Node}
  {sv : Server} {past : List NodeEvent} {turn : Turn}

theorem chronicle_new :
    Chronicle limit [] Node.new (fun _ _ => Journal.initial) (fun _ _ => []) where
  rooted := rooted_new
  streams := ⟨fun _ _ _ => ⟨[], rfl, rfl⟩, fun _ _ _ => rfl⟩
  told _ nothing := absurd nothing List.not_mem_nil
  origin _ _ _ _ nothing := absurd nothing List.not_mem_nil
  windows _ nothing := absurd nothing List.not_mem_nil
  ordered := List.Pairwise.nil
  fetching _ _ here := by cases here

theorem stored_grows {batches added : List Batch} {offset : Nat} {r : StoredRecord}
    (found : (storedFrom 0 batches)[offset]? = some r) :
    (storedFrom 0 (batches ++ added))[offset]? = some r := by
  rw [storedFrom_append, List.getElem?_append_left (List.getElem?_eq_some_iff.mp found).1]
  exact found

theorem Holding.grows {event : NodeEvent} {i : Nat} {f : Fetching}
    {sent : Bytes → Nat → Batch → Prop} {h : Host} (holding : Holding past n.tree J L i f)
    (evolves : Evolves limit n.tree J L sent J' L' h) (came : i < event.after.fetches.length) :
    Holding (past ++ [event]) h.tree J' L' i f := by
  obtain ⟨asking, happened, asked⟩ := holding.asked
  obtain ⟨added, same, _⟩ := evolves.longer _ _ holding.listed
  refine ⟨⟨asking, List.mem_append_left _ happened, asked⟩, evolves.listed _ _ holding.listed, ?_,
    holding.consecutive, ?_, ?_⟩
  · rw [same, storedFrom_append, List.drop_append]
    exact holding.records.trans (List.prefix_append _ _)
  · rw [same, span_append]
    exact Nat.le_add_right_of_le holding.inside
  · intro stored earliest stage
    obtain ⟨low, before⟩ := holding.earliest stored earliest stage
    refine ⟨low.trans (evolves.floors _ _ holding.listed), fun other member early w seen => ?_⟩
    rcases List.mem_append.mp member with old | new
    · exact before other old early w seen
    · rw [List.mem_singleton.mp new] at early
      omega

theorem Chronicle.step {event : NodeEvent} (chronicle : Chronicle limit past event.before J L)
    (evolves : Evolves limit event.before.tree J L event.input.call.sends J' L'
      ⟨event.after.server.map Server.topicManager, event.after.tree⟩)
    (tells : Tells event.input.call event.outcome event.after.tree L J' L')
    (fetchings : Fetchings past event J' L') :
    Chronicle limit (past ++ [event]) event.after J' L' := by
  refine ⟨evolves.rooted, evolves.streams, ?_, ?_, ?_, ?_, fun i f here => ?_⟩
  · intro other member topic id r reported
    rcases List.mem_append.mp member with old | new
    · obtain ⟨listed, found⟩ := chronicle.told other old topic id r reported
      obtain ⟨added, same, _⟩ := evolves.longer topic id listed
      rw [same]
      exact ⟨evolves.listed topic id listed, stored_grows found⟩
    · rw [List.mem_singleton.mp new] at reported
      exact tells.reported topic id r reported
  · intro topic id listed b member
    by_cases before : event.before.tree.Lists topic id
    · obtain ⟨added, same, known⟩ := evolves.longer topic id before
      rw [same] at member
      rcases List.mem_append.mp member with old | new
      · obtain ⟨other, present, sends⟩ := chronicle.origin topic id before b old
        exact ⟨other, List.mem_append_left _ present, sends⟩
      · exact ⟨event, List.mem_append_right _ (List.mem_singleton_self _), known b new⟩
    · rw [evolves.fresh topic id listed before] at member
      cases member
  · intro other member topic id w seen
    rcases List.mem_append.mp member with old | new
    · obtain ⟨listed, low, high⟩ := chronicle.windows other old topic id w seen
      obtain ⟨added, same, _⟩ := evolves.longer topic id listed
      have logged := chronicle.streams.logEnd listed
      have logged' := evolves.streams.logEnd (evolves.listed topic id listed)
      have floors := evolves.floors topic id listed
      rw [same, span_append] at logged'
      exact ⟨evolves.listed topic id listed, by omega, by omega⟩
    · rw [List.mem_singleton.mp new] at seen
      obtain ⟨listed, low, high⟩ := tells.window topic id w seen
      exact ⟨listed, low, le_of_eq high⟩
  · rw [List.pairwise_append]
    refine ⟨chronicle.ordered, List.pairwise_singleton _ _, ?_⟩
    intro earlier old later new topic id r before r' after
    rw [List.mem_singleton.mp new] at after
    obtain ⟨_, found⟩ := chronicle.told earlier old topic id r (List.mem_append_left _ before)
    have inside := (List.getElem?_eq_some_iff.mp found).1
    rw [storedFrom_length] at inside
    exact lt_of_lt_of_le inside (tells.behind topic id r' after)
  · rcases fetchings.holding i f here with old | held
    · have came := (List.getElem?_eq_some_iff.mp old).1
      exact (chronicle.fetching i f old).grows evolves (lt_of_lt_of_le came fetchings.longer)
    · exact held

theorem settleTopics_met {α ε : Type} {report : α → Answer} {failure : ε → Answer}
    {run : Exit ε α × World Manager Tree} (holds : Answer → Host → Prop)
    (met : Post.met ⟨fun value m tree => holds (report value) ⟨some m, tree⟩,
      fun reason m tree => holds (failure reason) ⟨some m, tree⟩,
      fun tree => holds .died ⟨none, tree⟩⟩ run) :
    holds (n.settleTopics sv report failure run).1
      ⟨(n.settleTopics sv report failure run).2.server.map Server.topicManager,
       (n.settleTopics sv report failure run).2.tree⟩ := by
  obtain ⟨exit, after⟩ := run
  cases exit with
  | ok value => exact met
  | error reason => exact met
  | died => exact met

theorem start_evolves {order : MapOrder} {cfg : StorageConfig} {maxAgeSeconds maxBytes : UInt64}
    {faults : List Fault} (rooted : Rooted limit J ⟨n.server.map Server.topicManager, n.tree⟩)
    (streams : Streams n.tree J L) (firm : Firm faults) (setting : cfg.maxBatchBytes = limit) :
    Evolves limit n.tree J L nothing J L
      ⟨(n.start order cfg maxAgeSeconds maxBytes faults).2.server.map Server.topicManager,
       (n.start order cfg maxAgeSeconds maxBytes faults).2.tree⟩ := by
  have stopped : Rooted limit J ⟨none, n.tree⟩ := rooted.stopped rooted.standing
  unfold Node.start
  cases loaded : Configuration.loadStorage cfg with
  | error reason => exact evolves_same stopped streams rfl
  | ok config =>
    have sized : config.maxBatchBytes = limit :=
      (Configuration.loadStorage_ok loaded).2.1.trans setting
    have topics := @Rooted.newManager limit J n.tree _ order config faults rooted sized firm
    dsimp only
    rcases ran : newManager order config ⟨(), n.tree, faults⟩ with ⟨exit, ⟨⟨⟩, tree, rest⟩⟩
    rw [ran] at topics
    cases exit with
    | error reason => exact evolves_same topics.1 streams topics.2
    | died => exact evolves_same topics.1 streams topics.2
    | ok m =>
      obtain ⟨opened, same⟩ : Rooted limit J ⟨some m, tree⟩ ∧ tree.metadata = n.tree.metadata :=
        topics
      dsimp only
      rcases Offsets.openStore ⟨(), n.offsetLog, rest⟩ with ⟨exit', ⟨⟨⟩, offsetLog, rest'⟩⟩
      cases exit' with
      | error reason =>
        obtain ⟨closed, same'⟩ := @Rooted.close limit J m tree order rest' opened
        exact evolves_same closed streams (same'.trans same)
      | died => exact evolves_same opened.stop streams same
      | ok store =>
        refine evolves_same { opened with topics := ?_, config := ?_, tracks := opened.tracks }
          streams same
        · rintro _ ⟨⟩ name
          exact opened.topics m rfl name
        · rintro _ ⟨⟩
          exact opened.config m rfl

theorem Beside.evolves {n' : Node} (beside : Beside n n')
    (rooted : Rooted limit J ⟨n.server.map Server.topicManager, n.tree⟩)
    (streams : Streams n.tree J L) :
    Evolves limit n.tree J L nothing J L ⟨n'.server.map Server.topicManager, n'.tree⟩ := by
  cases beside with
  | stays topics tree _ =>
    rw [topics, tree]
    exact evolves_same rooted streams rfl
  | died => exact evolves_same (rooted.stopped rooted.standing) streams rfl

theorem Chronicle.continues (chronicle : Chronicle limit past n J L) (small : limit < 2 ^ 31)
    (steady : SteadyTurn limit past n turn)
    (notRead : ∀ topic partition offset maxBytes,
      turn.call ≠ .fetch topic partition offset maxBytes)
    (notOffset : ∀ i, turn.call ≠ .readOffset i) :
    Continues limit n.tree J L turn.call (n.perform turn).1
      ⟨(n.perform turn).2.server.map Server.topicManager, (n.perform turn).2.tree⟩ := by
  obtain ⟨rooted, streams, _⟩ := chronicle
  obtain ⟨call, faults⟩ := turn
  obtain ⟨server, tree, offsetLog, handlers, fetches⟩ := n
  have quiet : ∀ (call : Call) answer (h : Host), Silent call answer →
      (∃ J' L', Evolves limit tree J L nothing J' L' h) → Continues limit tree J L call answer h :=
    fun _ _ _ silent evolves => continues_silent evolves (fun _ _ _ absent => absent.elim) silent
  have stays : ∃ J' L',
      Evolves limit tree J L nothing J' L' ⟨server.map Server.topicManager, tree⟩ :=
    ⟨J, L, evolves_same rooted streams rfl⟩
  cases call with
  | start order cfg maxAgeSeconds maxBytes =>
    exact quiet _ _ _ (fun _ _ => ⟨rfl, rfl, rfl⟩)
      ⟨J, L, start_evolves rooted streams steady.1 steady.2⟩
  | kill =>
    exact quiet _ _ _ (fun _ _ => ⟨rfl, rfl, rfl⟩)
      ⟨J, L, evolves_same (rooted.stopped rooted.standing) streams rfl⟩
  | createTopic name partitionCount retention =>
    cases server with
    | none => exact quiet _ _ _ (fun _ _ => ⟨rfl, rfl, rfl⟩) stays
    | some sv =>
      refine settleTopics_met (Continues limit tree J L _) ?_
      refine ((Rooted.createTopic_evolves rooted streams).mono ?_ ?_ ?_).met fun _ _ => trivial
      · exact fun _ _ _ evolves => quiet _ _ _ (fun _ _ => ⟨rfl, rfl, rfl⟩) evolves
      · exact fun _ _ _ evolves => quiet _ _ _ (fun _ _ => ⟨rfl, rfl, rfl⟩) evolves
      · exact fun _ evolves => quiet _ _ _ (fun _ _ => ⟨rfl, rfl, rfl⟩) evolves
  | produce now topic partition records =>
    cases server with
    | none =>
      exact continues_silent stays (fun _ _ _ absent => absent.elim) fun _ _ => ⟨rfl, rfl, rfl⟩
    | some sv =>
      exact settleTopics_met (Continues limit tree J L _)
        ((produce_continues rooted streams small (steady sv rfl)).met fun _ _ => trivial)
  | fetch topic partition offset maxBytes =>
    exact absurd rfl (notRead topic partition offset maxBytes)
  | readOffset i => exact absurd rfl (notOffset i)
  | retain now target =>
    cases server with
    | none => exact quiet _ _ _ (fun _ _ => ⟨rfl, rfl, rfl⟩) stays
    | some sv =>
      refine settleTopics_met (Continues limit tree J L _) ?_
      refine ((retain_evolves rooted streams).mono ?_ ?_ ?_).met fun _ _ => trivial
      · exact fun _ _ _ evolves => quiet _ _ _ (fun _ _ => ⟨rfl, rfl, rfl⟩) evolves
      · exact fun _ _ _ evolves => quiet _ _ _ (fun _ _ => ⟨rfl, rfl, rfl⟩) evolves
      · exact fun _ evolves => quiet _ _ _ (fun _ _ => ⟨rfl, rfl, rfl⟩) evolves
  | resolve req | validate i | commit i now =>
    exact quiet _ _ _ (fun _ _ => ⟨rfl, rfl, rfl⟩)
      ⟨J, L, (perform_beside rfl).evolves rooted streams⟩

theorem Chronicle.tracks {topic : Bytes} {id : Nat} {s : Store}
    (chronicle : Chronicle limit past n J L) (running : n.server = some sv)
    (found : sv.topicManager.store? topic id = some s) :
    n.tree.Lists topic id ∧
      Tracks anything (crashPolicy limit) (·.maxBatchBytes = limit) (J topic id)
      ⟨some s, n.tree.partitions topic id⟩ := by
  obtain ⟨server, tree, offsetLog, handlers, fetches⟩ := n
  cases running
  have rooted : Rooted limit J ⟨some sv.topicManager, tree⟩ := chronicle.rooted
  have tracks := rooted.tracks topic id
  change Tracks _ _ _ _ ⟨sv.topicManager.store? topic id, tree.partitions topic id⟩ at tracks
  rw [found] at tracks
  exact ⟨rooted.lists.mpr ⟨s, found⟩, tracks⟩

theorem Chronicle.reads {req : FetchRequest} {faults : List Fault}
    (chronicle : Chronicle limit past n J L) (running : n.server = some sv) :
    Evolves limit n.tree J L nothing J L
        ⟨(n.read sv req faults).2.server.map Server.topicManager, (n.read sv req faults).2.tree⟩ ∧
      ∀ input outcome, input.call = .fetch req.topic req.partition req.offset req.maxBytes →
        Fetchings past ⟨n, input, outcome, (n.read sv req faults).2⟩ J L := by
  have rooted := chronicle.rooted
  rw [running] at rooted
  have met := (@readRecords_continues _ _ _ _ _ req.topic req.partition req.offset req.maxBytes
    rooted chronicle.streams).met
    (show ∀ fault ∈ faults, anything fault from fun _ _ => trivial)
  have evolves : Evolves limit n.tree J L nothing J L
      ⟨(n.read sv req faults).2.server.map Server.topicManager, (n.read sv req faults).2.tree⟩ :=
    settleTopics_met (fun _ h => Evolves limit n.tree J L nothing J L h)
      (met.mono (fun _ _ _ read => read.1) (fun _ _ _ evolves => evolves) fun _ evolves => evolves)
  refine ⟨evolves,
    fun input outcome asked => fetchings_arrival settleTopics_fewer rfl fun f going => ?_⟩
  rcases ran : readRecords req.topic req.partition.toNat req.offset.toNat req.maxBytes.toNat
    ⟨sv.topicManager, n.tree, faults⟩
    with ⟨exit, after⟩
  rw [ran] at met going
  cases exit with
  | error reason => cases going
  | died => cases going
  | ok stored =>
    cases going
    obtain ⟨_, listed, reads⟩ := met
    exact ⟨⟨_, List.mem_append_right _ (List.mem_singleton_self _), rfl, read_length, asked⟩,
      evolves.listed _ _ listed, reads.records, reads.consecutive,
      reads.inside.2.trans (chronicle.streams.logEnd listed).ge, fun _ _ stage => by cases stage⟩

/-- The answer of a fetch, behind whose records the log end was read. -/
theorem Holding.tells {i : Nat} {f : Fetching} {stored : List StoredRecord} {earliest : Nat}
    (holding : Holding past n.tree J L i f) (stage : f.stage = .readEarliest stored earliest) :
    Tells (.readOffset i)
      (.fetched f.req ⟨stored, earliest, (J f.req.topic f.req.partition.toNat).logEnd⟩) n.tree L J
      L := by
  refine ⟨fun other id r member => ?_, (fun other id r member => by cases member),
    fun other id w member => ?_, (fun other id base last nothing => by cases nothing)⟩
  · simp only [reportedBy, producedBy, fetchedBy, List.nil_append] at member
    split_ifs at member with own
    · obtain ⟨rfl, rfl⟩ := own
      refine ⟨holding.listed, ?_⟩
      have kept : f.stage.stored = stored := by rw [stage]; rfl
      obtain ⟨i, found⟩ := List.mem_iff_getElem?.mp member
      obtain ⟨rest, split⟩ := holding.records
      rw [kept] at split
      rw [holding.consecutive i r (kept ▸ found), ← List.getElem?_drop, ← split,
        List.getElem?_append_left (List.getElem?_eq_some_iff.mp found).1]
      exact found
    · cases member
  · simp only [windowBy] at member
    split_ifs at member with own
    · obtain ⟨rfl, rfl⟩ := own
      cases member
      exact ⟨holding.listed, (holding.earliest stored earliest stage).1, rfl⟩
    · cases member

/-- Behind its records a fetch reads the earliest offset, which no response before has gone
    beyond. -/
theorem Chronicle.readEarliest {i : Nat} {f : Fetching} {stored : List StoredRecord}
    {event : NodeEvent} (chronicle : Chronicle limit past n J L)
    (going : n.fetches[i]? = some (some f)) (stage : f.stage = .read stored)
    (longer : i < event.after.fetches.length) (same : event.after.tree = n.tree) :
    Holding (past ++ [event]) event.after.tree J L i
      { f with stage := .readEarliest stored (J f.req.topic f.req.partition.toNat).floor } := by
  obtain ⟨⟨asking, happened, asked⟩, listed, records, consecutive, inside, _⟩ :=
    chronicle.fetching i f going
  rw [stage] at records consecutive
  refine ⟨⟨asking, List.mem_append_left _ happened, asked⟩, same ▸ listed, records, consecutive,
    inside, ?_⟩
  rintro _ _ ⟨⟩
  refine ⟨le_rfl, fun other member early w seen => ?_⟩
  rcases List.mem_append.mp member with old | new
  · exact (chronicle.windows other old _ _ w seen).2.1
  · rw [List.mem_singleton.mp new] at early
    omega

theorem Chronicle.readsOffset {i : Nat} {f : Fetching} (chronicle : Chronicle limit past n J L)
    (running : n.server = some sv) (going : n.fetches[i]? = some (some f)) :
    Tells (.readOffset i) (n.readOffset sv i f).1 n.tree L J L ∧
      ∀ input outcome, Fetchings past ⟨n, input, outcome, (n.readOffset sv i f).2⟩ J L := by
  have silent : ∀ answer, (∀ req response, answer ≠ .fetched req response) →
      Silent (.readOffset i) answer := by
    intro answer other topic id
    cases answer with
    | fetched req response => exact absurd rfl (other req response)
    | _ => exact ⟨rfl, rfl, rfl⟩
  have holding := chronicle.fetching i f going
  have came := (List.getElem?_eq_some_iff.mp going).1
  unfold Node.readOffset
  cases resolved : sv.topicManager.getPartition f.req.topic f.req.partition.toNat with
  | error reason =>
    exact ⟨tells_nothing (silent _ fun _ _ other => by cases other),
      fun _ _ => (fewer_answered i).fetchings⟩
  | ok s =>
    obtain ⟨_, tracks⟩ := chronicle.tracks running (getPartition_ok.mp resolved)
    obtain ⟨logEnd, earliest⟩ := tracks.offsets rfl
    dsimp only
    cases stage : f.stage with
    | read stored =>
      refine ⟨tells_nothing (silent _ fun _ _ other => by cases other),
        fun _ _ => fetchings_set rfl ?_⟩
      rw [earliest]
      exact chronicle.readEarliest going stage (lt_of_lt_of_eq came List.length_set.symm) rfl
    | readEarliest stored earliest =>
      refine ⟨?_, fun _ _ => (fewer_answered i).fetchings⟩
      rw [readOffsets, logEnd]
      exact holding.tells stage

/-- What a turn does to the journals, the streams and the fetches on their way. -/
def Proceeds (limit : Int) (past : List NodeEvent) (J : Bytes → Nat → Journal)
    (L : Bytes → Nat → List Batch) (n : Node) (turn : Turn) : Prop :=
  ∃ J' L', Evolves limit n.tree J L turn.call.sends J' L'
      ⟨(n.perform turn).2.server.map Server.topicManager, (n.perform turn).2.tree⟩ ∧
    Tells turn.call (n.perform turn).1 (n.perform turn).2.tree L J' L' ∧
      Fetchings past (happen Node.perform n turn) J' L'

theorem Chronicle.proceeds (chronicle : Chronicle limit past n J L) (small : limit < 2 ^ 31)
    (steady : SteadyTurn limit past n turn) :
    Proceeds limit past J L n turn := by
  have others : (∀ topic partition offset maxBytes,
      turn.call ≠ .fetch topic partition offset maxBytes) →
      (∀ i, turn.call ≠ .readOffset i) → Proceeds limit past J L n turn :=
      fun notRead notOffset => by
    obtain ⟨J', L', evolves, tells⟩ := chronicle.continues small steady notRead notOffset
    exact ⟨J', L', evolves, tells, (perform_fewer notRead notOffset).fetchings⟩
  obtain ⟨call, faults⟩ := turn
  have stays : ∀ sent,
      Evolves limit n.tree J L sent J L ⟨n.server.map Server.topicManager, n.tree⟩ :=
    fun _ => evolves_same chronicle.rooted chronicle.streams rfl
  have idle : Silent call .nobody →
      n.perform ⟨call, faults⟩ = (.nobody, n) → Proceeds limit past J L n ⟨call, faults⟩ := by
    intro silent nothing
    unfold Proceeds happen
    rw [nothing]
    exact ⟨J, L, stays _, tells_nothing silent, Fewer.refl.fetchings⟩
  cases call with
  | fetch topic partition offset maxBytes =>
    cases running : n.server with
    | none =>
      refine idle (fun _ _ => ⟨rfl, rfl, rfl⟩) ?_
      simp only [Node.perform, running]
    | some sv =>
      obtain ⟨evolves, fetchings⟩ :=
        @Chronicle.reads _ _ _ _ _ _ ⟨topic, partition, offset, maxBytes⟩ faults chronicle running
      unfold Proceeds happen
      rw [perform_fetch running]
      exact ⟨J, L, evolves.mono fun _ _ _ absent => absent.elim,
        tells_nothing fun _ _ => ⟨rfl, rfl, rfl⟩, fetchings _ _ rfl⟩
  | readOffset i =>
    by_cases goes : ∃ sv f, n.server = some sv ∧ n.fetches[i]? = some (some f)
    · obtain ⟨sv, f, running, going⟩ := goes
      obtain ⟨tells, fetchings⟩ := chronicle.readsOffset running going
      have moves := @readOffset_moves n faults i
      unfold Proceeds happen
      rw [perform_readOffset running going] at moves ⊢
      rw [moves] at fetchings ⊢
      exact ⟨J, L, stays _, tells, fetchings _ _⟩
    · refine idle (fun _ _ => ⟨rfl, rfl, rfl⟩) ?_
      exact perform_readOffset_nobody fun sv f running going => goes ⟨sv, f, running, going⟩
  | _ => exact others (fun _ _ _ _ same => by cases same) fun _ same => by cases same

theorem Chronicle.advances (chronicle : Chronicle limit past n J L) (small : limit < 2 ^ 31)
    (steady : SteadyTurn limit past n turn) :
    ∃ J' L', Evolves limit n.tree J L turn.call.sends J' L'
        ⟨(n.perform turn).2.server.map Server.topicManager, (n.perform turn).2.tree⟩ ∧
      Tells turn.call (n.perform turn).1 (n.perform turn).2.tree L J' L' ∧
      Chronicle limit (past ++ [happen Node.perform n turn]) (n.perform turn).2 J' L' := by
  obtain ⟨J', L', evolves, tells, fetchings⟩ := chronicle.proceeds small steady
  exact ⟨J', L', evolves, tells,
    @Chronicle.step _ _ _ _ _ _ (happen Node.perform n turn) chronicle evolves tells fetchings⟩

/-- On a healthy disk a produce request brings its partition what it acknowledges and nothing
    else. -/
theorem Chronicle.produce_firm {now : Instant} {topic : Bytes} {partition : UInt32}
    {records : List Record} (chronicle : Chronicle limit past n J L) (small : limit < 2 ^ 31)
    (request : turn = ⟨.produce now topic partition records, []⟩)
    (steady : SteadyTurn limit past n turn) :
    ∃ J' L', Evolves limit n.tree J L turn.call.sends J' L'
        ⟨(n.perform turn).2.server.map Server.topicManager, (n.perform turn).2.tree⟩ ∧
      Tells turn.call (n.perform turn).1 (n.perform turn).2.tree L J' L' ∧
      Chronicle limit (past ++ [happen Node.perform n turn]) (n.perform turn).2 J' L' ∧
      ((∀ response, (n.perform turn).1 ≠ .produced response) → L' = L) := by
  subst request
  obtain ⟨J', L', evolves, tells, firm⟩ : ∃ J' L',
    Evolves limit n.tree J L (Call.produce now topic partition records).sends J' L'
        ⟨(n.perform ⟨.produce now topic partition records, []⟩).2.server.map Server.topicManager,
          (n.perform ⟨.produce now topic partition records, []⟩).2.tree⟩ ∧
      Tells (.produce now topic partition records)
        (n.perform ⟨.produce now topic partition records, []⟩).1
        (n.perform ⟨.produce now topic partition records, []⟩).2.tree L J' L' ∧
      ((∀ response, (n.perform ⟨.produce now topic partition records, []⟩).1 ≠ .produced response) →
        L' = L) := by
    obtain ⟨rooted, streams, _⟩ := chronicle
    obtain ⟨server, tree, offsetLog, handlers, fetches⟩ := n
    cases server with
    | none =>
      exact ⟨J, L, evolves_same rooted streams rfl, tells_nothing fun _ _ => ⟨rfl, rfl, rfl⟩,
        fun _ => rfl⟩
    | some sv =>
      refine settleTopics_met
        (fun answer h =>
          ∃ J' L', Evolves limit tree J L (Call.produce now topic partition records).sends J' L' h ∧
        Tells (.produce now topic partition records) answer h.tree L J' L' ∧
          ((∀ response, answer ≠ .produced response) → L' = L)) ?_
      refine ((Broker.produce_firm rooted streams small (steady sv rfl)).mono ?_ ?_ ?_).met
        fun _ nothing => absurd nothing List.not_mem_nil
      · rintro response m' tree' ⟨J', L', evolves, tells⟩
        exact ⟨J', L', evolves, tells, fun other => absurd rfl (other response)⟩
      · intro reason m' tree' evolves
        exact ⟨J, L, evolves.mono fun _ _ _ nothing => nothing.elim,
          tells_nothing fun _ _ => ⟨rfl, rfl, rfl⟩, fun _ => rfl⟩
      · exact fun _ impossible => impossible.elim
  have fewer := @perform_fewer n ⟨.produce now topic partition records, []⟩
    (fun _ _ _ _ other => by cases other) fun _ other => by
    cases other
  exact ⟨J', L', evolves, tells,
    @Chronicle.step _ _ _ _ _ _ (happen Node.perform n _) chronicle evolves tells fewer.fetchings,
    firm⟩

theorem chronicle_run (small : limit < 2 ^ 31)
    (run : Run Node.perform (SteadyTurn limit) Node.new past n) :
    ∃ J L, Chronicle limit past n J L := by
  refine @Run.invariant _ _ _ _ _ _ _ _ (fun past n => ∃ J L, Chronicle limit past n J L) run
    ⟨_, _, chronicle_new⟩ ?_
  rintro past n turn ⟨J, L, chronicle⟩ steady
  obtain ⟨J', L', _, _, next⟩ := chronicle.advances small steady
  exact ⟨J', L', next⟩

def Call.stamp : Call → Option Int
  | .produce now _ _ _ => some (unixMilli now)
  | _ => none

theorem Chronicle.readable {name : Bytes} {id : Nat} {b : Batch}
    (chronicle : Chronicle limit past n J L)
    (stamped : ∀ event ∈ past, event.input.call.stamp ≠ some (-2 ^ 63))
    (listed : n.tree.Lists name id) (member : b ∈ L name id) : b.Readable := by
  obtain ⟨sender, happened, sends⟩ := chronicle.origin name id listed b member
  have stamp := stamped sender happened
  unfold Call.sends at sends
  split at sends
  · rename_i call
    obtain ⟨_, _, rfl⟩ := sends
    rw [call] at stamp
    exact fun least => stamp (congrArg some least)
  · exact sends.elim

section Healthy

variable {topic : Bytes} {s : Store}

theorem Chronicle.represents {id : Nat} (chronicle : Chronicle limit past n J L)
    (running : n.server = some sv) (found : sv.topicManager.store? topic id = some s)
    (healthy : s.writeFailed = false) :
    n.tree.Lists topic id ∧ Represents limit (J topic id) s (n.tree.partitions topic id) := by
  obtain ⟨listed, tracks⟩ := chronicle.tracks running found
  refine ⟨listed, ?_⟩
  cases tracks with
  | running _ represents => exact represents
  | broken _ _ broken =>
    have failed := broken.writeFailed
    rw [healthy] at failed
    cases failed

theorem Chronicle.journal_readable {id : Nat} (chronicle : Chronicle limit past n J L)
    (stamped : ∀ event ∈ past, event.input.call.stamp ≠ some (-2 ^ 63))
    (listed : n.tree.Lists topic id) :
    ∀ b ∈ (J topic id).batches, b.Readable := by
  intro b member
  obtain ⟨gone, batches, _⟩ := chronicle.streams.stream topic id listed
  exact chronicle.readable stamped listed (by rw [batches]; exact List.mem_append_right _ member)

/-- What a fetch has to answer by the partition's journal. -/
def fetchOf (J : Journal) (req : FetchRequest) : Answer :=
  if req.maxBytes.toNat = 0 then .notFetched .zeroMaxBytes
  else if req.offset.toNat < J.floor ∨ J.logEnd < req.offset.toNat then
    .notFetched (.offsetOutOfRange req.offset.toNat)
  else .fetched req ⟨greedy req.maxBytes.toNat (J.records.drop (req.offset.toNat - J.floor)),
    J.floor, J.logEnd⟩

def fetchAnswer (req : FetchRequest) : Exit FetchError FetchResponse → Answer
  | .ok response => .fetched req response
  | .error reason => .notFetched reason
  | .died => .died

/-- With nothing between its steps a Fetch answers what it answers in one. -/
theorem fetch_answer {partition : UInt32} {offset : UInt64} {maxBytes : UInt32}
    {faults : List Fault} (running : n.server = some sv) :
    (n.fetch topic partition offset maxBytes faults).1 =
      fetchAnswer ⟨topic, partition, offset, maxBytes⟩
      (Broker.fetch topic partition.toNat offset.toNat maxBytes.toNat ⟨sv.topicManager, n.tree,
        faults⟩).1 := by
  unfold Node.fetch Broker.fetch
  rw [perform_fetch running, Node.read]
  dsimp only [Bind.bind, Program.bind]
  rcases readRecords topic partition.toNat offset.toNat maxBytes.toNat ⟨sv.topicManager, n.tree,
    faults⟩ with ⟨exit, after⟩
  cases exit with
  | error reason => rfl
  | died => rfl
  | ok stored =>
    cases resolved : after.memory.getPartition topic partition.toNat with
    | error reason =>
      simp [goOn, Node.settleTopics, fetchingOf, Node.perform, Node.readOffset, resolved, memory,
        Program.throw, fetchAnswer]
    | ok s =>
      simp [goOn, Node.settleTopics, fetchingOf, Node.perform, Node.readOffset, readOffsets,
        resolved, memory, Pure.pure, fetchAnswer]

theorem fetch_healthy {J : Journal} {partition : UInt32} {offset : UInt64} {maxBytes : UInt32}
    (running : n.server = some sv) (found : sv.topicManager.store? topic partition.toNat = some s)
    (represents : Represents limit J s (n.tree.partitions topic partition.toNat))
    (healthy : s.closed = false ∧ s.writeFailed = false) (readable : ∀ b ∈ J.batches, b.Readable) :
    (n.fetch topic partition offset maxBytes []).1 =
      fetchOf J ⟨topic, partition, offset, maxBytes⟩ := by
  rw [fetch_answer running]
  have earliest := represents.earliestOffset
  have logEnd := represents.logEndOffset
  unfold fetchOf
  dsimp only
  split_ifs with zero outside
  · rw [zero]
    rfl
  · rw [fetch_reads zero found]
    have refuses :
        read offset.toNat maxBytes.toNat ⟨s, n.tree.partitions topic partition.toNat, []⟩ =
        (.error .offsetOutOfRange, ⟨s, n.tree.partitions topic partition.toNat, []⟩) := by
      rw [← earliest, ← logEnd] at outside
      unfold Storage.read
      rw [if_neg (by omega)]
      show (if s.closed then throw .storeClosed else if s.writeFailed then throw .storeCorrupt
        else _ : StoreProgram _) _ = _
      rw [healthy.1, healthy.2, if_neg (by simp), if_neg (by simp), if_pos outside]
      rfl
    rw [refuses]
    rfl
  · rw [fetch_reads zero found]
    have gives : settle .found
        (read offset.toNat maxBytes.toNat ⟨s, n.tree.partitions topic partition.toNat, []⟩) = _ :=
      represents.read_gives healthy readable (by omega) (by omega) (by omega)
    rcases ran : read offset.toNat maxBytes.toNat ⟨s, n.tree.partitions topic partition.toNat, []⟩
      with ⟨exit, after⟩
    rw [ran] at gives
    cases exit with
    | error reason => cases gives
    | died => cases gives
    | ok stored =>
      obtain ⟨records, same⟩ := Prod.mk.inj gives
      have store : after.memory = s := Option.some.inj (Storage.Partition.mk.inj same).1
      show Answer.fetched _ ⟨stored, after.memory.earliestOffset, after.memory.logEndOffset⟩ = _
      rw [store, earliest, logEnd, Outcome.found.inj records]

end Healthy

end Node

end MessageBroker.Broker
