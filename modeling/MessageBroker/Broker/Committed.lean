import MessageBroker.Broker.Delivery
import MessageBroker.Broker.Server
import MessageBroker.Offsets.Durable
import MessageBroker.Storage.Exhausted
import MessageBroker.Topics.Journals

namespace MessageBroker.Broker

open Faulty Program Storage Topics Runs
open MessageBroker.Configuration (StorageConfig loadStorage loadStorage_ok defaultStorage)

/-- Every committed offset belongs to a partition that the process has, and is not beyond its
    log. -/
def Behind (n : Node) : Prop :=
  ∀ sv ∈ n.server, ∀ key nextOffset, sv.offsets.offsets.lookup key = some nextOffset →
    ∃ s, sv.topicManager.store? key.topic key.partition.toNat = some s ∧
      nextOffset.toNat ≤ s.logEndOffset

/-- A start's first look at the metadata file does not fail, every start has the same limit for
    batches, and no partition gets more records than there are offsets. -/
def SteadyTurn (limit : Int) (_ : List NodeEvent) (n : Node) (turn : Turn) : Prop :=
  match turn.call with
  | .start _ cfg _ _ => Firm turn.faults ∧ cfg.maxBatchBytes = limit
  | .produce _ topic partition records =>
    ∀ sv ∈ n.server, ∀ s ∈ sv.topicManager.store? topic partition.toNat,
      s.logEndOffset + records.length < 2 ^ 64
  | _ => True

instance (limit : Int) (past : List NodeEvent) (n : Node) :
    ∀ turn, Decidable (SteadyTurn limit past n turn)
  | ⟨.start _ cfg _ _, faults⟩ =>
    inferInstanceAs (Decidable (Firm faults ∧ cfg.maxBatchBytes = limit))
  | ⟨.produce _ topic partition records, _⟩ => inferInstanceAs (Decidable (∀ sv ∈ n.server,
      ∀ s ∈ sv.topicManager.store? topic partition.toNat, s.logEndOffset + records.length < 2 ^ 64))
  | ⟨.kill, _⟩ | ⟨.createTopic _ _ _, _⟩ | ⟨.fetch _ _ _ _, _⟩ | ⟨.readOffset _, _⟩
    | ⟨.retain _ _, _⟩ | ⟨.resolve _, _⟩ | ⟨.validate _, _⟩
  | ⟨.commit _ _, _⟩ => inferInstanceAs (Decidable True)

/-! ## The topics under the handlers -/

section Topics

variable {limit : Int} {J : Bytes → Nat → Journal} {m : Manager} {tree : Tree}

abbrev advancing {ε α : Type} (limit : Int) (J : Bytes → Nat → Journal) (tree : Tree) :
    Post Manager Tree ε α :=
  ⟨fun _ m' tree' => Advances limit J tree ⟨some m', tree'⟩,
    fun _ m' tree' => Advances limit J tree ⟨some m', tree'⟩,
   fun tree' => Advances limit J tree ⟨none, tree'⟩⟩

theorem tolerates_crash (limit : Int) : (crashPolicy limit).Tolerates anything :=
  fun _ _ _ torn => torn

theorem produce_advances {cfg : StorageConfig} {now : Instant} {topic : Bytes} {partition : Nat}
    {records : List Record} (rooted : Rooted limit J ⟨some m, tree⟩) (small : limit < 2 ^ 31)
    (room : ∀ s ∈ m.store? topic partition, s.logEndOffset + records.length < 2 ^ 64) :
    Meets anything (produce cfg now topic partition records) m tree (advancing limit J tree) := by
  unfold Broker.produce
  split_ifs
  · exact Meets.throw rooted.stays
  apply Meets.bind
  apply Meets.memory
  dsimp only
  cases resolved : m.getPartition topic partition with
  | error reason => exact Meets.throw rooted.stays
  | ok s =>
    have found := getPartition_ok.mp resolved
    have tracks := rooted.tracks topic partition
    have admits := rooted.admits topic partition small (.append now records)
    change Tracks _ _ _ _ ⟨m.store? topic partition, _⟩ at tracks
    rw [found] at tracks admits
    cases checkRecords cfg.maxRecordBytes 0 records with
    | error reason => exact Meets.throw rooted.stays
    | ok =>
      apply Meets.bind
      apply Meets.mapError
      refine (rooted.onStore found
        fun faults => tracks.append_follows (fun _ _ => trivial) (tolerates_crash limit)
        (admits s rfl) (room s found)).mono ?_ ?_ ?_
      · exact fun _ _ _ advances => Meets.pure advances
      · exact fun _ _ _ advances => advances
      · exact fun _ advances => advances

theorem readRecords_advances {topic : Bytes} {partition offset maxBytes : Nat}
    (rooted : Rooted limit J ⟨some m, tree⟩) :
    Meets anything (readRecords topic partition offset maxBytes) m tree
      (advancing limit J tree) := by
  unfold readRecords
  split_ifs
  · exact Meets.throw rooted.stays
  apply Meets.bind
  apply Meets.memory
  dsimp only
  cases resolved : m.getPartition topic partition with
  | error reason => exact Meets.throw rooted.stays
  | ok s =>
    have found := getPartition_ok.mp resolved
    have tracks := rooted.tracks topic partition
    change Tracks _ _ _ _ ⟨m.store? topic partition, _⟩ at tracks
    rw [found] at tracks
    apply Meets.mapError
    exact rooted.onStore found fun faults => tracks.read_follows fun _ _ => trivial

theorem retain_advances {now : Instant} {target : Target} (rooted : Rooted limit J ⟨some m, tree⟩) :
    Meets anything
      (onStore target.name target.id (applyRetention now target.maxAge target.maxBytes.toNat)) m
      tree (advancing limit J tree) := by
  cases found : m.store? target.name target.id with
  | none =>
    apply Meets.bind
    apply Meets.memory
    dsimp only
    rw [found]
    exact Meets.die ⟨J, rooted.stop, grows_same rfl⟩
  | some s =>
    have tracks := rooted.tracks target.name target.id
    change Tracks _ _ _ _ ⟨m.store? target.name target.id, _⟩ at tracks
    rw [found] at tracks
    exact rooted.onStore found fun faults => tracks.retention_follows fun _ _ => trivial

end Topics

/-! ## The node -/

/-- The offset belongs to a listed partition and is not beyond its journal. -/
def Reached (tree : Tree) (J : Bytes → Nat → Journal) (key : Offsets.Key) (nextOffset : UInt64) :
    Prop :=
  tree.Lists key.topic key.partition.toNat ∧
    nextOffset.toNat ≤ (J key.topic key.partition.toNat).logEnd

theorem Reached.grows {tree tree' : Tree} {J J' : Bytes → Nat → Journal} {key : Offsets.Key}
    {nextOffset : UInt64} (reached : Reached tree J key nextOffset)
    (grows : Grows tree J tree' J') : Reached tree' J' key nextOffset := by
  obtain ⟨listed, longer⟩ := grows _ _ reached.1
  exact ⟨listed, le_trans reached.2 longer⟩

/-- Whatever was committed, may have been committed or is about to be is within the partitions'
    journals. -/
structure Grounded (limit : Int) (J : Bytes → Nat → Journal) (log : List Offsets.Entry)
    (n : Node) : Prop where
  rooted : Rooted limit J ⟨n.server.map Server.topicManager, n.tree⟩
  offsets : Offsets.Tracks log ⟨n.server.map Server.offsets, n.offsetLog⟩
  entries : ∀ e ∈ log, Reached n.tree J e.key e.nextOffset
  known : ∀ sv ∈ n.server, ∀ key nextOffset, sv.offsets.offsets.lookup key = some nextOffset →
    Reached n.tree J key nextOffset
  handlers : ∀ h ∈ n.handlers, h.stage = .checked → Reached n.tree J h.req.key h.req.nextOffset

def Call.ofCommit : Call → Bool
  | .resolve _ | .validate _ | .commit _ _ => true
  | _ => false

/-- What the steps of CommitOffset leave alone, unless the process dies. -/
inductive Beside (n : Node) : Node → Prop where
  | stays {n' : Node} : n'.server.map Server.topicManager = n.server.map Server.topicManager →
      n'.tree = n.tree → n'.fetches = n.fetches → Beside n n'
  | died (offsetLog : Offsets.Disk) : Beside n (n.stopped n.tree offsetLog)

section Node

variable {limit : Int} {J : Bytes → Nat → Journal} {log : List Offsets.Entry} {n n' : Node}
  {sv : Server} {faults : List Fault}

theorem Beside.tree (beside : Beside n n') : n'.tree = n.tree := by
  cases beside with
  | stays _ tree _ => exact tree
  | died => rfl

theorem perform_beside {turn : Turn} (commits : turn.call.ofCommit = true) :
    Beside n (n.perform turn).2 := by
  obtain ⟨call, faults⟩ := turn
  obtain ⟨server, tree, offsetLog, handlers, fetches⟩ := n
  cases call with
  | resolve req =>
    cases server with
    | none => exact .stays rfl rfl rfl
    | some sv =>
      unfold Node.perform
      dsimp only
      split <;> exact .stays rfl rfl rfl
  | validate i =>
    cases server with
    | none => exact .stays rfl rfl rfl
    | some sv =>
      unfold Node.perform Node.validate
      dsimp only
      repeat' split
      all_goals exact .stays rfl rfl rfl
  | commit i now =>
    cases server with
    | none => exact .stays rfl rfl rfl
    | some sv =>
      unfold Node.perform
      dsimp only
      split
      · rename_i req _
        rcases Offsets.commit now req.key req.nextOffset ⟨sv.offsets, offsetLog, faults⟩
          with ⟨exit, after⟩
        cases exit with
        | ok value => exact .stays rfl rfl rfl
        | error reason => exact .stays rfl rfl rfl
        | died => exact .died _
      · exact .stays rfl rfl rfl
  | _ => cases commits

theorem perform_readOffset {i : Nat} {f : Fetching} (running : n.server = some sv)
    (going : n.fetches[i]? = some (some f)) :
    n.perform ⟨.readOffset i, faults⟩ = n.readOffset sv i f := by
  simp only [Node.perform, running, going]

theorem perform_readOffset_nobody {i : Nat}
    (idle : ∀ sv f, n.server = some sv → n.fetches[i]? ≠ some (some f)) :
    n.perform ⟨.readOffset i, faults⟩ = (.nobody, n) := by
  cases running : n.server with
  | none => simp only [Node.perform, running]
  | some sv =>
    rcases going : n.fetches[i]? with _ | _ | f
    · simp only [Node.perform, running, going]
    · simp only [Node.perform, running, going]
    · exact absurd going (idle sv f running)

/-- A step that reads an offset concerns its fetch and nothing else. -/
theorem readOffset_moves {i : Nat} :
    (n.perform ⟨.readOffset i, faults⟩).2 =
      { n with fetches := (n.perform ⟨.readOffset i, faults⟩).2.fetches } := by
  by_cases goes : ∃ sv f, n.server = some sv ∧ n.fetches[i]? = some (some f)
  · obtain ⟨sv, f, running, going⟩ := goes
    rw [perform_readOffset running going]
    unfold Node.readOffset
    repeat' split
    all_goals rfl
  · rw [perform_readOffset_nobody fun sv f running going => goes ⟨sv, f, running, going⟩]

theorem grounded_new : Grounded limit (fun _ _ => Journal.initial) [] Node.new where
  rooted := rooted_new
  offsets := .stopped ⟨by simp, Or.inl ⟨rfl, rfl⟩⟩
  entries _ nothing := absurd nothing List.not_mem_nil
  known _ nothing := by cases nothing
  handlers _ nothing := absurd nothing List.not_mem_nil

theorem Grounded.behind (grounded : Grounded limit J log n) : Behind n := by
  obtain ⟨server, tree, offsetLog, handlers, fetches⟩ := n
  rintro sv ⟨⟩ key nextOffset found
  obtain ⟨listed, within⟩ := grounded.known sv rfl key nextOffset found
  have rooted : Rooted limit J ⟨some sv.topicManager, tree⟩ := grounded.rooted
  obtain ⟨s, store⟩ := rooted.lists.mp listed
  exact ⟨s, store, by rw [rooted.logEnd store]; exact within⟩

theorem Grounded.stopped {J' : Bytes → Nat → Journal} {tree : Tree} {offsetLog : Offsets.Disk}
    (grounded : Grounded limit J log n) (rooted : Rooted limit J' ⟨none, tree⟩)
    (grows : Grows n.tree J tree J') (holds : Offsets.Holds log offsetLog) :
    Grounded limit J' log (n.stopped tree offsetLog) where
  rooted := rooted
  offsets := .stopped holds
  entries e member := (grounded.entries e member).grows grows
  known _ nothing := by cases nothing
  handlers _ nothing := absurd nothing List.not_mem_nil

theorem Grounded.settleTopics {α ε : Type} {report : α → Answer} {failure : ε → Answer}
    {run : Exit ε α × World Manager Tree} (grounded : Grounded limit J log n)
    (running : n.server = some sv) (met : (advancing limit J n.tree).met run) :
    ∃ J', Grounded limit J' log (n.settleTopics sv report failure run).2 := by
  obtain ⟨server, tree, offsetLog, handlers, fetches⟩ := n
  cases running
  have goesOn : ∀ m' tree', Advances limit J tree ⟨some m', tree'⟩ →
      ∃ J', Grounded limit J' log ⟨some { sv with topicManager := m' }, tree', offsetLog, handlers,
        fetches⟩ := by
    rintro m' tree' ⟨J', rooted, grows⟩
    refine ⟨J', rooted, grounded.offsets, fun e member => (grounded.entries e member).grows grows,
      ?_, fun h member checked => (grounded.handlers h member checked).grows grows⟩
    rintro _ ⟨⟩ key nextOffset found
    exact (grounded.known sv rfl key nextOffset found).grows grows
  obtain ⟨exit, after⟩ := run
  cases exit with
  | ok value => exact goesOn _ _ met
  | error reason => exact goesOn _ _ met
  | died =>
    obtain ⟨J', rooted, grows⟩ := met
    exact ⟨J', grounded.stopped rooted grows grounded.offsets.holds⟩

/-- A process that starts finds the journals and the offset log as the last one left them. -/
theorem Grounded.start {order : MapOrder} {cfg : StorageConfig} {maxAgeSeconds maxBytes : UInt64}
    (grounded : Grounded limit J log n) (firm : Firm faults) (setting : cfg.maxBatchBytes = limit) :
    Grounded limit J log (n.start order cfg maxAgeSeconds maxBytes faults).2 := by
  have holds : Offsets.Holds log n.offsetLog := grounded.offsets.holds
  have rooted : Rooted limit J ⟨none, n.tree⟩ := grounded.rooted.stopped grounded.rooted.standing
  unfold Node.start
  cases loaded : loadStorage cfg with
  | error reason => exact grounded.stopped rooted (grows_same rfl) holds
  | ok config =>
    have sized : config.maxBatchBytes = limit := (loadStorage_ok loaded).2.1.trans setting
    have topics :=
      @Rooted.newManager limit J n.tree _ order config faults grounded.rooted sized firm
    dsimp only
    rcases ran : newManager order config ⟨(), n.tree, faults⟩ with ⟨exit, ⟨⟨⟩, tree, rest⟩⟩
    rw [ran] at topics
    cases exit with
    | error reason => exact grounded.stopped topics.1 (grows_same topics.2) holds
    | died => exact grounded.stopped topics.1 (grows_same topics.2) holds
    | ok m =>
      obtain ⟨opened, same⟩ : Rooted limit J ⟨some m, tree⟩ ∧ tree.metadata = n.tree.metadata :=
        topics
      have grows : Grows n.tree J tree J := grows_same same
      have offsets : Post.met ⟨fun s _ d => Offsets.Represents log s d ∧ s.writeFailed = false,
          fun _ _ d => Offsets.Holds log d, fun d => Offsets.Holds log d⟩
          (Offsets.openStore ⟨(), n.offsetLog, rest⟩) :=
        @Meets.met _ _ _ _ anything _ _ _ _ _ (Offsets.meets_openStore holds
          (fun _ _ represents _ healthy => ⟨represents, healthy⟩) (fun _ _ _ after => after)
          (fun _ _ after => after))
          fun _ _ => trivial
      dsimp only
      rcases ran' : Offsets.openStore ⟨(), n.offsetLog, rest⟩ with ⟨exit', ⟨⟨⟩, offsetLog, rest'⟩⟩
      rw [ran'] at offsets
      cases exit' with
      | error reason =>
        obtain ⟨closed, same'⟩ := @Rooted.close limit J m tree order rest' opened
        exact grounded.stopped closed (grows_same (same'.trans same)) offsets
      | died => exact grounded.stopped opened.stop grows offsets
      | ok store =>
        obtain ⟨represents, healthy⟩ : Offsets.Represents log store offsetLog ∧
            store.writeFailed = false := offsets
        refine ⟨{ opened with topics := ?_, config := ?_, tracks := opened.tracks },
          .running healthy represents, fun e member => (grounded.entries e member).grows grows, ?_,
          fun _ nothing => absurd nothing List.not_mem_nil⟩
        · rintro _ ⟨⟩ name
          exact opened.topics m rfl name
        · rintro _ ⟨⟩
          exact opened.config m rfl
        · rintro _ ⟨⟩ key nextOffset found
          obtain ⟨e, member, rfl, rfl⟩ :=
            Offsets.mem_latest ((represents.offsets key).symm.trans found)
          exact (grounded.entries e member).grows grows

theorem validateCommit_checked {req : CommitRequest} {s : Store} {stage : CommitStage}
    (validated : validateCommit req s stage = .ok .checked) :
    stage = .checked ∨ req.nextOffset.toNat ≤ s.logEndOffset := by
  cases stage with
  | resolved => cases validated
  | readEarliest earliest =>
    unfold validateCommit at validated
    dsimp only at validated
    split_ifs at validated with outside
    exact Or.inr (not_lt.mp fun beyond => outside (Or.inr beyond))
  | checked => exact Or.inl rfl

/-- A handler passes the check with an offset that is within the log, and the log will not get
    shorter. -/
theorem Grounded.validate {i : Nat} {h : Handler} (grounded : Grounded limit J log n)
    (running : n.server = some sv) (here : n.handlers[i]? = some h) :
    Grounded limit J log (n.validate sv i h).2 := by
  obtain ⟨server, tree, offsetLog, handlers, fetches⟩ := n
  cases running
  have rooted : Rooted limit J ⟨some sv.topicManager, tree⟩ := grounded.rooted
  have answered : Grounded limit J log ⟨some sv, tree, offsetLog, handlers.eraseIdx i, fetches⟩ :=
    { grounded with
      handlers := fun h member => grounded.handlers h (List.mem_of_mem_eraseIdx member) }
  unfold Node.validate
  cases resolved : sv.topicManager.getPartition h.req.topic h.req.partition.toNat with
  | error reason => exact answered
  | ok s =>
    have found := getPartition_ok.mp resolved
    dsimp only
    cases validated : validateCommit h.req s h.stage with
    | error reason => exact answered
    | ok stage =>
      refine { grounded with handlers := fun other member checked => ?_ }
      rcases List.mem_or_eq_of_mem_set member with old | rfl
      · exact grounded.handlers other old checked
      · rw [show stage = .checked from checked] at validated
        rcases validateCommit_checked validated with already | within
        · exact grounded.handlers h (List.mem_of_getElem? here) already
        · rw [rooted.logEnd found] at within
          exact ⟨rooted.lists.mpr ⟨s, found⟩, within⟩

theorem commit_adds {before after : Offsets.Session} {now : Instant} {key : Offsets.Key}
    {nextOffset : UInt64} {outcome : Offsets.Outcome} {added : List Offsets.Entry}
    (adds : Offsets.commitLedger.Adds ⟨before, ⟨.commit now key nextOffset, faults⟩, outcome, after⟩
      added) :
    ∀ e ∈ added, e.key = key ∧ e.nextOffset = nextOffset := by
  intro e member
  rcases adds with rfl | ⟨entry, attempted, rfl⟩
  · rw [Option.mem_toList] at member
    change Offsets.committedBy _ = some e at member
    cases outcome <;> cases member
    exact ⟨rfl, rfl⟩
  · rw [List.mem_singleton] at member
    subst member
    change Offsets.attemptedBy _ = some e at attempted
    cases outcome with
    | failed reason =>
      cases reason <;> cases attempted
      exact ⟨rfl, rfl⟩
    | died =>
      cases attempted
      exact ⟨rfl, rfl⟩
    | _ => cases attempted

theorem Grounded.commit {i : Nat} {now : Instant} {req : CommitRequest}
    (grounded : Grounded limit J log n) (running : n.server = some sv)
    (here : n.handlers[i]? = some ⟨req, .checked⟩) :
    ∃ log', Grounded limit J log' (n.settleCommit sv i
      (Offsets.commit now req.key req.nextOffset ⟨sv.offsets, n.offsetLog, faults⟩)).2 := by
  obtain ⟨server, tree, offsetLog, handlers, fetches⟩ := n
  cases running
  have reached := grounded.handlers _ (List.mem_of_getElem? here) rfl
  have tracks : Offsets.Tracks log ⟨some sv.offsets, offsetLog⟩ := grounded.offsets
  obtain ⟨added, adds, after⟩ :=
    (@Offsets.Tracks.commit_follows log sv.offsets offsetLog faults now req.key req.nextOffset
      tracks).adds
  have entries : ∀ e ∈ log ++ added, Reached tree J e.key e.nextOffset := by
    intro e member
    rcases List.mem_append.mp member with old | new
    · exact grounded.entries e old
    · obtain ⟨key, nextOffset⟩ := commit_adds adds e new
      rw [key, nextOffset]
      exact reached
  have memory := @Meets.met _ _ _ _ _ _ _ _ _ faults
    (@Offsets.meets_commit_memory sv.offsets offsetLog now req.key req.nextOffset)
    fun _ _ => trivial
  have goesOn : ∀ store d, Offsets.Tracks (log ++ added) ⟨some store, d⟩ →
      (∀ key nextOffset, store.offsets.lookup key = some nextOffset →
        Reached tree J key nextOffset) →
      Grounded limit J (log ++ added) ⟨some { sv with offsets := store }, tree, d,
        handlers.eraseIdx i, fetches⟩ := by
    refine fun store d tracks' known => ⟨grounded.rooted, tracks', entries, ?_,
      fun h member => grounded.handlers h (List.mem_of_mem_eraseIdx member)⟩
    rintro _ ⟨⟩
    exact known
  refine ⟨log ++ added, ?_⟩
  change Offsets.Tracks (log ++ added)
    (Offsets.settle .committed (Offsets.commit now req.key req.nextOffset
    ⟨sv.offsets, offsetLog, faults⟩)).2 at after
  dsimp only
  rcases ran : Offsets.commit now req.key req.nextOffset ⟨sv.offsets, offsetLog, faults⟩
    with ⟨exit, ⟨store, d, rest⟩⟩
  rw [ran] at after memory
  cases exit with
  | ok value =>
    refine goesOn store d after fun key nextOffset found => ?_
    rw [show store.offsets = sv.offsets.offsets.insert req.key req.nextOffset from memory] at found
    by_cases own : key = req.key
    · subst own
      rw [AList.lookup_insert, Option.some.injEq] at found
      rw [← found]
      exact reached
    · rw [AList.lookup_insert_ne own] at found
      exact grounded.known sv rfl key nextOffset found
  | error reason =>
    refine goesOn store d after fun key nextOffset found => ?_
    rw [show store.offsets = sv.offsets.offsets from memory] at found
    exact grounded.known sv rfl key nextOffset found
  | died =>
    have rooted : Rooted limit J ⟨some sv.topicManager, tree⟩ := grounded.rooted
    exact ⟨rooted.stop, after, entries, (fun _ nothing => by cases nothing),
      fun _ nothing => absurd nothing List.not_mem_nil⟩

theorem Grounded.resolve {req : CommitRequest} {stage : CommitStage}
    (grounded : Grounded limit J log n) (resolved : resolveCommit req sv.topicManager = .ok stage) :
    Grounded limit J log { n with handlers := n.handlers ++ [⟨req, stage⟩] } := by
  have first : stage = .resolved := by
    unfold resolveCommit at resolved
    split_ifs at resolved
    split at resolved
    · cases resolved
    · cases resolved
      rfl
  refine { grounded with handlers := fun h member checked => ?_ }
  rcases List.mem_append.mp member with old | new
  · exact grounded.handlers h old checked
  · rw [List.mem_singleton.mp new, first] at checked
    cases checked

/-- The journals and the offset log behind a run. -/
def GroundedState (limit : Int) (n : Node) : Prop := ∃ J log, Grounded limit J log n

theorem GroundedState.follows {past : List NodeEvent} {turn : Turn} (small : limit < 2 ^ 31)
    (state : GroundedState limit n) (steady : SteadyTurn limit past n turn) :
    GroundedState limit (n.perform turn).2 := by
  obtain ⟨J, log, grounded⟩ := state
  obtain ⟨call, faults⟩ := turn
  obtain ⟨server, tree, offsetLog, handlers, fetches⟩ := n
  cases call with
  | start order cfg maxAgeSeconds maxBytes => exact ⟨J, log, grounded.start steady.1 steady.2⟩
  | kill =>
    refine ⟨J, log, grounded.stopped ?_ (grows_same rfl) grounded.offsets.holds⟩
    exact grounded.rooted.stopped grounded.rooted.standing
  | createTopic name partitionCount retention =>
    cases server with
    | none => exact ⟨J, log, grounded⟩
    | some sv =>
      have rooted : Rooted limit J ⟨some sv.topicManager, tree⟩ := grounded.rooted
      obtain ⟨J', after⟩ := grounded.settleTopics rfl (rooted.createTopic.met fun _ _ => trivial)
      exact ⟨J', log, after⟩
  | produce now topic partition records =>
    cases server with
    | none => exact ⟨J, log, grounded⟩
    | some sv =>
      obtain ⟨J', after⟩ := grounded.settleTopics rfl
        ((produce_advances grounded.rooted small (steady sv rfl)).met fun _ _ => trivial)
      exact ⟨J', log, after⟩
  | fetch topic partition offset maxBytes =>
    cases server with
    | none => exact ⟨J, log, grounded⟩
    | some sv =>
      obtain ⟨J', after⟩ :=
        @Grounded.settleTopics limit J log _ sv _ _ (fun _ => .waits) .notFetched _ grounded rfl
        ((readRecords_advances grounded.rooted).met fun _ _ => trivial)
      exact ⟨J', log, { after with }⟩
  | readOffset i =>
    rw [readOffset_moves]
    exact ⟨J, log, { grounded with }⟩
  | retain now target =>
    cases server with
    | none => exact ⟨J, log, grounded⟩
    | some sv =>
      obtain ⟨J', after⟩ :=
        grounded.settleTopics rfl ((retain_advances grounded.rooted).met fun _ _ => trivial)
      exact ⟨J', log, after⟩
  | resolve req =>
    cases server with
    | none => exact ⟨J, log, grounded⟩
    | some sv =>
      refine ⟨J, log, ?_⟩
      cases resolved : resolveCommit req sv.topicManager with
      | error reason => simpa only [Node.perform, resolved] using grounded
      | ok stage => simpa only [Node.perform, resolved] using grounded.resolve resolved
  | validate i =>
    cases server with
    | none => exact ⟨J, log, grounded⟩
    | some sv =>
      cases here : handlers[i]? with
      | none =>
        refine ⟨J, log, ?_⟩
        simpa only [Node.perform, here] using grounded
      | some h =>
        refine ⟨J, log, ?_⟩
        simpa only [Node.perform, here] using grounded.validate rfl here
  | commit i now =>
    cases server with
    | none => exact ⟨J, log, grounded⟩
    | some sv =>
      by_cases here : ∃ req, handlers[i]? = some ⟨req, .checked⟩
      · obtain ⟨req, here⟩ := here
        obtain ⟨log', after⟩ := @Grounded.commit limit J log _ sv faults i now req grounded rfl here
        refine ⟨J, log', ?_⟩
        simpa only [Node.perform, here] using after
      · have nobody :
          Node.perform ⟨some sv, tree, offsetLog, handlers, fetches⟩ ⟨.commit i now, faults⟩ =
            (.nobody, ⟨some sv, tree, offsetLog, handlers, fetches⟩) := by
          unfold Node.perform
          dsimp only
          split
          · rename_i req found
            exact absurd ⟨req, found⟩ here
          · rfl
        rw [nobody]
        exact ⟨J, log, grounded⟩

theorem groundedState_run {past : List NodeEvent} (small : limit < 2 ^ 31)
    (run : Run Node.perform (SteadyTurn limit) Node.new past n) : GroundedState limit n := by
  have first : GroundedState limit Node.new := ⟨_, _, grounded_new⟩
  exact @Run.invariant _ _ _ _ _ _ _ _ (fun _ n => GroundedState limit n) run first
    fun _ _ _ state steady => state.follows small steady

/-- Whatever fails, dies or is retried, no committed offset is beyond its partition's log. -/
theorem committed_behind {past : List NodeEvent} (small : limit < 2 ^ 31)
    (run : Run Node.perform (SteadyTurn limit) Node.new past n) : Behind n := by
  obtain ⟨J, log, grounded⟩ := groundedState_run small run
  exact grounded.behind

/-- While one handler validates its offset, an append fails in its flush; another handler's commit
    dies behind its write, and the next process has both. -/
theorem committed_behind_restarted :
    let start : Turn := ⟨.start .inOrder defaultStorage 0 0, []⟩
    let produce (faults : List Fault) : Turn :=
      ⟨.produce 5000000 [97] 0 [⟨none, some [97], [], 0⟩], faults⟩
    let history := execute Node.perform [] Node.new
      [start, ⟨.createTopic [97] 1 ⟨0, 0⟩, []⟩, produce [], ⟨.resolve ⟨[103], [97], 0, 1⟩, []⟩,
        ⟨.validate 0, []⟩,
       produce [.pass, .pass, .fail 0], ⟨.resolve ⟨[104], [97], 0, 2⟩, []⟩, ⟨.validate 0, []⟩,
       ⟨.commit 0 6000000, []⟩, ⟨.validate 0, []⟩, ⟨.validate 0, []⟩,
       ⟨.commit 0 6000000, [.pass, .die 0]⟩, start]
    (∀ sv ∈ history.2.server, sv.offsets.offsets.lookup ⟨[103], [97], 0⟩ = some 1 ∧
      sv.offsets.offsets.lookup ⟨[104], [97], 0⟩ = some 2) ∧
      history.2.server.isSome ∧ Behind history.2 :=
  ⟨by decide +kernel, by decide +kernel,
    @committed_behind 5242880 _ _ (by decide) (run_execute .start (by decide +kernel))⟩

end Node

/-! ## Where offsets get ahead -/

section Overtaking

variable {limit : Int} {J : Bytes → Nat → Journal} {log : List Offsets.Entry} {n : Node}
  {sv : Server} {s s' : Store} {d : Directory} {topic : Bytes} {partition : UInt32} {now : Instant}
  {records : List Record} {value : Nat × Nat}

theorem perform_produce (running : n.server = some sv)
    (found : sv.topicManager.store? topic partition.toNat = some s)
    (nonempty : records ≠ [])
    (checked : checkRecords sv.storageCfg.maxRecordBytes 0 records = .ok ())
    {rest : List Fault}
    (ran : append now records ⟨s, n.tree.partitions topic partition.toNat, []⟩ =
      (.ok value, ⟨s', d, rest⟩)) :
    (n.perform ⟨.produce now topic partition records, []⟩).2 = { n with
      server := Option.some
        { sv with topicManager := sv.topicManager.setStore topic partition.toNat s' }
      tree := n.tree.setPartition topic partition.toNat d } := by
  obtain ⟨server, tree, offsetLog, handlers, fetches⟩ := n
  cases running
  show (Node.settleTopics _ sv .produced .notProduced
    (produce sv.storageCfg now topic partition.toNat records
    ⟨sv.topicManager, tree, []⟩)).2 = _
  rw [produce_appends nonempty found checked, ran]
  rfl

theorem Grounded.represents {id : Nat} (grounded : Grounded limit J log n)
    (running : n.server = some sv) (found : sv.topicManager.store? topic id = some s)
    (healthy : s.writeFailed = false) :
    s.config.maxBatchBytes = limit ∧
      Represents limit (J topic id) s (n.tree.partitions topic id) := by
  obtain ⟨server, tree, offsetLog, handlers, fetches⟩ := n
  cases running
  have tracks := grounded.rooted.tracks topic id
  change Tracks _ _ _ _ ⟨sv.topicManager.store? topic id, tree.partitions topic id⟩ at tracks
  rw [found] at tracks
  cases tracks with
  | running setting represents => exact ⟨setting, represents⟩
  | broken _ _ broken =>
    have failed := broken.writeFailed
    rw [healthy] at failed
    cases failed

theorem Grounded.produce (grounded : Grounded limit J log n) (running : n.server = some sv)
    (found : sv.topicManager.store? topic partition.toNat = some s)
    (takes : s.Takes ⟨unixMilli now, records⟩)
    (checked : checkRecords sv.storageCfg.maxRecordBytes 0 records = .ok ())
    (bound : s.config.segmentMaxBytes < segmentBytesBound) (small : limit < 2 ^ 31)
    (room : s.logEndOffset + records.length < 2 ^ 64) :
    ∃ s' d, (n.perform ⟨.produce now topic partition records, []⟩).2 = { n with
        server := Option.some
          { sv with topicManager := sv.topicManager.setStore topic partition.toNat s' }
        tree := n.tree.setPartition topic partition.toNat d } ∧
      Keeps s s' ∧ s'.logEndOffset = s.logEndOffset + records.length := by
  obtain ⟨setting, represents⟩ := grounded.represents running found takes.2.2.1
  rw [represents.logEndOffset] at room ⊢
  rcases @Represents.append_quiet _ _ _ _ now records represents (le_of_eq setting) small bound room
    with
    ⟨reason, refused, _⟩ | ⟨s', d, ran, after, keeps⟩
  · exact absurd takes refused.not_takes
  replace ran : settle _ (append now records ⟨s, n.tree.partitions topic partition.toNat, []⟩) =
      _ := ran
  rcases inner : append now records ⟨s, n.tree.partitions topic partition.toNat, []⟩
    with ⟨exit, ⟨s'', d'', rest⟩⟩
  rw [inner] at ran
  cases exit with
  | error reason => cases ran
  | died => cases ran
  | ok value =>
    obtain ⟨_, same⟩ := Prod.mk.inj ran
    cases same
    refine ⟨_, _, perform_produce running found takes.1 checked inner, keeps, ?_⟩
    rw [after.logEndOffset, Journal.push_logEnd]

/-- The four steps of a handler that nobody disturbs. -/
theorem execute_commit {req : CommitRequest} {store : Offsets.Store} {offsetLog : Offsets.Disk}
    {rest : List Fault} (running : n.server = some sv) (nothing : n.handlers = [])
    (group : req.consumerGroup ≠ [])
    (found : sv.topicManager.store? req.topic req.partition.toNat = some s)
    (low : s.earliestOffset ≤ req.nextOffset.toNat) (high : req.nextOffset.toNat ≤ s.logEndOffset)
    (committed : Offsets.commit now req.key req.nextOffset ⟨sv.offsets, n.offsetLog, []⟩ =
      (.ok (), ⟨store, offsetLog, rest⟩))
    (past : List NodeEvent) :
    (execute Node.perform past n [⟨.resolve req, []⟩, ⟨.validate 0, []⟩, ⟨.validate 0, []⟩,
      ⟨.commit 0 now, []⟩]).2 =
      { n with server := some { sv with offsets := store }, offsetLog } := by
  obtain ⟨server, tree, before, handlers, fetches⟩ := n
  cases running
  cases nothing
  have resolved := getPartition_ok.mpr found
  have inside : ¬ (req.nextOffset.toNat < s.earliestOffset ∨
      s.logEndOffset < req.nextOffset.toNat) := by omega
  have step₁ : Node.perform ⟨some sv, tree, before, [], fetches⟩ ⟨.resolve req, []⟩ =
      (.waits, ⟨some sv, tree, before, [⟨req, .resolved⟩], fetches⟩) := by
    simp [Node.perform, resolveCommit, group, resolved]
  have step₂ : Node.perform ⟨some sv, tree, before, [⟨req, .resolved⟩], fetches⟩ ⟨.validate 0, []⟩ =
      (.waits, ⟨some sv, tree, before, [⟨req, .readEarliest s.earliestOffset⟩], fetches⟩) := by
    simp [Node.perform, Node.validate, resolved, validateCommit]
  have step₃ : Node.perform ⟨some sv, tree, before, [⟨req, .readEarliest s.earliestOffset⟩],
      fetches⟩ ⟨.validate 0, []⟩ =
      (.waits, ⟨some sv, tree, before, [⟨req, .checked⟩], fetches⟩) := by
    simp [Node.perform, Node.validate, resolved, validateCommit, inside]
  have step₄ : Node.perform ⟨some sv, tree, before, [⟨req, .checked⟩], fetches⟩ ⟨.commit 0 now,
      []⟩ =
      (.committed, ⟨some { sv with offsets := store }, tree, offsetLog, [], fetches⟩) := by
    simp [Node.perform, committed, Node.settleCommit]
  simp only [execute, step₁, step₂, step₃, step₄]

def asyncStorage : StorageConfig := { defaultStorage with flushMode := "async" }

/-- A node with one topic of one partition that has taken `count` batches of `size` records. -/
structure Filling (size count : Nat) (n : Node) (sv : Server) (s : Store) : Prop where
  server : n.server = some sv
  found : sv.topicManager.store? [97] 0 = some s
  running : s.closed = false ∧ s.writeFailed = false
  config : s.config = ⟨134217728, 5242880, 4096, .async⟩
  logEnd : s.logEndOffset = count * size
  cfg : sv.storageCfg = asyncStorage
  offsets : sv.offsets.closed = false ∧ sv.offsets.writeFailed = false
  handlers : n.handlers = []

theorem checkRecords_empty (i count : Nat) :
    checkRecords 1048576 i (List.replicate count emptyRecord) = .ok () := by
  induction count generalizing i with
  | zero => rfl
  | succ count ih =>
    rw [List.replicate_succ, checkRecords, if_neg (by decide)]
    exact ih (i + 1)

section Filling

variable {size count : Nat} (nonempty : 0 < size) (fits : 33 + 24 * size ≤ 5242880)

include nonempty fits

theorem Filling.takes (filling : Filling size count n sv s) :
    s.Takes ⟨unixMilli 5000000, List.replicate size emptyRecord⟩ := by
  refine ⟨?_, filling.running.1, filling.running.2, ?_⟩
  · rw [← List.length_pos_iff, List.length_replicate]
    exact nonempty
  · rw [empty_size _ nonempty, filling.config]
    dsimp only
    omega

theorem filling_run (room : count * size < 2 ^ 64) :
    ∃ past n sv s,
      Run Node.perform (fun past n turn => SteadyTurn 5242880 past n turn ∧ turn.faults = [])
        Node.new past n ∧
      Filling size count n sv s := by
  induction count with
  | zero =>
    let history := execute Node.perform [] Node.new
      [⟨.start .inOrder asyncStorage 0 0, []⟩, ⟨.createTopic [97] 1 ⟨0, 0⟩, []⟩]
    have started : history.2.server.isSome ∧ history.2.handlers = [] := by decide +kernel
    have facts : ∀ sv ∈ history.2.server, sv.storageCfg = asyncStorage ∧ sv.offsets.closed = false ∧
        sv.offsets.writeFailed = false ∧ (sv.topicManager.store? [97] 0).isSome ∧
        ∀ s ∈ sv.topicManager.store? [97] 0, s.closed = false ∧ s.writeFailed = false ∧
          s.config = ⟨134217728, 5242880, 4096, .async⟩ ∧ s.logEndOffset = 0 := by decide +kernel
    obtain ⟨sv, here⟩ := Option.isSome_iff_exists.mp started.1
    obtain ⟨cfg, opened, healthy, present, store⟩ := facts sv here
    obtain ⟨s, found⟩ := Option.isSome_iff_exists.mp present
    obtain ⟨closed, running, config, logEnd⟩ := store s found
    exact ⟨history.1, history.2, sv, s, run_execute .start (by decide +kernel), here, found,
      ⟨closed, running⟩, config, by rw [logEnd, Nat.zero_mul], cfg, ⟨opened, healthy⟩, started.2⟩
  | succ count ih =>
    rw [Nat.succ_mul] at room
    obtain ⟨past, n, sv, s, run, filling⟩ := ih (by omega)
    have takes := filling.takes nonempty fits
    have length : (List.replicate size emptyRecord).length = size := List.length_replicate
    obtain ⟨J, log, grounded⟩ := groundedState_run (by decide) (run.mono fun _ _ _ both => both.1)
    obtain ⟨s', d, ran, keeps, logEnd⟩ :=
      @Grounded.produce 5242880 J log n sv s [97] 0 5000000 _ grounded filling.server
      filling.found takes (by rw [filling.cfg]; exact checkRecords_empty _ _)
      (by rw [filling.config]; decide) (by decide) (by rw [filling.logEnd, length]; exact room)
    have steady : SteadyTurn 5242880 past n
        ⟨.produce 5000000 [97] 0 (List.replicate size emptyRecord), []⟩ := by
      rintro sv' here s'' found
      rw [filling.server, Option.mem_some_iff] at here
      subst here
      rw [show sv.topicManager.store? [97] (0 : UInt32).toNat = Option.some s from filling.found,
        Option.mem_some_iff] at found
      subst found
      rw [filling.logEnd, length]
      exact room
    have next := Run.step run ⟨steady, rfl⟩
    rw [ran] at next
    refine ⟨_, _, _, s', next, rfl, store?_setStore_self filling.found,
      ⟨keeps.closed.trans filling.running.1, keeps.writeFailed.trans filling.running.2⟩,
      keeps.config.trans filling.config, ?_, filling.cfg, filling.offsets, filling.handlers⟩
    rw [logEnd, filling.logEnd, length, Nat.succ_mul]

omit nonempty fits in
theorem Filling.commits {past : List NodeEvent} (filling : Filling size count n sv s)
    (room : s.logEndOffset < 2 ^ 64)
    (run : Run Node.perform (fun past n turn => SteadyTurn 5242880 past n turn ∧ turn.faults = [])
      Node.new past n) :
    ∃ past' n' sv',
      Run Node.perform (fun past n turn => SteadyTurn 5242880 past n turn ∧ turn.faults = [])
        Node.new past' n' ∧
      Filling size count n' sv' s ∧
      sv'.offsets.offsets.lookup ⟨[103], [97], 0⟩ = Option.some (UInt64.ofNat s.logEndOffset) := by
  obtain ⟨J, log, grounded⟩ := groundedState_run (by decide) (run.mono fun _ _ _ both => both.1)
  obtain ⟨server, tree, offsetLog, handlers, fetches⟩ := n
  obtain ⟨running, found, healthy, config, logEnd, cfg, ⟨opened, sound⟩, nothing⟩ := filling
  cases running
  let req : CommitRequest := ⟨[103], [97], 0, UInt64.ofNat s.logEndOffset⟩
  have next : req.nextOffset.toNat = s.logEndOffset := UInt64.toNat_ofNat_of_lt room
  have low : s.earliestOffset ≤ s.logEndOffset := by
    obtain ⟨final, start⟩ := (grounded.rooted.tracks [97] 0).offsets found
    rw [final, start]
    exact Nat.le_add_right _ _
  have tracks : Offsets.Tracks log ⟨Option.some sv.offsets, offsetLog⟩ := grounded.offsets
  have commits : Meets never (Offsets.commit 6000000 req.key req.nextOffset) sv.offsets offsetLog
      ⟨fun _ s' _ => s'.offsets.lookup req.key = Option.some req.nextOffset ∧
        s'.closed = false ∧ s'.writeFailed = false,
       fun _ _ _ => False, fun _ => False⟩ := by
    cases tracks with
    | broken failed _ => simp [sound] at failed
    | running _ represents =>
      refine Offsets.meets_commit represents (fun bad => ?_) (fun bad => ?_) (fun closed => ?_)
        (fun failed => ?_) ?_ ?_ ?_
      · change Offsets.invalidName [103] Offsets.maxConsumerGroupBytes = true at bad
        exact absurd bad (by decide)
      · change Offsets.invalidName [97] Offsets.maxTopicNameBytes = true at bad
        exact absurd bad (by decide)
      · simp [opened] at closed
      · simp [sound] at failed
      · intro _ _ s' d' after opened' sound'
        refine ⟨?_, opened', sound'⟩
        rw [after.offsets, Offsets.latest_append, if_pos rfl]
      · exact fun shaky => absurd shaky not_shaky_never
      · exact fun shaky => absurd shaky not_shaky_never
  obtain ⟨_, store, disk, committed, known, opened', sound'⟩ :=
    commits.succeeds (fun _ _ _ impossible => impossible) (fun _ impossible => impossible)
  have after := @execute_commit _ sv s 6000000 req store disk [] rfl nothing (List.cons_ne_nil _ _)
    found (by rw [next]; exact low) (le_of_eq next) committed past
  have admitted :
      Admitted Node.perform (fun past n turn => SteadyTurn 5242880 past n turn ∧ turn.faults = [])
        past
      ⟨Option.some sv, tree, offsetLog, handlers, fetches⟩
      [⟨.resolve req, []⟩, ⟨.validate 0, []⟩, ⟨.validate 0, []⟩, ⟨.commit 0 6000000, []⟩] :=
    ⟨⟨trivial, rfl⟩, ⟨trivial, rfl⟩, ⟨trivial, rfl⟩, ⟨trivial, rfl⟩, trivial⟩
  have again := run_execute run admitted
  rw [after] at again
  exact ⟨_, _, _, again, ⟨rfl, found, healthy, config, logEnd, cfg, ⟨opened', sound'⟩, nothing⟩,
    known⟩

/-- The last offset of the log is handed out, and the log's end starts again at zero. -/
theorem overtaken (last : (count + 1) * size = 2 ^ 64) :
    ∃ past n, Run Node.perform (fun _ _ turn => turn.faults = []) Node.new past n ∧ ¬ Behind n := by
  rw [Nat.succ_mul] at last
  obtain ⟨past₀, n₀, sv₀, s, run₀, filling₀⟩ := @filling_run size count nonempty fits (by omega)
  have room : s.logEndOffset < 2 ^ 64 := by
    rw [filling₀.logEnd]
    omega
  obtain ⟨past, n, sv, run, filling, known⟩ := filling₀.commits room run₀
  obtain ⟨J, log, grounded⟩ := groundedState_run (by decide) (run.mono fun _ _ _ both => both.1)
  have takes := filling.takes nonempty fits
  have length : (List.replicate size emptyRecord).length = size := List.length_replicate
  obtain ⟨server, tree, offsetLog, handlers, fetches⟩ := n
  cases filling.server
  obtain ⟨_, represents⟩ := grounded.represents rfl filling.found takes.2.2.1
  obtain ⟨value, s', d, ran, zero⟩ :=
    @Represents.append_last _ _ _ _ ⟨unixMilli 5000000, List.replicate size emptyRecord⟩
    5000000 represents rfl (by rw [filling.config]) (by rw [filling.config]; decide) takes
    (by rw [← represents.logEndOffset, filling.logEnd, length]; exact last)
  have produced :=
    @perform_produce ⟨Option.some sv, tree, offsetLog, handlers, fetches⟩ sv s s' d [97] 0 5000000
    (List.replicate size emptyRecord) value rfl filling.found takes.1
    (by rw [filling.cfg]; exact checkRecords_empty _ _) [] ran
  have healthy :
      Run Node.perform (fun _ _ turn => turn.faults = []) Node.new past ⟨Option.some sv, tree,
        offsetLog, handlers, fetches⟩ :=
    run.mono fun _ _ _ both => both.2
  have final := @Run.step _ _ _ _ _ _ _ _
    ⟨.produce 5000000 [97] 0 (List.replicate size emptyRecord), []⟩ healthy rfl
  rw [produced] at final
  refine ⟨_, _, final, fun behind => ?_⟩
  obtain ⟨s'', found, within⟩ := behind _ rfl _ _ known
  rw [show Manager.store? _ [97] (0 : UInt32).toNat = Option.some s'
    from store?_setStore_self filling.found,
    Option.some.injEq] at found
  have wraps : (UInt64.ofNat s.logEndOffset).toNat = s.logEndOffset := UInt64.toNat_ofNat_of_lt room
  rw [← found, zero, wraps, filling.logEnd] at within
  omega

end Filling

/-- A partition that has used up its offsets starts again at zero, below what was committed. And a
    start that is misled about the metadata file has the committed offset but not the topic; when a
    creation of the topic fails then, the next one gives it an empty log. -/
theorem committed_ahead :
    let start (faults : List Fault) : Turn := ⟨.start .inOrder defaultStorage 0 0, faults⟩
    let create (faults : List Fault) : Turn := ⟨.createTopic [97] 1 ⟨0, 0⟩, faults⟩
    let restarted := execute Node.perform [] Node.new
      [start [], create [], ⟨.produce 5000000 [97] 0 [⟨none, some [97], [], 0⟩], []⟩,
        ⟨.resolve ⟨[103], [97], 0, 1⟩, []⟩,
       ⟨.validate 0, []⟩, ⟨.validate 0, []⟩, ⟨.commit 0 6000000, []⟩, start [.fail 0]]
    let recreated := execute Node.perform restarted.1 restarted.2 [create [.fail 0], create []]
    (∃ past n, Run Node.perform (fun _ _ turn => turn.faults = []) Node.new past n ∧ ¬ Behind n) ∧
      ¬ Behind restarted.2 ∧ ¬ Behind recreated.2 := by
  intro start create restarted recreated
  have committed : ∀ sv ∈ restarted.2.server, sv.offsets.offsets.lookup ⟨[103], [97], 0⟩ = some 1 ∧
      sv.topicManager.store? [97] 0 = none := by decide +kernel
  have still : ∀ sv ∈ recreated.2.server, sv.offsets.offsets.lookup ⟨[103], [97], 0⟩ = some 1 ∧
      (sv.topicManager.store? [97] 0).map Store.logEndOffset = some 0 := by decide +kernel
  have running : restarted.2.server.isSome ∧ recreated.2.server.isSome := by decide +kernel
  obtain ⟨sv, here⟩ := Option.isSome_iff_exists.mp running.1
  obtain ⟨sv', here'⟩ := Option.isSome_iff_exists.mp running.2
  refine ⟨@overtaken 131072 (2 ^ 47 - 1) (by decide) (by decide) (by decide), fun behind => ?_,
    fun behind => ?_⟩
  · obtain ⟨s, found, _⟩ := behind sv here _ _ (committed sv here).1
    rw [show sv.topicManager.store? [97] (0 : UInt32).toNat = none from (committed sv here).2]
      at found
    cases found
  · obtain ⟨s, found, within⟩ := behind sv' here' _ _ (still sv' here').1
    have zero := (still sv' here').2
    rw [show sv'.topicManager.store? [97] 0 = some s from found, Option.map_some, Option.some.injEq]
      at zero
    rw [zero] at within
    exact absurd within (by decide)

end Overtaking
end MessageBroker.Broker
