import MessageBroker.Broker.Promises
import MessageBroker.Broker.Restart
import MessageBroker.Broker.Isolation

namespace MessageBroker.Broker

open Faulty Program Storage Topics Runs

/-! ## FetchCommittedOffset -/

inductive CommittedError where
  | emptyGroup
  | notResolved (reason : TopicError)
  | storeUnavailable (reason : Offsets.OffsetError)
  | fetchFailed (reason : Offsets.OffsetError)
  deriving Repr

def CommittedError.code : CommittedError → Code
  | .emptyGroup => .invalidArgument
  | .notResolved reason => resolveCode reason
  | .storeUnavailable _ => .unavailable
  | .fetchFailed _ => .internal

def CommittedError.text : CommittedError → String
  | .emptyGroup => "consumer_group cannot be empty"
  | .notResolved reason => resolveText reason
  | .storeUnavailable _ => "offset store is currently unavailable"
  | .fetchFailed _ => "failed to fetch committed offset"

def committedError : Offsets.OffsetError → CommittedError
  | .storeUnavailable => .storeUnavailable .storeUnavailable
  | .storeClosed => .storeUnavailable .storeClosed
  | reason => .fetchFailed reason

/-- `none` for a response with `Found` unset. -/
def fetchCommittedOffset (sv : Server) (key : Offsets.Key) :
    Except CommittedError (Option UInt64) :=
  if key.group = [] then .error .emptyGroup
  else
    match sv.topicManager.getPartition key.topic key.partition.toNat with
    | .error reason => .error (.notResolved reason)
    | .ok _ =>
      match sv.offsets.get key with
      | .error reason => .error (committedError reason)
      | .ok nextOffset => .ok nextOffset

/-! ## What a consumer can rely on -/

section Consumers

variable {limit : Int} {J : Bytes → Nat → Journal} {log log' : List Offsets.Entry} {n n' : Node}
  {sv : Server} {past more : List NodeEvent} {faults : List Fault} {key : Offsets.Key}

/-- Logs that the same file holds agree on what was committed last. -/
theorem latest_unique {d : Offsets.Disk} (holds : Offsets.Holds log d)
    (holds' : Offsets.Holds log' d) (key : Offsets.Key) :
    Offsets.latest log key = Offsets.latest log' key := by
  obtain ⟨store, d', opened, known⟩ := offsets_open holds
  obtain ⟨store', d'', opened', known'⟩ := offsets_open holds'
  rw [opened] at opened'
  cases opened'
  rw [← known, known']

theorem latest_others {added : List Offsets.Entry} (others : ∀ e ∈ added, e.key ≠ key) :
    Offsets.latest (log ++ added) key = Offsets.latest log key := by
  induction added using List.reverseRecOn with
  | nil => rw [List.append_nil]
  | append_singleton added e ih =>
    rw [← List.append_assoc, Offsets.latest_append, if_neg (others e (by simp))]
    exact ih fun e' member => others e' (List.mem_append_left _ member)

/-- A commit puts its own entry behind the offset log or nothing; one that was acknowledged has put
    it there. -/
theorem commit_holds {i : Nat} {now : Instant} {req : CommitRequest}
    (grounded : Grounded limit J log n) (running : n.server = some sv) :
    ∃ added, Offsets.Holds (log ++ added) (n.settleCommit sv i
        (Offsets.commit now req.key req.nextOffset ⟨sv.offsets, n.offsetLog, faults⟩)).2.offsetLog ∧
      (∀ e ∈ added, e.key = req.key) ∧
      ((n.settleCommit sv i
        (Offsets.commit now req.key req.nextOffset ⟨sv.offsets, n.offsetLog, faults⟩)).1 =
        .committed →
        Offsets.latest (log ++ added) req.key = some req.nextOffset) := by
  obtain ⟨server, tree, offsetLog, handlers, fetches⟩ := n
  cases running
  have tracks : Offsets.Tracks log ⟨some sv.offsets, offsetLog⟩ := grounded.offsets
  obtain ⟨added, adds, after⟩ :=
    (@Offsets.Tracks.commit_follows log sv.offsets offsetLog faults now req.key req.nextOffset
      tracks).adds
  have own := commit_adds adds
  refine ⟨added, ?_, fun e member => (own e member).1, ?_⟩
  · have holds := after.holds
    change Offsets.Holds (log ++ added)
      (Offsets.settle .committed (Offsets.commit now req.key req.nextOffset
      ⟨sv.offsets, offsetLog, faults⟩)).2.disk at holds
    dsimp only
    rcases ran : Offsets.commit now req.key req.nextOffset ⟨sv.offsets, offsetLog, faults⟩
      with ⟨exit, after⟩
    rw [ran] at holds
    cases exit <;> exact holds
  · intro committed
    change Offsets.commitLedger.Adds ⟨⟨some sv.offsets, offsetLog⟩,
      ⟨.commit now req.key req.nextOffset, faults⟩,
      (Offsets.settle .committed
        (Offsets.commit now req.key req.nextOffset ⟨sv.offsets, offsetLog, faults⟩)).1,
      (Offsets.settle .committed
        (Offsets.commit now req.key req.nextOffset ⟨sv.offsets, offsetLog, faults⟩)).2⟩ added
        at adds
    dsimp only at committed
    rcases ran : Offsets.commit now req.key req.nextOffset ⟨sv.offsets, offsetLog, faults⟩
      with ⟨exit, after⟩
    rw [ran] at adds committed
    cases exit with
    | ok value =>
      rcases adds with rfl | ⟨entry, attempted, _⟩
      · exact (Offsets.latest_append log _ _).trans (if_pos rfl)
      · cases attempted
    | error reason => cases committed
    | died => cases committed

def Turn.commits (turn : Turn) (n : Node) : Option Offsets.Key :=
  match turn.call with
  | .commit i _ => n.handlers[i]?.map fun h => h.req.key
  | _ => none

/-- The latest entry of the key in the offset log. -/
def Remembers (limit : Int) (key : Offsets.Key) (nextOffset : UInt64) (n : Node) : Prop :=
  ∃ J log, Grounded limit J log n ∧ Offsets.latest log key = some nextOffset

/-- What is committed for a key stays so until the next commit for it, whatever fails or dies. -/
theorem Remembers.follows {nextOffset : UInt64} {turn : Turn} (small : limit < 2 ^ 31)
    (remembers : Remembers limit key nextOffset n) (steady : SteadyTurn limit past n turn)
    (other : turn.commits n ≠ some key) : Remembers limit key nextOffset (n.perform turn).2 := by
  obtain ⟨J, log, grounded, known⟩ := remembers
  obtain ⟨J', log', grounded'⟩ := GroundedState.follows small ⟨J, log, grounded⟩ steady
  refine ⟨J', log', grounded', ?_⟩
  -- it is enough that some log the file holds has the entry
  suffices stays : ∃ log'', Offsets.Holds log'' (n.perform turn).2.offsetLog ∧
    Offsets.latest log'' key = some nextOffset by
    obtain ⟨log'', holds, known'⟩ := stays
    rw [latest_unique grounded'.offsets.holds holds, known']
  have holds : Offsets.Holds log n.offsetLog := grounded.offsets.holds
  obtain ⟨call, faults⟩ := turn
  cases call with
  | start order cfg maxAgeSeconds maxBytes =>
    exact ⟨log, (grounded.start steady.1 steady.2).offsets.holds, known⟩
  | commit i now =>
    obtain ⟨server, tree, offsetLog, handlers, fetches⟩ := n
    cases server with
    | none => exact ⟨log, holds, known⟩
    | some sv =>
      by_cases here : ∃ req, handlers[i]? = some ⟨req, .checked⟩
      · obtain ⟨req, here⟩ := here
        obtain ⟨added, holds', own, _⟩ :=
          @commit_holds limit J log _ sv faults i now req grounded rfl
        have differs : req.key ≠ key := by
          intro same
          simp [Turn.commits, here, same] at other
        refine ⟨log ++ added, ?_, ?_⟩
        · simpa only [Node.perform, here] using holds'
        · rw [latest_others fun e member => by rw [own e member]; exact differs]
          exact known
      · refine ⟨log, ?_, known⟩
        unfold Node.perform
        dsimp only
        split
        · rename_i req found
          exact absurd ⟨req, found⟩ here
        · exact holds
  | _ =>
    refine ⟨log, ?_, known⟩
    rw [(perform_isolated grounded.rooted.whole).offsetLog (by simp) (by simp)]
    exact holds

theorem remembers_committed {i : Nat} {now : Instant} {req : CommitRequest} (small : limit < 2 ^ 31)
    (run : Run Node.perform (SteadyTurn limit) Node.new past n)
    (here : n.handlers[i]? = some ⟨req, .checked⟩)
    (committed : (n.perform ⟨.commit i now, faults⟩).1 = .committed) :
    req.consumerGroup ≠ [] ∧
      Remembers limit req.key req.nextOffset (n.perform ⟨.commit i now, faults⟩).2 := by
  have state := groundedState_run small run
  obtain ⟨J', log', grounded'⟩ :=
    @GroundedState.follows limit n past ⟨.commit i now, faults⟩ small state trivial
  obtain ⟨J, log, grounded⟩ := state
  obtain ⟨server, tree, offsetLog, handlers, fetches⟩ := n
  cases server with
  | none => cases committed
  | some sv =>
    have performed :
        Node.perform ⟨some sv, tree, offsetLog, handlers, fetches⟩ ⟨.commit i now, faults⟩ =
        Node.settleCommit ⟨some sv, tree, offsetLog, handlers, fetches⟩ sv i
          (Offsets.commit now req.key req.nextOffset ⟨sv.offsets, offsetLog, faults⟩) := by
      simp only [Node.perform, show handlers[i]? = _ from here]
    obtain ⟨added, holds, _, latest⟩ := @commit_holds limit J log _ sv faults i now req grounded rfl
    rw [performed] at committed grounded' ⊢
    refine ⟨fun empty => ?_, J', log', grounded', ?_⟩
    · have refused : Offsets.commit now req.key req.nextOffset ⟨sv.offsets, offsetLog, faults⟩ =
          (.error .invalidGroup, ⟨sv.offsets, offsetLog, faults⟩) := by
        unfold Offsets.commit
        rw [if_pos (by simp [CommitRequest.key, empty, Offsets.invalidName])]
        rfl
      rw [refused] at committed
      cases committed
    · rw [latest_unique grounded'.offsets.holds holds, latest committed]

/-- An acknowledged commit is what the group is told, by this process or a later one, until the next
    commit for its key is tried. -/
theorem commit_remembered {sv' : Server} {i : Nat} {now : Instant} {req : CommitRequest}
    (small : limit < 2 ^ 31) (run : Run Node.perform (SteadyTurn limit) Node.new past n)
    (here : n.handlers[i]? = some ⟨req, .checked⟩)
    (committed : (n.perform ⟨.commit i now, faults⟩).1 = .committed)
    (stretch : Run Node.perform (SteadyTurn limit) (n.perform ⟨.commit i now, faults⟩).2 more n')
    (others : ∀ event ∈ more, event.input.commits event.before ≠ some req.key)
    (running : n'.server = some sv')
    (healthy : sv'.offsets.closed = false ∧ sv'.offsets.writeFailed = false) :
    fetchCommittedOffset sv' req.key = .ok (some req.nextOffset) := by
  obtain ⟨named, first⟩ := remembers_committed small run here committed
  have stays : Remembers limit req.key req.nextOffset n' := by
    refine @Run.invariant _ _ _ _ _ _ _ _
      (fun more n' => (∀ event ∈ more, event.input.commits event.before ≠ some req.key) →
      Remembers limit req.key req.nextOffset n') stretch (fun _ => first) ?_ others
    intro more n₁ turn remembers steady others
    refine (remembers fun event member => others event (List.mem_append_left _ member)).follows
      small steady ?_
    exact others _ (List.mem_append_right _ (List.mem_singleton_self _))
  obtain ⟨J, log, grounded, known⟩ := stays
  obtain ⟨e, member, own, _⟩ := Offsets.mem_latest known
  obtain ⟨listed, _⟩ := grounded.entries e member
  have rooted : Rooted limit J ⟨some sv'.topicManager, n'.tree⟩ := by
    have rooted := grounded.rooted
    rwa [running] at rooted
  rw [own] at listed
  obtain ⟨s, found⟩ := rooted.lists.mp listed
  unfold fetchCommittedOffset
  rw [if_neg (show req.key.group ≠ [] from named), getPartition_ok.mpr found]
  simp [Offsets.Store.get, healthy, grounded.latest running healthy.2, known]


def Answer.isCommitted : Answer → Bool
  | .committed => true
  | _ => false

theorem Answer.eq_committed {answer : Answer} (committed : answer.isCommitted = true) :
    answer = .committed := by
  cases answer with
  | committed => rfl
  | _ => cases committed

/-- The process is killed behind the commit; another group commits, and a commit of the same group
    for the other partition dies. -/
theorem commit_remembered_restarted :
    let start : Turn := ⟨.start .inOrder Configuration.defaultStorage 0 0, []⟩
    let req : CommitRequest := ⟨[103], [97], 0, 1⟩
    let history := execute Node.perform [] Node.new
      [start, ⟨.createTopic [97] 2 ⟨0, 0⟩, []⟩, ⟨.produce 5000000 [97] 0 [⟨none, some [1], [], 0⟩],
        []⟩, ⟨.resolve req, []⟩,
       ⟨.validate 0, []⟩, ⟨.validate 0, []⟩]
    let later := execute Node.perform [] (history.2.perform ⟨.commit 0 6000000, []⟩).2
      [⟨.kill, []⟩, start, ⟨.resolve ⟨[104], [97], 0, 0⟩, []⟩, ⟨.validate 0, []⟩, ⟨.validate 0, []⟩,
        ⟨.commit 0 7000000, []⟩,
       ⟨.resolve ⟨[103], [97], 1, 0⟩, []⟩, ⟨.validate 0, []⟩, ⟨.validate 0, []⟩,
       ⟨.commit 0 7000000, [.die 9]⟩, start]
    later.2.server.isSome ∧
      ∀ sv ∈ later.2.server, fetchCommittedOffset sv ⟨[103], [97], 0⟩ = .ok (some 1) := by
  intro start req history later
  refine ⟨by decide +kernel, fun sv running => ?_⟩
  have healthy :
      ∀ sv ∈ later.2.server, sv.offsets.closed = false ∧ sv.offsets.writeFailed = false := by
        decide +kernel
  have committed : (history.2.perform ⟨.commit 0 6000000, []⟩).1 = .committed :=
    Answer.eq_committed (by decide +kernel)
  exact @commit_remembered 5242880 history.2 later.2 history.1 later.1 [] sv 0 6000000 req
    (by decide) (run_execute .start (by decide +kernel)) (by decide +kernel) committed
    (run_execute .start (by decide +kernel)) (by decide +kernel) running (healthy sv running)

/-- Whatever a consumer was given it can commit: the offset behind a delivered record passes the
    check of the boundaries as long as retention had not gone past it when the handler read the
    first one. -/
theorem consumed_committable {event : NodeEvent} {r : StoredRecord} {i earliest : Nat}
    {req : CommitRequest} (small : limit < 2 ^ 31)
    (run : Run Node.perform (SteadyTurn limit) Node.new past n) (running : n.server = some sv)
    (member : event ∈ past) (reported : r ∈ reportedAt event req.topic req.partition.toNat)
    (next : req.nextOffset.toNat = r.offset + 1)
    (here : n.handlers[i]? = some ⟨req, .readEarliest earliest⟩)
    (kept : earliest ≤ req.nextOffset.toNat) :
    n.perform ⟨.validate i, faults⟩ =
      (.waits, { n with handlers := n.handlers.set i ⟨req, .checked⟩ }) := by
  obtain ⟨J, L, chronicle⟩ := chronicle_run small run
  obtain ⟨listed, place⟩ := chronicle.told event member req.topic req.partition.toNat r reported
  have inside := (List.getElem?_eq_some_iff.mp place).1
  rw [storedFrom_length, chronicle.streams.logEnd listed] at inside
  obtain ⟨server, tree, offsetLog, handlers, fetches⟩ := n
  cases running
  have rooted : Rooted limit J ⟨some sv.topicManager, tree⟩ := chronicle.rooted
  obtain ⟨s, found⟩ := rooted.lists.mp listed
  have logEnd := rooted.logEnd found
  have accepted : validateCommit req s (.readEarliest earliest) = .ok .checked := by
    unfold validateCommit
    dsimp only
    rw [if_neg (by omega)]
  simp only [Node.perform, show handlers[i]? = _ from here, Node.validate,
    getPartition_ok.mpr found, accepted]

/-- The log goes on and retention passes over it between the two reads of the handler. -/
theorem consumed_committable_retained :
    let req : CommitRequest := ⟨[103], [97], 0, 1⟩
    let history := execute Node.perform [] Node.new
      [⟨.start .inOrder Configuration.defaultStorage 0 0, []⟩, ⟨.createTopic [97] 1 ⟨0, 0⟩, []⟩,
       ⟨.produce 5000000 [97] 0 [⟨none, some [1], [], 0⟩], []⟩, ⟨.fetch [97] 0 0 10, []⟩,
       ⟨.readOffset 0, []⟩, ⟨.readOffset 0, []⟩, ⟨.resolve req, []⟩, ⟨.validate 0, []⟩,
       ⟨.produce 6000000 [97] 0 [⟨none, some [2], [], 0⟩], []⟩,
       ⟨.retain 9000000 ⟨[97], 0, 1, 1⟩, []⟩]
    history.2.perform ⟨.validate 0, []⟩ =
      (.waits, { history.2 with handlers := history.2.handlers.set 0 ⟨req, .checked⟩ }) := by
  intro req history
  obtain ⟨sv, running⟩ : ∃ sv, history.2.server = some sv :=
    Option.isSome_iff_exists.mp (by decide +kernel)
  obtain ⟨event, member, reported⟩ : ∃ event ∈ history.1,
      ⟨0, 5, none, some [1], []⟩ ∈ reportedAt event [97] 0 := by
    decide +kernel
  exact @consumed_committable 5242880 _ sv _ [] event ⟨0, 5, none, some [1], []⟩ 0 0 req (by decide)
    (run_execute .start (by decide +kernel)) running member reported (by decide) (by decide +kernel)
    (by decide)

end Consumers

end MessageBroker.Broker
