import Mathlib.Algebra.BigOperators.Group.List.Basic
import Mathlib.Algebra.Order.Group.Int
import Mathlib.Data.List.Nodup
import MessageBroker.Bench.Consumer

namespace MessageBroker.Bench

open Runs

theorem int64_emod (value : Int) : int64 value % 2 ^ 64 = value % 2 ^ 64 := Int.bmod_emod

theorem sum_map_set {α M : Type} [AddCommMonoid M] (f : α → M) {items : List α} {i : Nat} {old : α}
    (new : α) (here : items[i]? = some old) :
    ((items.set i new).map f).sum + f old = (items.map f).sum + f new := by
  induction items generalizing i with
  | nil => cases here
  | cons item rest ih =>
    cases i with
    | zero =>
      cases here
      simp only [List.set_cons_zero, List.map_cons, List.sum_cons]
      ac_rfl
    | succ i =>
      have tail := ih (i := i) (by simpa using here)
      simp only [List.set_cons_succ, List.map_cons, List.sum_cons, add_assoc, tail]

/-! ## What a worker still owes the counters -/

@[simp] def Note.fetchedRecords : Note → Nat
  | .fetched records => records
  | _ => 0

@[simp] def Note.claimedRecords : Note → Nat
  | .claimed records _ => records
  | _ => 0

@[simp] def Note.acceptedRecords : Note → Int
  | .claimed _ accepted => accepted
  | _ => 0

/-- Records that have not been through `claimConsumed`. -/
@[simp] def Stage.unclaimed : Stage → Nat
  | .claiming b | .swapping b _ => b.records.length
  | _ => 0

@[simp] def Stage.unobserved : Stage → Nat
  | .claiming b | .swapping b _ | .observing b _ => b.records.length
  | _ => 0

/-- The overshoot that is decided but not yet added. -/
@[simp] def Stage.owed : Stage → Int
  | .observing b accepted | .overshooting b accepted => b.records.length - accepted
  | _ => 0

/-- A worker swaps only below the target. -/
@[simp] def Stage.Below (target : Int) : Stage → Prop
  | .swapping _ current => current < target
  | _ => True

/-- What `claimConsumed` did to the counter in one step, and what it took of the records. -/
inductive Claim (target counted : Int) : (records : Nat) → (accepted counted' : Int) → Prop where
  | nothing : Claim target counted 0 0 counted
  | reached (records : Nat) (full : target ≤ counted) : Claim target counted records 0 counted
  | took (records : Nat) (room : counted < target) :
      Claim target counted records (accepts target (int64 records) counted)
        (int64 (counted + accepts target (int64 records) counted))

/-- The balance that one step keeps, up to the wraparound of the counters. -/
structure Moves (c : ConsumerBench) (sh sh' : Shared) (stage stage' : Stage) (note : Note) :
    Prop where
  below : stage'.Below c.target
  claims : note.claimedRecords + stage'.unclaimed = stage.unclaimed + note.fetchedRecords
  claim : Claim c.target sh.countedRecords note.claimedRecords note.acceptedRecords
    sh'.countedRecords
  observes : (sh'.observedRecords + stage'.unobserved) % 2 ^ 64 =
    (sh.observedRecords + stage.unobserved + note.fetchedRecords) % 2 ^ 64
  overshoots : (sh'.overshootRecords + stage'.owed) % 2 ^ 64 =
    (sh.overshootRecords + stage.owed + note.claimedRecords - note.acceptedRecords) % 2 ^ 64
  observed : int64 sh.observedRecords = sh.observedRecords →
    int64 sh'.observedRecords = sh'.observedRecords
  overshot : int64 sh.overshootRecords = sh.overshootRecords →
    int64 sh'.overshootRecords = sh'.overshootRecords

theorem int64_int64 (value : Int) : int64 (int64 value) = int64 value :=
  int64_of_range (int64_range value).1 (int64_range value).2

section Step

variable {c : ConsumerBench} {sh sh' : Shared} {stage stage' : Stage} {note : Note}

structure Stage.Settled (stage : Stage) : Prop where
  claimed : stage.unclaimed = 0
  observed : stage.unobserved = 0
  overshot : stage.owed = 0

theorem settled_of_idle (idle : stage.Idle) : stage.Settled := by
  cases stage <;> first
    | exact ⟨rfl, rfl, rfl⟩
    | cases idle

theorem below_of_idle (idle : stage.Idle) (target : Int) : stage.Below target := by
  cases stage <;> first
    | exact trivial
    | cases idle

theorem Moves.idle (before : stage.Settled) (idle : stage'.Idle)
    (counted : sh'.countedRecords = sh.countedRecords)
    (observed : sh'.observedRecords = sh.observedRecords)
    (overshot : sh'.overshootRecords = sh.overshootRecords) :
    Moves c sh sh' stage stage' .nothing := by
  have after := settled_of_idle idle
  refine ⟨below_of_idle idle _, ?_, ?_, ?_, ?_, ?_, ?_⟩
  · rw [before.claimed, after.claimed]
    rfl
  · rw [counted]
    exact .nothing
  · rw [before.observed, after.observed, observed]
    simp
  · rw [before.overshot, after.overshot, overshot]
    simp
  · rw [observed]
    exact id
  · rw [overshot]
    exact id

theorem afterFetch_idle (partID currentOffset : Nat) (records : List FetchedRecord)
    (logEndOffset : Nat) :
    (c.afterFetch partID currentOffset records logEndOffset).Idle := by
  unfold ConsumerBench.afterFetch
  dsimp only
  split_ifs <;> rfl

theorem onReply_moves {partID currentOffset : Nat} {r : Reply}
    (replied : c.onReply sh partID currentOffset r = (note, sh', stage')) :
    Moves c sh sh' (.fetching partID currentOffset) stage' note := by
  unfold ConsumerBench.onReply at replied
  split at replied <;> dsimp only at replied
  · split_ifs at replied <;> cases replied <;> exact .idle ⟨rfl, rfl, rfl⟩ rfl rfl rfl rfl
  · split_ifs at replied
    · cases replied
      exact .idle ⟨rfl, rfl, rfl⟩ (afterFetch_idle _ _ _ _) rfl rfl rfl
    · split at replied
      · cases replied
        exact .idle ⟨rfl, rfl, rfl⟩ rfl rfl rfl rfl
      · cases replied
        exact ⟨trivial, by simp, .nothing, by simp, by simp, id, id⟩

/-- One case for each step that touches the counters of records; the others are between two
    fetches. -/
theorem advance_moves {act : Act} (below : stage.Below c.target)
    (advanced : c.advance sh stage act = some (note, sh', stage')) :
    Moves c sh sh' stage stage' note := by
  unfold ConsumerBench.advance at advanced
  split at advanced
  · split at advanced <;> cases advanced <;> exact .idle ⟨rfl, rfl, rfl⟩ rfl rfl rfl rfl
  · split_ifs at advanced
    cases advanced
    exact .idle ⟨rfl, rfl, rfl⟩ rfl rfl rfl rfl
  · split_ifs at advanced <;> cases advanced <;> exact .idle ⟨rfl, rfl, rfl⟩ rfl rfl rfl rfl
  · exact onReply_moves (Option.some.inj advanced)
  · cases advanced
    exact .idle ⟨rfl, rfl, rfl⟩ rfl rfl rfl rfl
  · split_ifs at advanced
    cases advanced
    exact .idle ⟨rfl, rfl, rfl⟩ rfl rfl rfl rfl
  next b =>
    split_ifs at advanced with full <;> cases advanced
    · exact ⟨trivial, by simp, .reached _ full, by simp, by simp, id, id⟩
    · exact ⟨not_le.mp full, by simp, .nothing, by simp, by simp, id, id⟩
  next b current =>
    split_ifs at advanced with same <;> cases advanced
    · subst same
      exact ⟨trivial, by simp, .took _ below, by simp, by simp; omega, id, id⟩
    · exact ⟨trivial, by simp, .nothing, by simp, by simp, id, id⟩
  next b accepted =>
    cases advanced
    have added := int64_emod (sh.observedRecords + b.numRecords)
    have length := int64_emod b.records.length
    unfold FetchedBatch.numRecords at added ⊢
    exact ⟨trivial, by simp,
      .nothing, by simp only [Stage.unobserved, Note.fetchedRecords]; omega, by simp,
      fun _ => int64_int64 _, id⟩
  next b accepted =>
    cases advanced
    have added := int64_emod (sh.overshootRecords + int64 (b.numRecords - accepted))
    have difference := int64_emod (b.numRecords - accepted)
    have length := int64_emod b.records.length
    unfold FetchedBatch.numRecords at added difference ⊢
    exact ⟨trivial, by simp, .nothing, by simp,
      by simp only [Stage.owed, Note.claimedRecords, Note.acceptedRecords]; omega, id,
      fun _ => int64_int64 _⟩
  next b accepted =>
    cases advanced
    exact .idle ⟨rfl, rfl, rfl⟩ (afterFetch_idle _ _ _ _) rfl rfl rfl
  · cases advanced

end Step

/-! ## Whole runs -/

section Run

variable {c : ConsumerBench} {past : List BenchEvent} {s : Workers}

def fetchedTotal (past : List BenchEvent) : Nat :=
  (past.map fun event => event.outcome.fetchedRecords).sum

def claimedTotal (past : List BenchEvent) : Nat :=
  (past.map fun event => event.outcome.claimedRecords).sum

def acceptedTotal (past : List BenchEvent) : Int :=
  (past.map fun event => event.outcome.acceptedRecords).sum

/-- Below the range of `int64` the counter is the claimed records, cut off at the target. -/
theorem Claim.exact {target counted counted' accepted : Int} {records claimed : Nat}
    (claim : Claim target counted records accepted counted')
    (before : counted = min (max target 0) claimed) (fits : claimed + records < 2 ^ 63) :
    counted' = counted + accepted ∧
      counted' = min (max target 0) ((claimed + records : Nat) : Int) := by
  cases claim with
  | nothing => exact ⟨by omega, by simpa using before⟩
  | reached _ full => exact ⟨by omega, by omega⟩
  | took _ room =>
    have small : int64 records = records := int64_of_range (by omega) (by omega)
    have sum : int64 (counted + records) = counted + records := int64_of_range (by omega) (by omega)
    unfold accepts
    rw [small, sum]
    split_ifs with exceeds
    · have rest : int64 (target - counted) = target - counted :=
        int64_of_range (by omega) (by omega)
      rw [rest, int64_of_range (by omega) (by omega)]
      exact ⟨by omega, by omega⟩
    · rw [sum]
      exact ⟨by omega, by omega⟩

/-- What the counters are at any point of a run. -/
structure Balanced (c : ConsumerBench) (past : List BenchEvent) (s : Workers) : Prop where
  below : ∀ stage ∈ s.stages, stage.Below c.target
  claims : claimedTotal past + (s.stages.map Stage.unclaimed).sum = fetchedTotal past
  counts : fetchedTotal past < 2 ^ 63 →
    s.shared.countedRecords = acceptedTotal past ∧
      s.shared.countedRecords = min (max c.target 0) (claimedTotal past)
  observes : (s.shared.observedRecords + (s.stages.map Stage.unobserved).sum) % 2 ^ 64 =
    fetchedTotal past % 2 ^ 64
  overshoots : (s.shared.overshootRecords + (s.stages.map Stage.owed).sum) % 2 ^ 64 =
    (claimedTotal past - acceptedTotal past) % 2 ^ 64
  observed : int64 s.shared.observedRecords = s.shared.observedRecords
  overshot : int64 s.shared.overshootRecords = s.shared.overshootRecords

theorem balanced_start (c : ConsumerBench) (partitions : List Nat) :
    Balanced c [] (c.start partitions) := by
  have waiting : ∀ stage ∈ (c.start partitions).stages, stage = .waiting :=
    fun stage => List.eq_of_mem_replicate
  refine ⟨fun stage member => by rw [waiting stage member]; trivial, ?_, ?_, ?_, ?_, rfl, rfl⟩
  all_goals simp [ConsumerBench.start, fetchedTotal, claimedTotal, acceptedTotal]

theorem Balanced.moved {i : Nat} {stage stage' : Stage} {sh' : Shared} {event : BenchEvent}
    (balanced : Balanced c past s) (here : s.stages[i]? = some stage)
    (moves : Moves c s.shared sh' stage stage' event.outcome) :
    Balanced c (past ++ [event]) ⟨sh', s.stages.set i stage'⟩ := by
  have unclaimed := sum_map_set Stage.unclaimed stage' here
  have unobserved := sum_map_set Stage.unobserved stage' here
  have owed := sum_map_set Stage.owed stage' here
  have fetched :
      fetchedTotal (past ++ [event]) = fetchedTotal past + event.outcome.fetchedRecords := by
    simp [fetchedTotal]
  have claimed :
      claimedTotal (past ++ [event]) = claimedTotal past + event.outcome.claimedRecords := by
    simp [claimedTotal]
  have accepted :
      acceptedTotal (past ++ [event]) = acceptedTotal past + event.outcome.acceptedRecords := by
    simp [acceptedTotal]
  have claims := balanced.claims
  have moved := moves.claims
  constructor
  · intro stage'' member
    rcases List.mem_or_eq_of_mem_set member with old | rfl
    · exact balanced.below _ old
    · exact moves.below
  · rw [fetched, claimed]
    dsimp only
    omega
  · intro fits
    rw [fetched] at fits
    rw [claimed, accepted]
    obtain ⟨sum, limited⟩ := balanced.counts (by omega)
    obtain ⟨added, limited'⟩ := moves.claim.exact limited (by omega)
    exact ⟨by rw [added, sum], limited'⟩
  · have before := balanced.observes
    have step := moves.observes
    rw [fetched]
    dsimp only
    omega
  · have before := balanced.overshoots
    have step := moves.overshoots
    rw [claimed, accepted]
    dsimp only
    omega
  · exact moves.observed balanced.observed
  · exact moves.overshot balanced.overshot

theorem Balanced.quiet {event : BenchEvent} (balanced : Balanced c past s)
    (nothing : event.outcome = .nothing) :
    Balanced c (past ++ [event]) s := by
  have fetched : fetchedTotal (past ++ [event]) = fetchedTotal past := by
    simp [fetchedTotal, nothing]
  have claimed : claimedTotal (past ++ [event]) = claimedTotal past := by
    simp [claimedTotal, nothing]
  have accepted : acceptedTotal (past ++ [event]) = acceptedTotal past := by
    simp [acceptedTotal, nothing]
  exact ⟨balanced.below, by rw [fetched, claimed]; exact balanced.claims,
    by rw [fetched, claimed, accepted]; exact balanced.counts,
    by rw [fetched]; exact balanced.observes,
    by rw [claimed, accepted]; exact balanced.overshoots, balanced.observed, balanced.overshot⟩

theorem balanced_run {partitions : List Nat}
    (run : Run c.perform (fun _ _ _ => True) (c.start partitions) past s) : Balanced c past s := by
  apply run.invariant (balanced_start c partitions)
  intro past s step balanced _
  unfold happen ConsumerBench.perform
  cases here : s.stages[step.worker]? with
  | none => exact balanced.quiet rfl
  | some stage =>
    dsimp only
    cases advanced : c.advance s.shared stage step.act with
    | none => exact balanced.quiet rfl
    | some result =>
      obtain ⟨note, sh', stage'⟩ := result
      exact balanced.moved here
        (advance_moves (balanced.below _ (List.mem_of_getElem? here)) advanced)

theorem sum_idle {M : Type} [AddMonoid M] {stages : List Stage} (f : Stage → M)
    (idle : ∀ stage ∈ stages, stage.Idle) (nothing : ∀ stage, stage.Settled → f stage = 0) :
    (stages.map f).sum = 0 := by
  apply List.sum_eq_zero
  intro owed made
  obtain ⟨stage, member, rfl⟩ := List.mem_map.mp made
  exact nothing stage (settled_of_idle (idle stage member))

/-- Where no worker is in the middle of a fetch and the records fit an `int64`, the counters are
    exact. -/
theorem Balanced.settled (balanced : Balanced c past s) (idle : ∀ stage ∈ s.stages, stage.Idle)
    (fits : fetchedTotal past < 2 ^ 63) :
    s.shared.observedRecords = fetchedTotal past ∧ s.shared.countedRecords = acceptedTotal past ∧
      s.shared.countedRecords = min (max c.target 0) (fetchedTotal past) ∧
      s.shared.overshootRecords = fetchedTotal past - s.shared.countedRecords := by
  have unclaimed := sum_idle Stage.unclaimed idle fun _ settled => settled.claimed
  have unobserved := sum_idle Stage.unobserved idle fun _ settled => settled.observed
  have owed := sum_idle Stage.owed idle fun _ settled => settled.overshot
  have claims := balanced.claims
  obtain ⟨accepted, limited⟩ := balanced.counts fits
  have observes := balanced.observes
  have overshoots := balanced.overshoots
  have observedRange := int64_range s.shared.observedRecords
  have overshotRange := int64_range s.shared.overshootRecords
  rw [balanced.observed] at observedRange
  rw [balanced.overshot] at overshotRange
  omega

end Run

/-! ## The two modes -/

section Modes

variable {flags : ConsumerFlags} {c : ConsumerBench} {partitions : List Nat}
  {past : List BenchEvent} {s : Workers}

theorem newConsumerBench_mode (made : newConsumerBench flags = .ok c) :
    0 < c.duration ∨ 0 < c.target := by
  unfold newConsumerBench at made
  split_ifs at made
  cases made
  dsimp only
  omega

/-- In count mode the counters say what they are documented to say. In duration mode, where the
    count is documented as ignored, they do only as long as no more is fetched than the count. -/
theorem consumer_accounting (made : newConsumerBench flags = .ok c)
    (run : Run c.perform (fun _ _ _ => True) (c.start partitions) past s)
    (idle : ∀ stage ∈ s.stages, stage.Idle) (fits : fetchedTotal past < 2 ^ 63) :
    (s.shared.observedRecords = s.shared.countedRecords + s.shared.overshootRecords ∧
      s.shared.countedRecords = acceptedTotal past ∧
      (c.duration = 0 → s.shared.countedRecords = min c.target s.shared.observedRecords) ∧
      (0 < c.duration → s.shared.countedRecords = s.shared.observedRecords)) ↔
    (0 < c.duration → fetchedTotal past ≤ c.target ∨ fetchedTotal past = 0) := by
  have mode := newConsumerBench_mode made
  obtain ⟨observed, accepted, limited, overshot⟩ := (balanced_run run).settled idle fits
  constructor
  · rintro ⟨_, _, _, whole⟩ timed
    have same := whole timed
    omega
  · intro few
    refine ⟨by omega, accepted, fun counting => by omega, fun timed => ?_⟩
    have within := few timed
    omega

def accountFor (worker : Nat) (records : List FetchedRecord) (logEndOffset : Nat) :
    List WorkerStep :=
  [⟨worker, .takePartition⟩, ⟨worker, .check false false⟩,
    ⟨worker, .reply (.response records logEndOffset)⟩, ⟨worker, .load⟩, ⟨worker, .compareAndSwap⟩,
    ⟨worker, .addObserved⟩, ⟨worker, .addOvershoot⟩, ⟨worker, .addBytes⟩]

/-- Two workers fetch two records each for a target of three. The second reads the counter before
    the first has changed it, so its first swap fails and its second accepts one record. -/
theorem consumer_accounting_contended :
    let c : ConsumerBench := ⟨"t", -1, 3, 0, 1000, 2, 0⟩
    let history := execute c.perform [] (c.start [0, 1])
      [⟨1, .takePartition⟩, ⟨1, .check false false⟩, ⟨1, .reply (.response [⟨0, 10⟩, ⟨1, 10⟩] 2)⟩,
       ⟨0, .takePartition⟩, ⟨0, .check false false⟩, ⟨0, .reply (.response [⟨0, 10⟩, ⟨1, 10⟩] 2)⟩,
       ⟨0, .load⟩, ⟨1, .load⟩, ⟨0, .compareAndSwap⟩, ⟨1, .compareAndSwap⟩, ⟨1, .load⟩,
       ⟨1, .compareAndSwap⟩, ⟨1, .addObserved⟩, ⟨0, .addObserved⟩, ⟨0, .addOvershoot⟩,
       ⟨1, .addOvershoot⟩, ⟨1, .addBytes⟩, ⟨0, .addBytes⟩]
    history.2.shared.observedRecords = 4 ∧
      history.2.shared.countedRecords = min 3 history.2.shared.observedRecords := by
  intro c history
  have run : Run c.perform (fun _ _ _ => True) (c.start [0, 1]) history.1 history.2 :=
    run_execute .start (by decide)
  have precise :=
    (@consumer_accounting ⟨"t", -1, true, 3, 0, 1000, 2, 0⟩ c _ _ _ (by decide +kernel) run
    (by decide +kernel) (by decide +kernel)).mpr (by decide +kernel)
  exact ⟨by decide +kernel, precise.2.2.1 rfl⟩

/-- Fifteen seconds with a count of one: the benchmark reports one record where it has fetched
    two. -/
theorem duration_mode_capped :
    let c : ConsumerBench := ⟨"t", -1, 1, 15000000000, 1000, 4, 0⟩
    let history :=
      execute c.perform [] (c.start [0])
        (accountFor 0 [⟨0, 10⟩, ⟨1, 10⟩] 2 ++ [⟨0, .check true false⟩])
    newConsumerBench ⟨"t", -1, true, 1, 15000000000, 1000, 4, 0⟩ = .ok c ∧
      Run c.perform (fun _ _ _ => True) (c.start [0]) history.1 history.2 ∧
      history.2.stages = [.returned] ∧
      c.result history.2.shared = .ok ⟨1, 2, 1, 1, 1⟩ ∧
      history.2.shared.countedRecords ≠ history.2.shared.observedRecords := by
  intro c history
  exact ⟨by decide +kernel, run_execute .start (by decide), by decide +kernel, by decide +kernel,
    by decide +kernel⟩

end Modes

/-! ## Who reads which partition -/

section Partitions

variable {c : ConsumerBench} {sh sh' : Shared} {stage stage' : Stage} {note : Note}
  {partitions : List Nat} {past : List BenchEvent} {s : Workers}

def Stage.held : Stage → List Nat
  | .checking partID _ | .fetching partID _ | .polling partID _ => [partID]
  | .claiming b | .swapping b _ | .observing b _ | .overshooting b _ | .weighing b _ => [b.partID]
  | .waiting | .returned => []

/-- The partitions in the workers' hands and those that are left in the channel. -/
def Workers.outstanding (s : Workers) : List Nat :=
  s.stages.flatMap Stage.held ++ s.shared.partitionChan

theorem count_outstanding (partID : Nat) :
    s.outstanding.count partID =
      (s.stages.map fun stage => stage.held.count partID).sum +
        s.shared.partitionChan.count partID := by
  rw [Workers.outstanding, List.count_append, List.count_flatMap]
  rfl

theorem afterFetch_held (partID currentOffset : Nat) (records : List FetchedRecord)
    (logEndOffset : Nat) :
    (c.afterFetch partID currentOffset records logEndOffset).held.Sublist [partID] := by
  unfold ConsumerBench.afterFetch
  dsimp only
  split_ifs <;> simp [Stage.held]

theorem onReply_held {partID currentOffset : Nat} {r : Reply}
    (replied : c.onReply sh partID currentOffset r = (note, sh', stage')) :
    stage'.held.Sublist [partID] ∧ sh'.partitionChan = sh.partitionChan := by
  unfold ConsumerBench.onReply at replied
  split at replied <;> dsimp only at replied
  · split_ifs at replied <;> cases replied <;> exact ⟨by simp [Stage.held], rfl⟩
  · split_ifs at replied
    · cases replied
      exact ⟨afterFetch_held _ _ _ _, rfl⟩
    · split at replied <;> cases replied <;> exact ⟨by simp [Stage.held], rfl⟩

theorem advance_held {act : Act} (advanced : c.advance sh stage act = some (note, sh', stage'))
    (partID : Nat) :
    stage'.held.count partID + sh'.partitionChan.count partID ≤
      stage.held.count partID + sh.partitionChan.count partID := by
  have kept : stage'.held.Sublist stage.held → sh'.partitionChan = sh.partitionChan →
      stage'.held.count partID + sh'.partitionChan.count partID ≤
        stage.held.count partID + sh.partitionChan.count partID := by
    intro fewer same
    rw [same]
    exact Nat.add_le_add_right (fewer.count_le partID) _
  unfold ConsumerBench.advance at advanced
  split at advanced
  · split at advanced <;> cases advanced
    · exact Nat.le_refl _
    · rename_i first rest chan
      rw [chan, List.count_cons]
      simp only [Stage.held, List.count_cons, List.count_nil]
      omega
  case h_3 =>
    split_ifs at advanced <;> cases advanced <;> exact kept (by simp [Stage.held]) rfl
  case h_4 =>
    obtain ⟨fewer, same⟩ := onReply_held (Option.some.inj advanced)
    exact kept fewer same
  case h_11 =>
    cases advanced
    exact kept (afterFetch_held _ _ _ _) rfl
  all_goals
    try split_ifs at advanced
    all_goals cases advanced <;> exact kept (by simp [Stage.held]) rfl

theorem outstanding_run (run : Run c.perform (fun _ _ _ => True) (c.start partitions) past s)
    (partID : Nat) :
    s.outstanding.count partID ≤ partitions.count partID := by
  refine @Run.invariant _ _ _ _ _ _ _ _
    (fun _ s => s.outstanding.count partID ≤ partitions.count partID) run ?_ ?_
  · rw [count_outstanding, ConsumerBench.start]
    simp [Stage.held]
  · intro past s step fewer _
    unfold ConsumerBench.perform
    cases here : s.stages[step.worker]? with
    | none => exact fewer
    | some stage =>
      dsimp only
      cases advanced : c.advance s.shared stage step.act with
      | none => exact fewer
      | some result =>
        obtain ⟨note, sh', stage'⟩ := result
        have moved := sum_map_set (fun stage => stage.held.count partID) stage' here
        have one := advance_held advanced partID
        rw [count_outstanding] at fewer ⊢
        dsimp only
        omega

theorem partitionsToConsume_ok {partitionCount : Nat}
    (chosen : c.partitionsToConsume partitionCount = .ok partitions) :
    partitions.Nodup ∧ ∀ partID ∈ partitions, partID < partitionCount := by
  unfold ConsumerBench.partitionsToConsume at chosen
  split_ifs at chosen with _ _ outside
  · cases chosen
    exact ⟨by simp, by simp; omega⟩
  · cases chosen
    exact ⟨List.nodup_range, fun partID => List.mem_range.mp⟩

/-- No two workers read one partition, and none reads a partition that the topic does not have. -/
theorem partitions_apart {partitionCount : Nat}
    (chosen : c.partitionsToConsume partitionCount = .ok partitions)
    (run : Run c.perform (fun _ _ _ => True) (c.start partitions) past s) :
    (s.stages.flatMap Stage.held).Nodup ∧
      ∀ partID ∈ s.stages.flatMap Stage.held, partID < partitionCount := by
  obtain ⟨distinct, inside⟩ := partitionsToConsume_ok chosen
  have fewer : ∀ partID, (s.stages.flatMap Stage.held).count partID ≤ partitions.count partID := by
    intro partID
    refine le_trans ?_ (outstanding_run run partID)
    rw [Workers.outstanding, List.count_append]
    exact Nat.le_add_right _ _
  refine ⟨List.nodup_iff_count_le_one.mpr fun partID => ?_, fun partID held => ?_⟩
  · exact (fewer partID).trans (List.nodup_iff_count_le_one.mp distinct partID)
  · refine inside partID (List.count_pos_iff.mp (lt_of_lt_of_le ?_ (fewer partID)))
    exact List.count_pos_iff.mpr held

/-- Two workers share the three partitions of a topic; the first has come to its second one. -/
theorem partitions_apart_three :
    let c : ConsumerBench := ⟨"t", -1, 100, 0, 1000, 2, 0⟩
    let history := execute c.perform [] (c.start [0, 1, 2])
      ([⟨1, .takePartition⟩, ⟨1, .check false false⟩] ++ accountFor 0 [⟨0, 10⟩, ⟨1, 10⟩] 2 ++
        [⟨0, .takePartition⟩])
    history.2.stages.flatMap Stage.held = [2, 0] ∧ (history.2.stages.flatMap Stage.held).Nodup := by
  intro c history
  have run : Run c.perform (fun _ _ _ => True) (c.start [0, 1, 2]) history.1 history.2 :=
    run_execute .start (by decide)
  exact ⟨by decide +kernel, (@partitions_apart c [0, 1, 2] _ _ 3 (by decide) run).1⟩

end Partitions

end MessageBroker.Bench
