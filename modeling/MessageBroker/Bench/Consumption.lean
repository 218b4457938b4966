import MessageBroker.Bench.Accounting
import MessageBroker.Bench.Benchmark
import MessageBroker.Broker.Promises

namespace MessageBroker.Bench.Consumption

open Runs Faulty Storage
open Broker (Node Turn Answer Call FetchRequest Fetching SteadyTurn)

/-! ## The consumer benchmark and the broker together -/

def fetchedOf (r : StoredRecord) : FetchedRecord :=
  ⟨r.offset, optionalLength r.key + optionalLength r.value⟩

def replyOf : Answer → Reply
  | .fetched _ response => .response (response.records.map fetchedOf) response.logEndOffset
  | .notFetched reason => .failed (Production.codeNumber reason.code) false
  | _ => .failed 14 false

/-- The workers, the broker and, for each worker, the fetch that its request has become there. -/
structure Rig where
  workers : Workers
  node : Node
  calls : Nat → Option Nat

/-- As with the producers, all that happens to the broker besides is a turn of others, also between
    the steps of a fetch. -/
inductive Move where
  | worker (i : Nat) (act : Act)
  | send (i : Nat) (faults : List Fault)
  | readOffset (i : Nat)
  | lose (i : Nat) (code : Nat) (isCanceled : Bool)
  | other (turn : Turn)

/-- A worker hears of the broker only through its requests. -/
def isReply : Act → Bool
  | .reply _ => true
  | _ => false

def topicBytes (c : ConsumerBench) : Bytes := c.topic.toUTF8.data.toList

def request (c : ConsumerBench) (partID currentOffset : Nat) : FetchRequest :=
  ⟨topicBytes c, UInt32.ofNat partID, UInt64.ofNat currentOffset,
    UInt32.ofNat (uint32 c.maxFetchBytes)⟩

def callOf (req : FetchRequest) : Call := .fetch req.topic req.partition req.offset req.maxBytes

def Rig.turn? (c : ConsumerBench) (s : Rig) : Move → Option Turn
  | .send i faults =>
    match s.workers.stages[i]?, s.calls i with
    | some (.fetching partID currentOffset), none =>
      some ⟨callOf (request c partID currentOffset), faults⟩
    | _, _ => none
  | .readOffset i => (s.calls i).map fun k => ⟨.readOffset k, []⟩
  | .other turn => some turn
  | _ => none

/-- The broker takes a step for the worker, who gets a reply unless the fetch goes on as the
    `k`-th. -/
def Rig.serve (c : ConsumerBench) (s : Rig) (i k : Nat) (turn : Turn) : Rig :=
  match s.node.perform turn with
  | (.waits, n) => ⟨s.workers, n, Function.update s.calls i (some k)⟩
  | (answer, n) =>
    ⟨(c.perform s.workers ⟨i, .reply (replyOf answer)⟩).2, n, Function.update s.calls i none⟩

def play (c : ConsumerBench) (s : Rig) (move : Move) : Unit × Rig :=
  match move, s.turn? c move with
  | .worker i act, _ =>
    if isReply act then ((), s) else ((), { s with workers := (c.perform s.workers ⟨i, act⟩).2 })
  | .send i _, some turn => ((), s.serve c i s.node.fetches.length turn)
  | .readOffset i, some turn => ((), s.serve c i ((s.calls i).getD 0) turn)
  | .lose i code isCanceled, _ =>
    ((), ⟨(c.perform s.workers ⟨i, .reply (.failed code isCanceled)⟩).2, s.node,
      Function.update s.calls i none⟩)
  | .other turn, _ => ((), { s with node := (s.node.perform turn).2 })
  | _, none => ((), s)

def Steady (limit : Int) (c : ConsumerBench) (_ : List (Event Rig Move Unit)) (s : Rig)
    (move : Move) : Prop :=
  ∀ turn ∈ s.turn? c move, SteadyTurn limit [] s.node turn

instance (limit : Int) (c : ConsumerBench) (past : List (Event Rig Move Unit)) (s : Rig)
    (move : Move) :
    Decidable (Steady limit c past s move) :=
  inferInstanceAs (Decidable (∀ turn ∈ s.turn? c move, SteadyTurn limit [] s.node turn))

/-! ## The workers -/

def nextOffset : Stage → Nat
  | .checking _ currentOffset | .fetching _ currentOffset | .polling _ currentOffset =>
    currentOffset
  | .claiming b | .swapping b _ | .observing b _ | .overshooting b _ | .weighing b _ =>
    b.currentOffset
  | .waiting | .returned => 0

/-- No response to the request of a worker leaves a gap. -/
def Gapless (stage : Stage) (act : Act) : Prop :=
  ∀ partID currentOffset records logEndOffset, stage = .fetching partID currentOffset →
    act = .reply (.response records logEndOffset) → discontinuous currentOffset records = none

structure Unbroken (sh : Shared) : Prop where
  continuous : ∀ partID expected got, sh.firstErr ≠ some (.continuity partID expected got)

section Worker

variable {c : ConsumerBench} {sh sh' : Shared} {stage stage' : Stage} {note : Note} {act : Act}

theorem unbroken_crash {reason : ConsumerError} (unbroken : Unbroken sh)
    (other : ∀ partID expected got, reason ≠ .continuity partID expected got) :
    Unbroken (sh.crash reason) := by
  refine ⟨fun partID expected got => ?_⟩
  unfold Shared.crash
  cases first : sh.firstErr with
  | none => simpa using other partID expected got
  | some earlier =>
    have before := unbroken.continuous partID expected got
    rw [first] at before
    exact before

theorem nextOffset_afterFetch {partID currentOffset logEndOffset : Nat}
    {records : List FetchedRecord} (start : c.offset < 2 ^ 64)
    (current : currentOffset < 2 ^ 64) :
    nextOffset (c.afterFetch partID currentOffset records logEndOffset) < 2 ^ 64 := by
  unfold ConsumerBench.afterFetch
  dsimp only
  split_ifs
  all_goals first
    | exact start
    | exact Nat.two_pow_pos 64
    | (unfold nextOffset
       dsimp only
       split
       · exact uint64_lt _
       · exact current)

theorem unbroken_same (unbroken : Unbroken sh) (same : sh'.firstErr = sh.firstErr) : Unbroken sh' :=
  ⟨fun partID expected got => by rw [same]; exact unbroken.continuous partID expected got⟩

theorem onReply_unbroken {partID currentOffset : Nat} {r : Reply} (start : c.offset < 2 ^ 64)
    (current : currentOffset < 2 ^ 64) (unbroken : Unbroken sh)
    (gapless : ∀ records logEndOffset, r = .response records logEndOffset →
      discontinuous currentOffset records = none)
      (replied : c.onReply sh partID currentOffset r = (note, sh', stage')) :
    nextOffset stage' < 2 ^ 64 ∧ Unbroken sh' := by
  unfold ConsumerBench.onReply at replied
  cases r with
  | failed code isCanceled =>
    dsimp only at replied
    split_ifs at replied <;> cases replied
    · exact ⟨Nat.two_pow_pos 64, unbroken_same unbroken rfl⟩
    · exact ⟨Nat.two_pow_pos 64, unbroken_crash (unbroken_same unbroken rfl) (by simp)⟩
  | response records logEndOffset =>
    dsimp only at replied
    rw [gapless records logEndOffset rfl] at replied
    split_ifs at replied <;> cases replied
    · exact ⟨nextOffset_afterFetch start current, unbroken_same unbroken rfl⟩
    · exact ⟨current, unbroken_same unbroken rfl⟩

theorem advance_unbroken (start : c.offset < 2 ^ 64) (current : nextOffset stage < 2 ^ 64)
    (unbroken : Unbroken sh) (gapless : Gapless stage act)
    (advanced : c.advance sh stage act = some (note, sh', stage')) :
    nextOffset stage' < 2 ^ 64 ∧ Unbroken sh' := by
  unfold ConsumerBench.advance at advanced
  split at advanced
  · split at advanced <;> cases advanced
    · exact ⟨Nat.two_pow_pos 64, unbroken⟩
    · exact ⟨start, unbroken_same unbroken rfl⟩
  · split_ifs at advanced
    cases advanced
    exact ⟨Nat.two_pow_pos 64, unbroken⟩
  · split_ifs at advanced <;> cases advanced
    · exact ⟨Nat.two_pow_pos 64, unbroken⟩
    · exact ⟨Nat.two_pow_pos 64, unbroken⟩
    · exact ⟨Nat.two_pow_pos 64, unbroken_crash unbroken (by simp)⟩
    · exact ⟨current, unbroken⟩
  · refine onReply_unbroken start current unbroken (fun records logEndOffset same => ?_)
      (Option.some.inj advanced)
    exact gapless _ _ records logEndOffset rfl (by rw [same])
  · cases advanced
    exact ⟨current, unbroken⟩
  · split_ifs at advanced
    cases advanced
    exact ⟨Nat.two_pow_pos 64, unbroken⟩
  · split_ifs at advanced <;> cases advanced <;> exact ⟨current, unbroken⟩
  · split_ifs at advanced <;> cases advanced <;> exact ⟨current, unbroken_same unbroken rfl⟩
  · cases advanced
    exact ⟨current, unbroken_same unbroken rfl⟩
  · cases advanced
    exact ⟨current, unbroken_same unbroken rfl⟩
  · cases advanced
    exact ⟨nextOffset_afterFetch start current, unbroken_same unbroken rfl⟩
  · cases advanced

end Worker

/-! ## Whole runs -/

/-- A worker whose request is at the broker waits for it, and the fetch is for that request. -/
def Awaits (c : ConsumerBench) (w : Workers) (n : Node) (calls : Nat → Option Nat) : Prop :=
  ∀ i k, calls i = some k → k < n.fetches.length ∧ ∃ partID currentOffset,
    w.stages[i]? = some (.fetching partID currentOffset) ∧
    ∀ f, n.fetches[k]? = some (some f) → f.req = request c partID currentOffset

structure Sound (limit : Int) (c : ConsumerBench) (s : Rig) : Prop where
  node : ∃ past, Run Node.perform (SteadyTurn limit) Node.new past s.node
  offsets : ∀ stage ∈ s.workers.stages, nextOffset stage < 2 ^ 64
  unbroken : Unbroken s.workers.shared
  awaits : Awaits c s.workers s.node s.calls

section Run

variable {limit : Int} {c : ConsumerBench} {s : Rig} {n' : Node} {w : Workers}

theorem perform_workers {i : Nat} {act : Act} (start : c.offset < 2 ^ 64)
    (offsets : ∀ stage ∈ w.stages, nextOffset stage < 2 ^ 64)
    (unbroken : Unbroken w.shared)
    (gapless : ∀ stage, w.stages[i]? = some stage → Gapless stage act) :
    (∀ stage ∈ (c.perform w ⟨i, act⟩).2.stages, nextOffset stage < 2 ^ 64) ∧
      Unbroken (c.perform w ⟨i, act⟩).2.shared := by
  unfold ConsumerBench.perform
  cases here : w.stages[i]? with
  | none => exact ⟨offsets, unbroken⟩
  | some stage =>
    dsimp only
    cases advanced : c.advance w.shared stage act with
    | none => exact ⟨offsets, unbroken⟩
    | some result =>
      obtain ⟨note, sh', stage'⟩ := result
      obtain ⟨offset, unbroken'⟩ :=
        advance_unbroken start (offsets _ (List.mem_of_getElem? here)) unbroken
        (gapless stage here) advanced
      refine ⟨fun stage'' member => ?_, unbroken'⟩
      rcases List.mem_or_eq_of_mem_set member with old | rfl
      · exact offsets _ old
      · exact offset

theorem perform_others {i j : Nat} {act : Act} (other : j ≠ i) :
    (c.perform w ⟨i, act⟩).2.stages[j]? = w.stages[j]? := by
  unfold ConsumerBench.perform
  dsimp only
  split
  · rfl
  · split
    · rfl
    · exact List.getElem?_set_ne other.symm

theorem perform_waiting {i partID currentOffset : Nat} {act : Act}
    (here : w.stages[i]? = some (.fetching partID currentOffset))
    (reply : isReply act = false) : (c.perform w ⟨i, act⟩).2 = w := by
  unfold ConsumerBench.perform
  dsimp only
  rw [here]
  cases act with
  | reply r => cases reply
  | _ => rfl

theorem discontinuous_consecutive {records : List StoredRecord} {offset : Nat}
    (consecutive : Consecutive offset records) (below : offset + records.length < 2 ^ 64) :
    discontinuous offset (records.map fetchedOf) = none := by
  induction records generalizing offset with
  | nil => rfl
  | cons r rest ih =>
    rw [List.length_cons] at below
    have next : uint64 (offset + 1) = offset + 1 := by
      unfold uint64
      omega
    have head : (fetchedOf r).offset = offset := consecutive.head
    rw [List.map_cons, discontinuous, if_neg (not_not.mpr head), next]
    exact ih consecutive.tail (by omega)

theorem read_unanswered {n : Node} {sv : Broker.Server} {req req' : FetchRequest}
    {faults : List Fault} {response : Broker.FetchResponse} :
    (n.read sv req faults).1 ≠ .fetched req' response := by
  unfold Broker.Node.read
  rcases Broker.readRecords req.topic req.partition.toNat req.offset.toNat req.maxBytes.toNat
    ⟨sv.topicManager, n.tree, faults⟩
    with ⟨exit, after⟩
  cases exit <;> simp [Broker.Node.settleTopics]

theorem gapless_unanswered {partID currentOffset : Nat} {answer : Answer}
    (unanswered : ∀ req response, answer ≠ .fetched req response) :
    Gapless (.fetching partID currentOffset) (.reply (replyOf answer)) := by
  intro _ _ records logEndOffset _ act
  cases answer with
  | fetched req response => exact absurd rfl (unanswered req response)
  | _ => cases act

theorem served_gapless {partID currentOffset k : Nat} {faults : List Fault}
    {past : List Broker.NodeEvent} (small : limit < 2 ^ 31)
    (run : Run Node.perform (SteadyTurn limit) Node.new past s.node)
    (current : currentOffset < 2 ^ 64)
    (own : ∀ f, s.node.fetches[k]? = some (some f) → f.req = request c partID currentOffset) :
    Gapless (.fetching partID currentOffset)
      (.reply (replyOf (s.node.perform ⟨.readOffset k, faults⟩).1)) := by
  by_cases answered : ∃ req response,
    (s.node.perform ⟨.readOffset k, faults⟩).1 = .fetched req response
  swap
  · exact gapless_unanswered fun req response answer => answered ⟨req, response, answer⟩
  obtain ⟨req, response, answer⟩ := answered
  intro _ _ records logEndOffset stage act
  cases stage
  rw [answer] at act
  cases act
  obtain ⟨J, L, chronicle⟩ := Broker.chronicle_run small run
  obtain ⟨going, logEnd⟩ := chronicle.answered (show _ = some (req, response) by rw [answer]; rfl)
  have holding := chronicle.fetching k _ going
  have mine : req = request c partID currentOffset := own _ going
  have place : req.offset.toNat = currentOffset := by
    rw [mine]
    exact UInt64.toNat_ofNat_of_lt current
  -- the check adds in uint64, so the records must also end below 2^64: they end at most at the log
  -- end offset
  have fits := holding.records.length_le
  have inside := holding.inside
  have below := (chronicle.rooted.tracks req.topic req.partition.toNat).holds.valid.logEnd_lt
  have logged := chronicle.streams.logEnd holding.listed
  rw [List.length_drop, storedFrom_length] at fits
  have consecutive := holding.consecutive
  dsimp only [Broker.FetchStage.stored] at fits inside logged consecutive
  rw [place] at fits inside consecutive
  exact discontinuous_consecutive consecutive (by omega)

theorem serve_waits {i k : Nat} {turn : Turn} (waits : (s.node.perform turn).1 = .waits) :
    s.serve c i k turn = ⟨s.workers, (s.node.perform turn).2,
      Function.update s.calls i (some k)⟩ := by
  unfold Rig.serve
  split
  next performed => rw [performed]
  next performed => exact absurd waits (by simpa [performed] using ‹_›)

theorem serve_answers {i k : Nat} {turn : Turn} (answers : (s.node.perform turn).1 ≠ .waits) :
    s.serve c i k turn = ⟨(c.perform s.workers ⟨i, .reply (replyOf (s.node.perform turn).1)⟩).2,
      (s.node.perform turn).2, Function.update s.calls i none⟩ := by
  unfold Rig.serve
  split
  next performed => exact absurd (by rw [performed]) answers
  next performed => rw [performed]

theorem Awaits.passes {past : List Broker.NodeEvent} {turn : Turn} {w' : Workers}
    {calls' : Nat → Option Nat} (small : limit < 2 ^ 31)
    (run : Run Node.perform (SteadyTurn limit) Node.new past s.node)
    (steady : SteadyTurn limit past s.node turn) (awaits : Awaits c s.workers s.node s.calls)
    (still : ∀ i k, calls' i = some k → s.calls i = some k ∧ w'.stages[i]? = s.workers.stages[i]?) :
    Awaits c w' (s.node.perform turn).2 calls' := by
  obtain ⟨J, L, chronicle⟩ := Broker.chronicle_run small run
  obtain ⟨_, _, _, _, fetchings⟩ := chronicle.proceeds small steady
  intro i k waiting
  obtain ⟨before, same⟩ := still i k waiting
  obtain ⟨came, partID, currentOffset, stage, own⟩ := awaits i k before
  refine ⟨lt_of_lt_of_le came fetchings.longer, partID, currentOffset, same.trans stage,
    fun f going => ?_⟩
  obtain ⟨f', old, req⟩ := Broker.perform_requests came going
  rw [← req]
  exact own f' old

theorem serve_sound {i k partID currentOffset : Nat} {turn : Turn} (small : limit < 2 ^ 31)
    (start : c.offset < 2 ^ 64) (sound : Sound limit c s) (steady : SteadyTurn limit [] s.node turn)
    (here : s.workers.stages[i]? = some (.fetching partID currentOffset))
    (gapless : Gapless (.fetching partID currentOffset) (.reply (replyOf (s.node.perform turn).1)))
    (awaited : (s.node.perform turn).1 = .waits → k < (s.node.perform turn).2.fetches.length ∧
      ∀ f, (s.node.perform turn).2.fetches[k]? = some (some f) →
        f.req = request c partID currentOffset) :
    Sound limit c (s.serve c i k turn) := by
  obtain ⟨before, run⟩ := sound.node
  by_cases waits : (s.node.perform turn).1 = .waits
  · rw [serve_waits waits]
    refine ⟨⟨_, .step run steady⟩, sound.offsets, sound.unbroken, fun j k' waiting => ?_⟩
    dsimp only at waiting
    by_cases own : j = i
    · subst own
      rw [Function.update_self] at waiting
      cases waiting
      obtain ⟨came, request⟩ := awaited waits
      exact ⟨came, partID, currentOffset, here, request⟩
    · rw [Function.update_of_ne own] at waiting
      exact sound.awaits.passes small run steady (fun _ _ same => ⟨same, rfl⟩) j k' waiting
  · rw [serve_answers waits]
    have own : ∀ stage,
        s.workers.stages[i]? = some stage →
          Gapless stage (.reply (replyOf (s.node.perform turn).1)) := by
      intro stage there
      cases here.symm.trans there
      exact gapless
    obtain ⟨offsets, unbroken⟩ := perform_workers start sound.offsets sound.unbroken own
    refine ⟨⟨_, .step run steady⟩, offsets, unbroken,
      sound.awaits.passes small run steady fun j k' waiting => ?_⟩
    dsimp only at waiting
    by_cases own : j = i
    · subst own
      rw [Function.update_self] at waiting
      cases waiting
    · rw [Function.update_of_ne own] at waiting
      exact ⟨waiting, perform_others own⟩

theorem turn?_send {i : Nat} {faults : List Fault} {turn : Turn}
    (asked : s.turn? c (.send i faults) = some turn) :
    ∃ partID currentOffset, s.workers.stages[i]? = some (.fetching partID currentOffset) ∧
      turn = ⟨callOf (request c partID currentOffset), faults⟩ := by
  unfold Rig.turn? at asked
  dsimp only at asked
  split at asked
  next partID currentOffset here _ =>
    cases asked
    exact ⟨partID, currentOffset, here, rfl⟩
  · cases asked

theorem send_sound {i partID currentOffset : Nat} {faults : List Fault} (small : limit < 2 ^ 31)
    (start : c.offset < 2 ^ 64) (sound : Sound limit c s)
    (here : s.workers.stages[i]? = some (.fetching partID currentOffset)) :
    Sound limit c (s.serve c i s.node.fetches.length ⟨callOf (request c partID currentOffset),
      faults⟩) := by
  cases running : s.node.server with
  | none =>
    have idle : s.node.perform ⟨callOf (request c partID currentOffset), faults⟩ =
        (.nobody, s.node) := by
      simp only [callOf, Broker.Node.perform, running]
    refine serve_sound small start sound trivial here ?_ ?_
    · rw [idle]
      exact gapless_unanswered fun _ _ other => by cases other
    · intro waits
      rw [idle] at waits
      cases waits
  | some sv =>
    have read : s.node.perform ⟨callOf (request c partID currentOffset), faults⟩ =
      s.node.read sv (request c partID currentOffset) faults := Broker.perform_fetch running
    refine serve_sound small start sound trivial here ?_ fun _ => ?_
    · rw [read]
      exact gapless_unanswered fun _ _ => read_unanswered
    · rw [read]
      have next : (s.node.read sv (request c partID currentOffset) faults).2.fetches.length =
          s.node.fetches.length + 1 :=
        Broker.read_length
      refine ⟨by omega, fun f going => ?_⟩
      rcases Broker.read_fetches going with old | ⟨_, own⟩
      · have inside := (List.getElem?_eq_some_iff.mp old).1
        omega
      · exact own

theorem play_sound {past : List (Event Rig Move Unit)} {move : Move} (small : limit < 2 ^ 31)
    (start : c.offset < 2 ^ 64) (sound : Sound limit c s) (steady : Steady limit c past s move) :
    Sound limit c (play c s move).2 := by
  obtain ⟨before, run⟩ := sound.node
  cases move with
  | worker i act =>
    simp only [play]
    split_ifs with reply
    · exact sound
    · obtain ⟨offsets, unbroken⟩ :=
        @perform_workers c s.workers i act start sound.offsets sound.unbroken
        fun stage _ partID currentOffset records logEndOffset _ same => by
          subst same
          exact absurd rfl reply
      refine ⟨⟨before, run⟩, offsets, unbroken, fun j k waiting => ?_⟩
      obtain ⟨came, partID, currentOffset, stage, own⟩ := sound.awaits j k waiting
      refine ⟨came, partID, currentOffset, ?_, own⟩
      by_cases same : j = i
      · subst same
        rw [perform_waiting stage (by simpa using reply)]
        exact stage
      · rw [perform_others same]
        exact stage
  | send i faults =>
    cases asked : s.turn? c (.send i faults) with
    | none =>
      simp only [play, asked]
      exact sound
    | some turn =>
      simp only [play, asked]
      obtain ⟨partID, currentOffset, here, rfl⟩ := turn?_send asked
      exact send_sound small start sound here
  | readOffset i =>
    cases waiting : s.calls i with
    | none =>
      simp only [play, Rig.turn?, waiting]
      exact sound
    | some k =>
      have served : (play c s (.readOffset i)).2 = s.serve c i k ⟨.readOffset k, []⟩ := by
        simp only [play, Rig.turn?, waiting, Option.map_some, Option.getD_some]
      rw [served]
      obtain ⟨came, partID, currentOffset, here, own⟩ := sound.awaits i k waiting
      obtain ⟨J, L, chronicle⟩ := Broker.chronicle_run small run
      have admitted : SteadyTurn limit before s.node ⟨.readOffset k, []⟩ := trivial
      obtain ⟨_, _, _, _, fetchings⟩ := chronicle.proceeds small admitted
      refine serve_sound small start sound trivial here (served_gapless small run ?_ own)
        fun _ => ?_
      · exact sound.offsets _ (List.mem_of_getElem? here)
      · refine ⟨lt_of_lt_of_le came fetchings.longer, fun f going => ?_⟩
        obtain ⟨f', old, req⟩ := Broker.perform_requests came going
        rw [← req]
        exact own f' old
  | lose i code isCanceled =>
    obtain ⟨offsets, unbroken⟩ :=
      @perform_workers c s.workers i (.reply (.failed code isCanceled)) start sound.offsets
      sound.unbroken fun stage _ partID currentOffset records logEndOffset _ same => by cases same
    refine ⟨⟨before, run⟩, offsets, unbroken, fun j k waiting => ?_⟩
    simp only [play] at waiting
    by_cases same : j = i
    · subst same
      rw [Function.update_self] at waiting
      cases waiting
    · rw [Function.update_of_ne same] at waiting
      obtain ⟨came, partID, currentOffset, stage, own⟩ := sound.awaits j k waiting
      exact ⟨came, partID, currentOffset, (perform_others same).trans stage, own⟩
  | other turn =>
    exact ⟨⟨_, .step run (steady turn rfl)⟩, sound.offsets, sound.unbroken,
      sound.awaits.passes small run (steady turn rfl) fun _ _ waiting => ⟨waiting, rfl⟩⟩

/-- The continuity check of the consumers never fails, whatever the broker goes through while they
    fetch. -/
theorem consumption_continuous {past : List Broker.NodeEvent} {n : Node}
    {moves : List (Event Rig Move Unit)} {partitions : List Nat} {partID expected got : Nat}
    (small : limit < 2 ^ 31) (start : c.offset < 2 ^ 64)
    (run : Run Node.perform (SteadyTurn limit) Node.new past n)
    (bench : Run (play c) (Steady limit c) ⟨c.start partitions, n, fun _ => none⟩ moves s) :
    c.result s.workers.shared ≠ .error (.continuity partID expected got) := by
  have sound : Sound limit c s := by
    refine @Run.invariant _ _ _ _ _ _ _ _ (fun _ s => Sound limit c s) bench
      ⟨⟨past, run⟩, fun stage member => ?_, ⟨?_⟩, fun _ _ nothing => by cases nothing⟩
      fun _ _ _ sound steady => play_sound small start sound steady
    · rw [List.eq_of_mem_replicate member]
      exact Nat.two_pow_pos 64
    · simp [ConsumerBench.start]
  have continuous := sound.unbroken.continuous partID expected got
  unfold ConsumerBench.result
  split_ifs
  · simp
  · cases first : s.workers.shared.firstErr with
    | none => simp
    | some reason =>
      rw [first] at continuous
      simpa using continuous

/-- Between two fetches of the worker the broker dies and starts again, and within the second one it
    gets a record. -/
theorem consumption_continuous_restarted :
    let start : Turn := ⟨.start .inOrder Configuration.defaultStorage 0 0, []⟩
    let produce (byte : UInt8) : Turn := ⟨.produce 5000000 [116] 0 [⟨none, some [byte], [], 0⟩], []⟩
    let history :=
      execute Node.perform [] Node.new [start, ⟨.createTopic [116] 1 ⟨0, 0⟩, []⟩, produce 1,
        produce 2]
    let c : ConsumerBench := ⟨"t", 0, 3, 0, 1, 1, 0⟩
    let fetch (between : List Move) : List Move :=
      [.worker 0 (.check false false), .send 0 []] ++ between ++ [.readOffset 0, .readOffset 0,
        .worker 0 .load,
       .worker 0 .compareAndSwap, .worker 0 .addObserved, .worker 0 .addOvershoot,
       .worker 0 .addBytes]
    let rig := execute (play c) [] ⟨c.start [0], history.2, fun _ => none⟩
      ([.worker 0 .takePartition] ++ fetch [] ++ [.other ⟨.kill, []⟩, .other start] ++
        fetch [.other (produce 3)] ++ fetch [] ++
        [.worker 0 .takePartition])
    c.result rig.2.workers.shared = .ok ⟨3, 3, 3, 0, 3⟩ ∧
      ∀ partID expected got,
        c.result rig.2.workers.shared ≠ .error (.continuity partID expected got) :=
  ⟨by decide +kernel,
    fun _ _ _ => @consumption_continuous 5242880 _ _ _ _ _ _ _ _ _ (by decide) (by decide +kernel)
    (run_execute .start (by decide +kernel)) (run_execute .start (by decide +kernel))⟩

end Run

end MessageBroker.Bench.Consumption
