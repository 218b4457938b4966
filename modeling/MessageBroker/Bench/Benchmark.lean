import MessageBroker.Bench.Coverage
import MessageBroker.Bench.Production
import MessageBroker.Broker.Admin

namespace MessageBroker.Bench.Production

open Runs Faulty Storage Topics
open Broker (Node Turn Answer Call SteadyTurn Chronicle)

/-! ## The benchmark and the broker together -/

def codeNumber : Broker.Code → Nat
  | .invalidArgument => 3
  | .notFound => 5
  | .resourceExhausted => 8
  | .outOfRange => 11
  | .internal => 13
  | .unavailable => 14

/-- What the client makes of an answer. A broker that dies or is not there is unavailable. -/
def replyOf : Answer → Reply
  | .produced response =>
    .acknowledged (UInt64.ofNat response.baseOffset) (UInt64.ofNat response.lastOffset)
  | .notProduced reason => .failed (codeNumber reason.code) false
  | _ => .failed 14 false

/-- The records of a request: the same payload, each under the time it was made at. -/
def ProducerBench.records (p : ProducerBench) (size : Int) (stamps : Nat → Int) : List Record :=
  (List.range size.toNat).map
    fun j => ⟨none, some (List.replicate p.msgSize.toNat 120), [], stamps j⟩

structure Rig where
  workers : Workers
  node : Node

/-- A worker goes on, the broker serves its request, or the request fails on its way. Everything
    else that happens to the broker is a turn of others: their requests, retention, its death and
    its next start. A request that is served without the worker hearing of it is a turn of others,
    too. -/
inductive Move where
  | worker (i : Nat) (expired : Bool)
  | serve (i : Nat) (now : Instant) (stamps : Nat → Int) (faults : List Fault)
  | lose (i : Nat) (code : Nat) (isCanceled : Bool)
  | other (turn : Turn)

def Rig.turn? (p : ProducerBench) (s : Rig) : Move → Option Turn
  | .serve i now stamps faults =>
    match s.workers.stages[i]? with
    | some (.sending size partition) =>
      some ⟨.produce now p.topic (UInt32.ofNat partition) (p.records size stamps), faults⟩
    | _ => none
  | .other turn => some turn
  | _ => none

def ProducerBench.play (p : ProducerBench) (partitionCount : Nat) (s : Rig) (move : Move) :
    Unit × Rig :=
  match move, s.turn? p move with
  | .worker i expired, _ => ((), ⟨(p.perform partitionCount s.workers ⟨i, .go expired⟩).2, s.node⟩)
  | .serve i _ _ _, some turn =>
    ((), ⟨(p.perform partitionCount s.workers ⟨i, .reply (replyOf (s.node.perform turn).1)⟩).2,
      (s.node.perform turn).2⟩)
  | .serve _ _ _ _, none => ((), s)
  | .lose i code isCanceled, _ =>
    ((), ⟨(p.perform partitionCount s.workers ⟨i, .reply (.failed code isCanceled)⟩).2, s.node⟩)
  | .other turn, _ => ((), ⟨s.workers, (s.node.perform turn).2⟩)

/-- What the broker answers to DescribeTopic, if it is there and has the topic. -/
def describeTopic? (n : Node) (topic : Bytes) : Option Broker.TopicMetadata :=
  n.server.bind fun sv => (Broker.describeTopicRequest topic sv.topicManager).toOption

def endOffsets (t : Broker.TopicMetadata) : List PartitionMetadata :=
  t.partitions.map fun pm => ⟨UInt32.ofNat pm.partitionId, UInt64.ofNat pm.logEndOffset⟩

/-! ## The ranges that the workers hold -/

/-- The range that a worker was told of and has not put with the others yet. -/
def Stage.range? : Stage → Option AcknowledgedRange
  | .counting _ partition (.acknowledged base last) => some ⟨UInt32.ofNat partition, base, last⟩
  | .acknowledging _ range | .appending range => some range
  | _ => none

def Workers.held (w : Workers) : List AcknowledgedRange :=
  w.shared.ranges ++ w.stages.filterMap Stage.range?

/-- The range that a step of a worker brings. -/
def Stage.gain : Stage → Act → List AcknowledgedRange
  | .sending _ partition, .reply (.acknowledged base last) => [⟨UInt32.ofNat partition, base, last⟩]
  | _, _ => []

def Workers.gained (w : Workers) (step : WorkerStep) : List AcknowledgedRange :=
  match w.stages[step.worker]? with
  | some stage => stage.gain step.act
  | none => []

section Held

variable {p : ProducerBench} {partitionCount : Nat}

theorem filterMap_set_perm {α β : Type} (f : α → Option β) {items : List α} {i : Nat} {old : α}
    (new : α) (here : items[i]? = some old) :
    ((items.set i new).filterMap f ++ (f old).toList).Perm
      (items.filterMap f ++ (f new).toList) := by
  simp only [List.filterMap_eq_flatMap_toList, ← Multiset.coe_eq_coe, ← Multiset.coe_add]
  induction items generalizing i with
  | nil => cases here
  | cons item rest ih =>
    cases i with
    | zero =>
      cases here
      simp only [List.set_cons_zero, List.flatMap_cons, ← Multiset.coe_add]
      ac_rfl
    | succ i =>
      have tail := ih (i := i) (by simpa using here)
      simp only [List.set_cons_succ, List.flatMap_cons, ← Multiset.coe_add, add_assoc, tail]

theorem advance_held {sh sh' : Shared} {stage stage' : Stage} {note : Note} {act : Act}
    (advanced : p.advance partitionCount sh stage act = some (note, sh', stage')) :
    sh'.ranges ++ stage'.range?.toList = sh.ranges ++ stage.range?.toList ++ stage.gain act := by
  unfold ProducerBench.advance at advanced
  split at advanced
  · cases advanced
    split <;> simp [Stage.range?, Stage.gain]
  · unfold ProducerBench.claim at advanced
    dsimp only at advanced
    split_ifs at advanced <;> cases advanced <;> simp [Stage.range?, Stage.gain]
  · unfold ProducerBench.route at advanced
    dsimp only at advanced
    split_ifs at advanced <;> cases advanced <;> simp [Stage.range?, Stage.gain]
  next r =>
    cases advanced
    cases r <;> simp [Stage.range?, Stage.gain]
  · dsimp only at advanced
    split at advanced <;> cases advanced <;> simp [Stage.range?, Stage.gain]
  · split_ifs at advanced <;> cases advanced <;> simp [Stage.range?, Stage.gain]
  · cases advanced
    simp [Stage.range?, Stage.gain]
  · cases advanced
    split <;> simp [Stage.range?, Stage.gain]
  all_goals cases advanced
  all_goals simp [Stage.range?, Stage.gain]

theorem perform_held (w : Workers) (step : WorkerStep) :
    (p.perform partitionCount w step).2.held.Perm (w.held ++ w.gained step) := by
  obtain ⟨i, act⟩ := step
  unfold ProducerBench.perform Workers.gained
  cases here : w.stages[i]? with
  | none => simp
  | some stage =>
    dsimp only
    cases advanced : p.advance partitionCount w.shared stage act with
    | none =>
      have waits : stage.gain act = [] := by
        unfold Stage.gain
        split
        · cases advanced
        · rfl
      simp [waits]
    | some result =>
      obtain ⟨note, sh', stage'⟩ := result
      have own := congrArg
        (fun ranges : List AcknowledgedRange => (ranges : Multiset AcknowledgedRange))
        (advance_held advanced)
      have others := filterMap_set_perm Stage.range? stage' here
      simp only [Workers.held, ← Multiset.coe_eq_coe, ← Multiset.coe_add] at own others ⊢
      -- the ranges of the worker before and after the step cancel out
      refine add_right_cancel
        (b := (stage.range?.toList : Multiset AcknowledgedRange) + stage'.range?.toList) ?_
      calc _ = (sh'.ranges + stage'.range?.toList : Multiset AcknowledgedRange) +
            (((w.stages.set i stage').filterMap Stage.range? : Multiset AcknowledgedRange) +
              stage.range?.toList) := by ac_rfl
        _ = _ := by
          rw [own, others]
          ac_rfl

end Held

/-! ## What is acknowledged and what is in the log -/

/-- The streams behind the broker, and how the ranges that the workers hold lie in those of the
    topic. -/
structure Tally (limit : Int) (p : ProducerBench) (initial : UInt32 → Nat)
    (J : Bytes → Nat → Journal) (L : Bytes → Nat → List Batch) (s : Rig) : Prop where
  chronicle : ∃ past, Chronicle limit past s.node J L
  listed : ∀ r ∈ s.workers.held, s.node.tree.Lists p.topic r.partition.toNat ∧ r.base ≤ r.last
  fresh : ∀ id : UInt32, ¬ s.node.tree.Lists p.topic id.toNat → initial id = 0
  low : ∀ id : UInt32, s.node.tree.Lists p.topic id.toNat → initial id ≤ span (L p.topic id.toNat)
  bounded : ∀ id : UInt32, s.node.tree.Lists p.topic id.toNat → ∀ offset,
    coverage s.workers.held id offset ≤ grown (initial id) (span (L p.topic id.toNat)) offset

/-- Every offset that the topic has grown by was acknowledged. -/
def Full (p : ProducerBench) (initial : UInt32 → Nat) (L : Bytes → Nat → List Batch)
    (s : Rig) : Prop :=
  ∀ id : UInt32, s.node.tree.Lists p.topic id.toNat → ∀ offset,
    grown (initial id) (span (L p.topic id.toNat)) offset ≤ coverage s.workers.held id offset

section Run

variable {limit : Int} {p : ProducerBench} {partitionCount : Nat} {initial : UInt32 → Nat}
  {J J' : Bytes → Nat → Journal} {L L' : Bytes → Nat → List Batch} {s : Rig} {w' : Workers}

theorem Tally.quiet (tally : Tally limit p initial J L s) (same : w'.held.Perm s.workers.held) :
    Tally limit p initial J L ⟨w', s.node⟩ ∧
      (Full p initial L s → Full p initial L ⟨w', s.node⟩) := by
  refine ⟨⟨tally.chronicle, fun r member => tally.listed r (same.mem_iff.mp member), tally.fresh,
    tally.low, ?_⟩, ?_⟩
  · intro id listed offset
    rw [coverage_perm same]
    exact tally.bounded id listed offset
  · intro full id listed offset
    rw [coverage_perm same]
    exact full id listed offset

theorem grown_mono {initial final final' : Nat} (more : final ≤ final') (offset : Nat) :
    grown initial final offset ≤ grown initial final' offset := by
  unfold grown
  split_ifs <;> omega

theorem Tally.unlisted (tally : Tally limit p initial J L s) {id : UInt32}
    (absent : ¬ s.node.tree.Lists p.topic id.toNat) (offset : Nat) :
    coverage s.workers.held id offset = 0 := by
  apply List.sum_eq_zero
  intro count made
  obtain ⟨r, member, rfl⟩ := List.mem_map.mp made
  refine if_neg fun here => absent ?_
  rw [← here.1]
  exact (tally.listed r member).1

/-- The acknowledged range lies exactly where the log has grown. -/
theorem covers_extends {id : UInt32} {base last low : Nat} (start : low ≤ base)
    (forward : base ≤ last) (below : last < 2 ^ 64) (offset : Nat) :
    grown low base offset + AcknowledgedRange.covers ⟨id, UInt64.ofNat base, UInt64.ofNat last⟩ id
      offset =
      grown low (last + 1) offset := by
  have first : (UInt64.ofNat base).toNat = base :=
    UInt64.toNat_ofNat_of_lt (lt_of_le_of_lt forward below)
  have final : (UInt64.ofNat last).toNat = last := UInt64.toNat_ofNat_of_lt below
  unfold grown AcknowledgedRange.covers
  simp only [first, final, true_and]
  split_ifs <;> omega

theorem coverage_gained {ranges ranges' : List AcknowledgedRange} {r : AcknowledgedRange}
    (more : ranges'.Perm (ranges ++ [r])) (id : UInt32) (offset : Nat) :
    coverage ranges' id offset = coverage ranges id offset + r.covers id offset := by
  rw [coverage_perm more]
  simp [coverage]

section Turn

variable {turn : Turn}

theorem Full.stays {sent : Bytes → Nat → Batch → Prop} {h : Host} {id : UInt32}
    (full : Full p initial L s) (evolves : Evolves limit s.node.tree J L sent J' L' h)
    (still : s.node.tree.Lists p.topic id.toNat → L' p.topic id.toNat = L p.topic id.toNat)
    (listed : h.tree.Lists p.topic id.toNat) (offset : Nat) :
    grown (initial id) (span (L' p.topic id.toNat)) offset ≤ coverage s.workers.held id offset := by
  by_cases before : s.node.tree.Lists p.topic id.toNat
  · rw [still before]
    exact full id before offset
  · rw [evolves.fresh _ _ listed before, grown, if_neg fun inside => Nat.not_lt_zero _ inside.2]
    exact Nat.zero_le _

theorem Tally.passes (tally : Tally limit p initial J L s) (same : w'.held.Perm s.workers.held)
    (evolves : Evolves limit s.node.tree J L turn.call.sends J' L'
      ⟨(s.node.perform turn).2.server.map Broker.Server.topicManager, (s.node.perform turn).2.tree⟩)
    (chronicle : ∃ past, Chronicle limit past (s.node.perform turn).2 J' L') :
    Tally limit p initial J' L' ⟨w', (s.node.perform turn).2⟩ ∧
      ((∀ id, s.node.tree.Lists p.topic id → L' p.topic id = L p.topic id) → Full p initial L s →
        Full p initial L' ⟨w', (s.node.perform turn).2⟩) := by
  refine ⟨⟨chronicle, ?_, ?_, ?_, ?_⟩, ?_⟩
  · intro r member
    obtain ⟨listed, forward⟩ := tally.listed r (same.mem_iff.mp member)
    exact ⟨evolves.listed _ _ listed, forward⟩
  · exact fun id absent => tally.fresh id fun listed => absent (evolves.listed _ _ listed)
  · intro id _
    by_cases before : s.node.tree.Lists p.topic id.toNat
    · obtain ⟨added, longer, _⟩ := evolves.longer _ _ before
      rw [longer, span_append]
      exact (tally.low id before).trans (Nat.le_add_right _ _)
    · rw [tally.fresh id before]
      exact Nat.zero_le _
  · intro id _ offset
    rw [coverage_perm same]
    by_cases before : s.node.tree.Lists p.topic id.toNat
    · obtain ⟨added, longer, _⟩ := evolves.longer _ _ before
      rw [longer, span_append]
      exact (tally.bounded id before offset).trans (grown_mono (Nat.le_add_right _ _) offset)
    · rw [tally.unlisted before]
      exact Nat.zero_le _
  · intro still full id listed offset
    rw [coverage_perm same]
    exact full.stays evolves (still _) listed offset

theorem Tally.acknowledged {now : Instant} {id : UInt32} {records : List Record}
    {faults : List Fault} {response : Broker.ProduceResponse} (tally : Tally limit p initial J L s)
    (request : turn = ⟨.produce now p.topic id records, faults⟩)
    (answer : (s.node.perform turn).1 = .produced response)
    (more : w'.held.Perm
      (s.workers.held ++
        [⟨id, UInt64.ofNat response.baseOffset, UInt64.ofNat response.lastOffset⟩]))
    (evolves : Evolves limit s.node.tree J L turn.call.sends J' L'
      ⟨(s.node.perform turn).2.server.map Broker.Server.topicManager, (s.node.perform turn).2.tree⟩)
    (tells : Broker.Tells turn.call (s.node.perform turn).1 (s.node.perform turn).2.tree L J' L')
    (chronicle : ∃ past, Chronicle limit past (s.node.perform turn).2 J' L') :
    Tally limit p initial J' L' ⟨w', (s.node.perform turn).2⟩ ∧
      (Full p initial L s → Full p initial L' ⟨w', (s.node.perform turn).2⟩) := by
  obtain ⟨listed, starts, forward, ends⟩ :=
    tells.range p.topic id.toNat response.baseOffset response.lastOffset (by
    rw [answer, request]
    exact if_pos ⟨rfl, rfl⟩)
  have before : s.node.tree.Lists p.topic id.toNat := by
    by_contra absent
    rw [evolves.fresh _ _ listed absent] at ends
    cases ends
  have below : response.lastOffset < 2 ^ 64 := by
    have valid := (evolves.rooted.tracks p.topic id.toNat).holds.valid.logEnd_lt
    have logged := evolves.streams.logEnd listed
    omega
  have others : ∀ {other : UInt32}, other ≠ id → s.node.tree.Lists p.topic other.toNat →
      L' p.topic other.toNat = L p.topic other.toNat := by
    intro other differs there
    refine evolves.keeps there fun b sent => ?_
    rw [request] at sent
    exact differs (UInt32.toNat_inj.mp sent.2.1)
  have elsewhere : ∀ {other : UInt32}, other ≠ id → ∀ offset,
      coverage w'.held other offset = coverage s.workers.held other offset := by
    intro other differs offset
    rw [coverage_gained more, AcknowledgedRange.covers, if_neg fun here => differs here.1.symm,
      Nat.add_zero]
  obtain ⟨quiet, _⟩ := tally.passes (List.Perm.refl _) evolves chronicle
  refine ⟨⟨quiet.chronicle, fun r member => ?_, quiet.fresh, quiet.low,
    fun other there offset => ?_⟩, fun full other there offset => ?_⟩
  · rcases List.mem_append.mp (more.mem_iff.mp member) with old | new
    · exact quiet.listed r old
    · rw [List.mem_singleton.mp new]
      refine ⟨listed, ?_⟩
      have first : (UInt64.ofNat response.baseOffset).toNat = response.baseOffset :=
        UInt64.toNat_ofNat_of_lt (lt_of_le_of_lt forward below)
      have final : (UInt64.ofNat response.lastOffset).toNat = response.lastOffset :=
        UInt64.toNat_ofNat_of_lt below
      rw [UInt64.le_iff_toNat_le, first, final]
      exact forward
  · by_cases own : other = id
    · subst own
      rw [coverage_gained more, ← ends,
        ← covers_extends (starts ▸ tally.low other before) forward below, starts]
      exact Nat.add_le_add_right (tally.bounded other before offset) _
    · rw [elsewhere own]
      exact quiet.bounded other there offset
  · by_cases own : other = id
    · subst own
      rw [coverage_gained more, ← ends,
        ← covers_extends (starts ▸ tally.low other before) forward below, starts]
      exact Nat.add_le_add_right (full other before offset) _
    · rw [elsewhere own]
      exact full.stays evolves (others own) there offset

end Turn

/-- Every turn of the broker is one that the broker's promises cover. -/
def Steady (limit : Int) (p : ProducerBench) (_ : List (Event Rig Move Unit)) (s : Rig)
    (move : Move) : Prop :=
  ∀ turn ∈ s.turn? p move, SteadyTurn limit [] s.node turn

instance (limit : Int) (p : ProducerBench) (past : List (Event Rig Move Unit)) (s : Rig)
    (move : Move) :
    Decidable (Steady limit p past s move) :=
  inferInstanceAs (Decidable (∀ turn ∈ s.turn? p move, SteadyTurn limit [] s.node turn))

def producesTo : Call → Option Bytes
  | .produce _ topic _ _ => some topic
  | _ => none

/-- Nobody else writes to the topic, the disk is healthy under the requests of the workers, and each
    request that the broker serves is answered: it dies and starts only between them. -/
def Move.Undisturbed (p : ProducerBench) : Move → Prop
  | .serve _ _ _ faults => faults = []
  | .other turn => producesTo turn.call ≠ some p.topic
  | _ => True

instance (p : ProducerBench) : ∀ move : Move, Decidable (move.Undisturbed p)
  | .serve _ _ _ faults => inferInstanceAs (Decidable (faults = []))
  | .other turn => inferInstanceAs (Decidable (producesTo turn.call ≠ some p.topic))
  | .worker _ _ | .lose _ _ _ => inferInstanceAs (Decidable True)

theorem gain_none {stage : Stage} {act : Act}
    (nothing : ∀ base last, act ≠ .reply (.acknowledged base last)) :
    stage.gain act = [] := by
  unfold Stage.gain
  split
  · exact absurd rfl (nothing _ _)
  · rfl

theorem gained_none {w : Workers} {i : Nat} {act : Act}
    (nothing : ∀ base last, act ≠ .reply (.acknowledged base last)) :
    w.gained ⟨i, act⟩ = [] := by
  unfold Workers.gained
  split
  · exact gain_none nothing
  · rfl

theorem turn?_serve {i : Nat} {now : Instant} {stamps : Nat → Int} {faults : List Fault}
    {turn : Turn} (asked : s.turn? p (.serve i now stamps faults) = some turn) :
    ∃ size partition, s.workers.stages[i]? = some (.sending size partition) ∧
      turn = ⟨.produce now p.topic (UInt32.ofNat partition) (p.records size stamps), faults⟩ := by
  unfold Rig.turn? at asked
  dsimp only at asked
  split at asked
  next size partition here =>
    cases asked
    exact ⟨size, partition, here, rfl⟩
  · cases asked

theorem Tally.served {i : Nat} {now : Instant} {size : Int} {partition : Nat}
    {records : List Record} {faults : List Fault} {turn : Turn}
    (tally : Tally limit p initial J L s)
    (here : s.workers.stages[i]? = some (.sending size partition))
    (request : turn = ⟨.produce now p.topic (UInt32.ofNat partition) records, faults⟩)
    (evolves : Evolves limit s.node.tree J L turn.call.sends J' L'
      ⟨(s.node.perform turn).2.server.map Broker.Server.topicManager, (s.node.perform turn).2.tree⟩)
    (tells : Broker.Tells turn.call (s.node.perform turn).1 (s.node.perform turn).2.tree L J' L')
    (chronicle : ∃ past, Chronicle limit past (s.node.perform turn).2 J' L')
    (firm : faults = [] → (∀ response, (s.node.perform turn).1 ≠ .produced response) → L' = L) :
    let after : Rig :=
      ⟨(p.perform partitionCount s.workers ⟨i, .reply (replyOf (s.node.perform turn).1)⟩).2,
        (s.node.perform turn).2⟩
    Tally limit p initial J' L' after ∧
      (faults = [] → Full p initial L s → Full p initial L' after) := by
  intro after
  have moved := @perform_held p partitionCount s.workers
    ⟨i, .reply (replyOf (s.node.perform turn).1)⟩
  by_cases answered : ∃ response, (s.node.perform turn).1 = .produced response
  · obtain ⟨response, answer⟩ := answered
    have more : s.workers.gained ⟨i, .reply (replyOf (s.node.perform turn).1)⟩ =
        [⟨UInt32.ofNat partition, UInt64.ofNat response.baseOffset,
          UInt64.ofNat response.lastOffset⟩] := by
      rw [answer]
      simp only [Workers.gained, here]
      rfl
    rw [more] at moved
    obtain ⟨tallied, full⟩ := tally.acknowledged request answer moved evolves tells chronicle
    exact ⟨tallied, fun _ => full⟩
  · have silent : ∀ response, (s.node.perform turn).1 ≠ .produced response :=
      fun response answer => answered ⟨response, answer⟩
    have nothing :
        ∀ base last, Act.reply (replyOf (s.node.perform turn).1) ≠
          .reply (.acknowledged base last) := by
      intro base last same
      unfold replyOf at same
      split at same
      next answer => exact silent _ answer
      · cases same
      · cases same
    rw [gained_none nothing, List.append_nil] at moved
    obtain ⟨tallied, full⟩ := tally.passes moved evolves chronicle
    exact ⟨tallied, fun healthy => full fun _ _ => by rw [firm healthy silent]⟩

theorem Tally.step {move : Move} {past : List (Event Rig Move Unit)} (small : limit < 2 ^ 31)
    (tally : Tally limit p initial J L s) (steady : Steady limit p past s move) :
    ∃ J' L', Tally limit p initial J' L' (p.play partitionCount s move).2 ∧
      (move.Undisturbed p →
        Full p initial L s → Full p initial L' (p.play partitionCount s move).2) := by
  have nothing : ∀ i act, (∀ base last, act ≠ .reply (.acknowledged base last)) →
      (p.perform partitionCount s.workers ⟨i, act⟩).2.held.Perm s.workers.held := by
    intro i act absent
    have moved := @perform_held p partitionCount s.workers ⟨i, act⟩
    rwa [gained_none absent, List.append_nil] at moved
  obtain ⟨history, chronicle⟩ := tally.chronicle
  cases move with
  | worker i expired =>
    obtain ⟨after, full⟩ := tally.quiet (nothing i (.go expired) (by simp))
    exact ⟨J, L, after, fun _ => full⟩
  | lose i code isCanceled =>
    obtain ⟨after, full⟩ := tally.quiet (nothing i (.reply (.failed code isCanceled)) (by simp))
    exact ⟨J, L, after, fun _ => full⟩
  | other turn =>
    obtain ⟨J', L', evolves, _, next⟩ := chronicle.advances small (steady turn rfl)
    obtain ⟨after, full⟩ := tally.passes (List.Perm.refl _) evolves ⟨_, next⟩
    refine ⟨J', L', after,
      fun undisturbed => full fun id listed => evolves.keeps listed fun b sent => undisturbed ?_⟩
    unfold Broker.Call.sends at sent
    split at sent
    next now name partition records call =>
      rw [call, sent.1]
      rfl
    · exact sent.elim
  | serve i now stamps faults =>
    cases asked : s.turn? p (.serve i now stamps faults) with
    | none =>
      simp only [ProducerBench.play, asked]
      exact ⟨J, L, tally, fun _ full => full⟩
    | some turn =>
      obtain ⟨size, partition, here, request⟩ := turn?_serve asked
      have admitted : SteadyTurn limit history s.node turn := steady turn asked
      simp only [ProducerBench.play, asked]
      subst request
      by_cases healthy : faults = []
      · subst healthy
        obtain ⟨J', L', evolves, tells, next, firm⟩ := chronicle.produce_firm small rfl admitted
        exact ⟨J', L', tally.served here rfl evolves tells ⟨_, next⟩ fun _ => firm⟩
      · obtain ⟨J', L', evolves, tells, next⟩ := chronicle.advances small admitted
        exact ⟨J', L',
          tally.served here rfl evolves tells ⟨_, next⟩ fun absent => absurd absent healthy⟩

theorem play_node (s : Rig) (move : Move) :
    (p.play partitionCount s move).2.node =
      ((s.turn? p move).map fun turn => (s.node.perform turn).2).getD s.node := by
  cases move with
  | worker i expired => rfl
  | lose i code isCanceled => rfl
  | other turn => rfl
  | serve i now stamps faults =>
    unfold ProducerBench.play
    cases s.turn? p (.serve i now stamps faults) <;> rfl

theorem node_run {past : List Broker.NodeEvent} {moves : List (Event Rig Move Unit)} {w : Workers}
    {n : Node} (run : Run Node.perform (SteadyTurn limit) Node.new past n)
    (bench : Run (p.play partitionCount) (Steady limit p) ⟨w, n⟩ moves s) :
    ∃ past', Run Node.perform (SteadyTurn limit) Node.new past' s.node := by
  refine @Run.invariant _ _ _ _ _ _ _ _
    (fun _ s => ∃ past', Run Node.perform (SteadyTurn limit) Node.new past' s.node) bench
    ⟨past, run⟩ ?_
  rintro _ s move ⟨past', run⟩ steady
  rw [play_node]
  cases asked : s.turn? p move with
  | none => exact ⟨past', run⟩
  | some turn => exact ⟨_, .step run (steady turn asked)⟩

end Run

/-! ## What DescribeTopic tells the benchmark -/

section Described

variable {limit : Int} {J : Bytes → Nat → Journal} {L : Bytes → Nat → List Batch} {n : Node}
  {past : List Broker.NodeEvent} {topic : Bytes} {t : Broker.TopicMetadata}

theorem fill_offsets (stores : List Store) (k : Nat) (offsets : UInt32 → UInt64) (id : UInt32)
    (fits : k + stores.length ≤ 2 ^ 32) :
    (stores.zipIdx k).foldl
      (fun offsets x => Function.update offsets (UInt32.ofNat x.2) (UInt64.ofNat x.1.logEndOffset))
      offsets id =
      if k ≤ id.toNat then
        (stores[id.toNat - k]?).elim (offsets id) fun s => UInt64.ofNat s.logEndOffset
      else offsets id := by
  induction stores generalizing k offsets with
  | nil => simp
  | cons s rest ih =>
    rw [List.length_cons] at fits
    have place : (UInt32.ofNat k).toNat = k := UInt32.toNat_ofNat_of_lt' (by show k < 2 ^ 32; omega)
    rw [List.zipIdx_cons, List.foldl_cons, ih (k + 1) _ (by omega)]
    rcases Nat.lt_trichotomy id.toNat k with before | here | behind
    · have other : id ≠ UInt32.ofNat k := fun same => by rw [same, place] at before; omega
      rw [if_neg (by omega), if_neg (by omega), Function.update_of_ne other]
    · have own : id = UInt32.ofNat k := UInt32.toNat_inj.mp (here.trans place.symm)
      rw [if_neg (by omega), if_pos (by omega), own, Function.update_self, place, Nat.sub_self]
      rfl
    · have other : id ≠ UInt32.ofNat k := fun same => by rw [same, place] at behind; omega
      rw [if_pos (by omega), if_pos (by omega), Function.update_of_ne other,
        show id.toNat - k = id.toNat - (k + 1) + 1 by omega, List.getElem?_cons_succ]

theorem logEndOffsets_described (small : limit < 2 ^ 31)
    (run : Run Node.perform (SteadyTurn limit) Node.new past n)
    (chronicle : ∃ past, Chronicle limit past n J L) (described : describeTopic? n topic = some t)
    (id : UInt32) :
    (n.tree.Lists topic id.toNat →
      (logEndOffsets (endOffsets t) id).toNat = span (L topic id.toNat)) ∧
      (¬ n.tree.Lists topic id.toNat → (logEndOffsets (endOffsets t) id).toNat = 0) := by
  obtain ⟨_, chronicle⟩ := chronicle
  obtain ⟨sv, running, told⟩ := Option.bind_eq_some_iff.mp described
  have answered : Broker.describeTopicRequest topic sv.topicManager = .ok t := by
    cases answer : Broker.describeTopicRequest topic sv.topicManager with
    | error reason =>
      rw [answer] at told
      cases told
    | ok t' =>
      rw [answer] at told
      cases told
      rfl
  obtain ⟨_, topic', found, rfl⟩ := Broker.describeTopicRequest_ok.mp answered
  have proper := (Broker.running_topics small run running topic).2 topic' found
  have rooted : Rooted limit J ⟨some sv.topicManager, n.tree⟩ := by
    have rooted := chronicle.rooted
    rwa [running] at rooted
  have few : topic'.partitions.length ≤ 2 ^ 32 := by
    have high := proper.high
    simp only [Topic.entry, maxPartitionsPerTopic] at high
    omega
  have filled : logEndOffsets (endOffsets (Broker.convertToProtoMetadata topic')) id =
      (topic'.partitions[id.toNat]?).elim 0 fun s => UInt64.ofNat s.logEndOffset := by
    have fill := fill_offsets topic'.partitions 0 (fun _ => 0) id (by omega)
    rw [if_pos (Nat.zero_le _), Nat.sub_zero] at fill
    rw [← fill, logEndOffsets, endOffsets, Broker.convertToProtoMetadata, List.map_map,
      List.foldl_map]
    rfl
  have store : sv.topicManager.store? topic id.toNat = topic'.partitions[id.toNat]? :=
    store?_eq found
  rw [filled, ← store]
  constructor
  · intro listed
    obtain ⟨s, here⟩ := rooted.lists.mp listed
    have logEnd := rooted.logEnd here
    have logged := chronicle.streams.logEnd listed
    have below := (rooted.tracks topic id.toNat).holds.valid.logEnd_lt
    rw [here, logged, ← logEnd]
    exact UInt64.toNat_ofNat_of_lt (by rw [logEnd]; exact below)
  · intro absent
    cases here : sv.topicManager.store? topic id.toNat with
    | none => rfl
    | some s => exact absurd (rooted.lists.mpr ⟨s, here⟩) absent

end Described

/-! ## The verification against the broker -/

section Verification

variable {limit : Int} {p : ProducerBench} {n : Node} {past : List Broker.NodeEvent}
  {t t' : Broker.TopicMetadata} {moves : List (Event Rig Move Unit)} {s : Rig}
  {advance continuity : PartitionOrder}

theorem tally_start (small : limit < 2 ^ 31)
    (run : Run Node.perform (SteadyTurn limit) Node.new past n)
    (described : describeTopic? n p.topic = some t) :
    ∃ J L, Tally limit p (fun id => (logEndOffsets (endOffsets t) id).toNat) J L ⟨p.start, n⟩ ∧
      Full p (fun id => (logEndOffsets (endOffsets t) id).toNat) L ⟨p.start, n⟩ := by
  obtain ⟨J, L, chronicle⟩ := Broker.chronicle_run small run
  have told := logEndOffsets_described small run ⟨past, chronicle⟩ described
  have nothing : p.start.held = [] := by
    rw [Workers.held, ProducerBench.start]
    simp [List.filterMap_replicate, Stage.range?]
  refine ⟨J, L, ⟨⟨past, chronicle⟩, ?_, fun id => (told id).2,
    fun id listed => ((told id).1 listed).le, ?_⟩, ?_⟩
  · intro r member
    rw [nothing] at member
    cases member
  · intro id _ offset
    rw [nothing]
    exact Nat.zero_le _
  · intro id listed offset
    dsimp only
    rw [nothing, (told id).1 listed, grown, if_neg (by omega)]
    exact Nat.zero_le _

theorem held_returned {w : Workers} (done : ∀ stage ∈ w.stages, stage = .returned) :
    w.held = w.shared.ranges := by
  have nothing : w.stages.filterMap Stage.range? = [] := by
    rw [List.filterMap_eq_nil_iff]
    intro stage member
    rw [done stage member]
    rfl
  rw [Workers.held, nothing, List.append_nil]

theorem coverage_pos {ranges : List AcknowledgedRange} {id : UInt32} {offset : Nat} :
    0 < coverage ranges id offset ↔ ∃ r ∈ ranges, r.partition = id ∧ offset ∈ r.offsets := by
  constructor
  · intro positive
    by_contra nobody
    have nothing : coverage ranges id offset = 0 := by
      apply List.sum_eq_zero
      intro count made
      obtain ⟨r, member, rfl⟩ := List.mem_map.mp made
      exact if_neg fun here => nobody ⟨r, member, here.1, here.2⟩
    omega
  · rintro ⟨r, member, mine, inside⟩
    have one : r.covers id offset = 1 := if_pos ⟨mine, inside.1, inside.2⟩
    have most := covers_le_coverage member id offset
    omega

/-- What the verification sees when the workers have returned. -/
theorem verify_tally {J : Bytes → Nat → Journal} {L : Bytes → Nat → List Batch}
    (small : limit < 2 ^ 31) (run : Run Node.perform (SteadyTurn limit) Node.new past s.node)
    (described : describeTopic? s.node p.topic = some t')
    (tally : Tally limit p (fun id => (logEndOffsets (endOffsets t) id).toNat) J L s)
    (done : ∀ stage ∈ s.workers.stages, stage = .returned) :
    verify advance continuity (endOffsets t) (endOffsets t') s.workers.shared.ranges = .ok () ↔
      ∀ r ∈ s.workers.shared.ranges,
        ∀ offset, (logEndOffsets (endOffsets t) r.partition).toNat ≤ offset →
        offset < (logEndOffsets (endOffsets t') r.partition).toNat →
          0 < coverage s.workers.shared.ranges r.partition offset := by
  have told := logEndOffsets_described small run tally.chronicle described
  have held := held_returned done
  have bounded : ∀ id offset, coverage s.workers.shared.ranges id offset ≤
      grown (logEndOffsets (endOffsets t) id).toNat (logEndOffsets (endOffsets t') id).toNat
        offset := by
    intro id offset
    rw [← held]
    by_cases listed : s.node.tree.Lists p.topic id.toNat
    · rw [(told id).1 listed]
      exact tally.bounded id listed offset
    · rw [tally.unlisted listed]
      exact Nat.zero_le _
  rw [verify_iff_covered (fun r member => (tally.listed r (held ▸ member)).2) bounded]
  constructor
  · intro once r member offset low high
    rw [once r.partition (List.mem_map_of_mem member) offset, grown, if_pos ⟨low, high⟩]
    exact Nat.one_pos
  · intro all id member offset
    obtain ⟨r, present, rfl⟩ := List.mem_map.mp member
    have most := bounded r.partition offset
    unfold grown at most ⊢
    split_ifs at most ⊢ with inside
    · have nonempty := all r present offset inside.1 inside.2
      omega
    · omega

/-- Whatever fails, dies or is written by others while the benchmark runs, its verification passes
    just when every offset by which the partitions with an acknowledged range have grown was
    acknowledged to it. Partitions without one are not looked at. -/
theorem verification_exact (small : limit < 2 ^ 31)
    (run : Run Node.perform (SteadyTurn limit) Node.new past n)
    (described : describeTopic? n p.topic = some t)
    (bench : Run (p.play t.partitionCount) (Steady limit p) ⟨p.start, n⟩ moves s)
    (done : ∀ stage ∈ s.workers.stages, stage = .returned)
    (described' : describeTopic? s.node p.topic = some t') :
    verify advance continuity (endOffsets t) (endOffsets t') s.workers.shared.ranges = .ok () ↔
      ∀ r ∈ s.workers.shared.ranges,
        ∀ offset, (logEndOffsets (endOffsets t) r.partition).toNat ≤ offset →
        offset < (logEndOffsets (endOffsets t') r.partition).toNat →
        ∃ r' ∈ s.workers.shared.ranges, r'.partition = r.partition ∧ offset ∈ r'.offsets := by
  obtain ⟨J, L, first, _⟩ := tally_start small run described
  obtain ⟨J', L', tally⟩ : ∃ J L,
      Tally limit p (fun id => (logEndOffsets (endOffsets t) id).toNat) J L s := by
    refine @Run.invariant _ _ _ _ _ _ _ _ (fun _ s => ∃ J L, Tally limit p _ J L s) bench
      ⟨J, L, first⟩ ?_
    rintro moves s move ⟨J, L, tally⟩ steady
    obtain ⟨J', L', after, _⟩ := tally.step small steady
    exact ⟨J', L', after⟩
  obtain ⟨past', run'⟩ := node_run run bench
  simp only [verify_tally small run' described' tally done, coverage_pos]

def servedBatch (now : Instant) : List Move :=
  [.worker 0 false, .worker 0 false, .worker 0 false, .serve 0 now (fun _ => 0) [], .worker 0 false,
    .worker 0 false, .worker 0 false]

/-- A record of somebody else behind the benchmark's own is noticed. -/
theorem verification_exact_foreign :
    let history := execute Node.perform [] Node.new
      [⟨.start .inOrder Configuration.defaultStorage 0 0, []⟩, ⟨.createTopic [116] 1 ⟨0, 0⟩, []⟩,
       ⟨.produce 4000000 [116] 0 [⟨none, some [1], [], 0⟩], []⟩]
    let p : ProducerBench := ⟨[116], 1, 1, 0, 1, 1, -1, false⟩
    let rig := execute (p.play 1) [] ⟨p.start, history.2⟩
      (servedBatch 5000000 ++ [.other ⟨.produce 6000000 [116] 0 [⟨none, some [2], [], 0⟩], []⟩,
        .worker 0 false, .worker 0 false])
    (describeTopic? history.2 [116]).isSome ∧ (describeTopic? rig.2.node [116]).isSome ∧
      ∀ t ∈ describeTopic? history.2 [116], ∀ t' ∈ describeTopic? rig.2.node [116],
        rig.2.workers.shared.ranges = [⟨0, 1, 1⟩] ∧
          verify .inOrder .inOrder (endOffsets t) (endOffsets t') rig.2.workers.shared.ranges ≠
            .ok () := by
  intro history p rig
  refine ⟨by decide +kernel, by decide +kernel, fun t described t' described' => ?_⟩
  have count : ∀ t ∈ describeTopic? history.2 [116], t.partitionCount = 1 := by decide +kernel
  have grown : ∀ t ∈ describeTopic? history.2 [116],
      (logEndOffsets (endOffsets t) 0).toNat = 1 := by decide +kernel
  have grown' : ∀ t ∈ describeTopic? rig.2.node [116],
      (logEndOffsets (endOffsets t) 0).toNat = 3 := by decide +kernel
  have ranges : rig.2.workers.shared.ranges = [⟨0, 1, 1⟩] := by decide +kernel
  have bench : Run (p.play t.partitionCount) (Steady 5242880 p) ⟨p.start, history.2⟩ rig.1
      rig.2 := by
    rw [count t described]
    exact run_execute .start (by decide +kernel)
  refine ⟨ranges, fun passed => ?_⟩
  have all := (@verification_exact 5242880 p _ _ t t' _ _ .inOrder .inOrder (by decide)
    (run_execute .start (by decide +kernel)) described bench (by decide +kernel) described').mp
    passed
  rw [ranges] at all
  obtain ⟨r, member, _, inside⟩ :=
    all ⟨0, 1, 1⟩ List.mem_cons_self 2 (by rw [grown t described]; decide)
    (by rw [grown' t' described']; decide)
  rw [List.mem_singleton.mp member] at inside
  exact absurd inside.2 (by decide)

/-- Where nobody else writes to the topic, the disk is healthy under its requests and every request
    that is served is answered, the benchmark's verification finds nothing to object to. Between the
    requests the broker may die and start again, and a request may get lost on its way there. -/
theorem verification_passes {reason : VerificationError} (small : limit < 2 ^ 31)
    (run : Run Node.perform (SteadyTurn limit) Node.new past n)
    (described : describeTopic? n p.topic = some t)
    (bench : Run (p.play t.partitionCount)
      (fun moves s move => Steady limit p moves s move ∧ move.Undisturbed p) ⟨p.start, n⟩ moves s)
    (done : ∀ stage ∈ s.workers.stages, stage = .returned)
    (described' : describeTopic? s.node p.topic = some t') :
    p.result s.workers.shared advance continuity (endOffsets t) (endOffsets t') ≠
      .error (.verification reason) := by
  obtain ⟨J, L, first, full⟩ := tally_start small run described
  obtain ⟨J', L', tally, full⟩ : ∃ J L,
    Tally limit p (fun id => (logEndOffsets (endOffsets t) id).toNat) J L s ∧
      Full p (fun id => (logEndOffsets (endOffsets t) id).toNat) L s := by
    refine @Run.invariant _ _ _ _ _ _ _ _ (fun _ s => ∃ J L, Tally limit p _ J L s ∧ Full p _ L s)
      bench ⟨J, L, first, full⟩ ?_
    rintro moves s move ⟨J, L, tally, full⟩ ⟨steady, undisturbed⟩
    obtain ⟨J', L', after, still⟩ := tally.step small steady
    exact ⟨J', L', after, still undisturbed full⟩
  obtain ⟨past', run'⟩ := node_run run (bench.mono fun _ _ _ both => both.1)
  have passed : verify advance continuity (endOffsets t) (endOffsets t') s.workers.shared.ranges =
      .ok () := by
    rw [verify_tally small run' described' tally done]
    intro r member offset low high
    have held := held_returned done
    have listed := (tally.listed r (held ▸ member)).1
    have told := (logEndOffsets_described small run' tally.chronicle described' r.partition).1
      listed
    have covered := full r.partition listed offset
    rw [grown, if_pos ⟨low, told ▸ high⟩, held] at covered
    exact covered
  unfold ProducerBench.result
  rw [passed]
  split <;> simp

/-- A request gets lost, the broker dies and starts again; the second request is served. -/
theorem verification_passes_restarted :
    let start : Turn := ⟨.start .inOrder Configuration.defaultStorage 0 0, []⟩
    let history := execute Node.perform [] Node.new [start, ⟨.createTopic [116] 1 ⟨0, 0⟩, []⟩]
    let p : ProducerBench := ⟨[116], 1, 2, 0, 1, 1, -1, false⟩
    let rig := execute (p.play 1) [] ⟨p.start, history.2⟩
      ([.worker 0 false, .worker 0 false, .worker 0 false, .other ⟨.kill, []⟩, .lose 0 14 false,
        .other start, .worker 0 false, .worker 0 false, .worker 0 false, .worker 0 false] ++
        servedBatch 5000000 ++ [.worker 0 false, .worker 0 false])
    (describeTopic? history.2 [116]).isSome ∧ (describeTopic? rig.2.node [116]).isSome ∧
      ∀ t ∈ describeTopic? history.2 [116], ∀ t' ∈ describeTopic? rig.2.node [116],
        rig.2.workers.shared.ranges = [⟨0, 0, 0⟩] ∧ rig.2.workers.shared.failed = 1 ∧
          ∀ reason, p.result rig.2.workers.shared .inOrder .inOrder (endOffsets t) (endOffsets t') ≠
            .error (.verification reason) := by
  intro start history p rig
  refine ⟨by decide +kernel, by decide +kernel, fun t described t' described' => ?_⟩
  have count : ∀ t ∈ describeTopic? history.2 [116], t.partitionCount = 1 := by decide +kernel
  have bench : Run (p.play t.partitionCount)
      (fun moves s move => Steady 5242880 p moves s move ∧ move.Undisturbed p)
      ⟨p.start, history.2⟩ rig.1 rig.2 := by
    rw [count t described]
    exact run_execute .start (by decide +kernel)
  refine ⟨by decide +kernel, by decide +kernel, fun reason => ?_⟩
  exact @verification_passes 5242880 p _ _ t t' _ _ .inOrder .inOrder reason (by decide)
    (run_execute .start (by decide +kernel)) described bench (by decide +kernel) described'

end Verification

end MessageBroker.Bench.Production
