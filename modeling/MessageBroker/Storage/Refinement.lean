import MessageBroker.Storage.History

namespace MessageBroker.Storage

open Faulty Runs

def never : Fault → Prop := fun _ => False

/-- The next call of a run on a healthy disk. A process may be started with any settings, as long as
    they admit every batch written so far. -/
def HealthyCall (past : List Event) (p : Partition) (step : Step) : Prop :=
  step.faults = [] ∧
    match step.action with
    | .openStore config =>
      config.maxBatchBytes < 2 ^ 31 ∧ ∀ b ∈ written past, (b.size : Int) ≤ config.maxBatchBytes
    | .append _ records => ∀ s ∈ p.store, s.logEndOffset + records.length < 2 ^ 64
    | _ => True

instance (past : List Event) (p : Partition) : ∀ step, Decidable (HealthyCall past p step)
  | ⟨.openStore config, faults⟩ =>
    inferInstanceAs (Decidable (faults = [] ∧ config.maxBatchBytes < 2 ^ 31 ∧
      ∀ b ∈ written past, (b.size : Int) ≤ config.maxBatchBytes))
  | ⟨.append _ records, faults⟩ =>
    inferInstanceAs
      (Decidable (faults = [] ∧ ∀ s ∈ p.store, s.logEndOffset + records.length < 2 ^ 64))
  | ⟨.read _ _, faults⟩ | ⟨.applyRetention _ _ _, faults⟩ | ⟨.closeStore, faults⟩ =>
    inferInstanceAs (Decidable (faults = [] ∧ True))

/-- What a log that is only ever appended to does in one step: the acknowledged records are its
    content, each at the offset of its place. -/
structure LogStep (past : List Event) (event : Event) : Prop where
  append : ∀ now records base last, event.input.action = .append now records →
    event.outcome = .appended base last →
    (∃ s, event.before.store = some s ∧ base = s.logEndOffset) ∧ base = (acknowledged past).length ∧
      last = base + records.length - 1 ∧ records ≠ []
  read : ∀ offset maxBytes records, event.input.action = .read offset maxBytes →
    event.outcome = .found records →
    records <+: (acknowledged past).drop offset
  offsets : ∀ (i : Nat) (r : StoredRecord), (acknowledged (past ++ [event]))[i]? = some r →
    r.offset = i
  logEnd : ∀ s ∈ event.after.store, s.logEndOffset = (acknowledged (past ++ [event])).length ∧
    s.earliestOffset ≤ s.logEndOffset
  grows : ∀ earlier ∈ past, ∀ s ∈ earlier.after.store, ∀ s' ∈ event.after.store,
    s.earliestOffset ≤ s'.earliestOffset ∧ s.logEndOffset ≤ s'.logEndOffset
  readable : ∀ s ∈ event.after.store, s.closed = false → s.writeFailed = false →
    (∀ b ∈ written (past ++ [event]), b.Readable) →
    ∀ offset maxBytes, s.earliestOffset ≤ offset → offset < s.logEndOffset → 0 < maxBytes →
      ∃ r rest, (event.after.perform ⟨.read offset maxBytes, []⟩).1 = .found (r :: rest) ∧
        (acknowledged (past ++ [event]))[offset]? = some r

theorem Holds.valid {P : Policy} {J : Journal} {d : Directory} (holds : Holds P J d) : J.Valid := by
  rcases holds with laid | ⟨rfl, _⟩
  · exact laid.valid
  · exact Journal.initial_valid

section Recalls

variable {allowed : Fault → Prop} {past : List Event} {event : Event} {J J' : Journal}

@[simp] theorem written_append (past : List Event) (event : Event) :
    written (past ++ [event]) = written past ++ (writtenBy event).toList := by
  simp only [written, List.filterMap_append, List.append_cancel_left_eq]
  cases found : writtenBy event <;> simp [found]

@[simp] theorem acknowledged_append (past : List Event) (event : Event) :
    acknowledged (past ++ [event]) = acknowledged past ++ acknowledgedBy event := by
  simp [acknowledged]

theorem storedFrom_append (base : Nat) (left right : List Batch) :
    storedFrom base (left ++ right) = storedFrom base left ++ storedFrom (base + span left) right :=
  spread_append base left right

/-- The history accounts for the journal: its batches are the last of those written. -/
structure Recalls (past : List Event) (J : Journal) : Prop where
  batches : ∃ gone, written past = gone ++ J.batches ∧ J.floor = span gone
  records : acknowledged past = storedFrom 0 (written past)
  consecutive : Consecutive 0 (acknowledged past)
  offsets : ∀ event ∈ past,
    ∀ s ∈ event.after.store, s.earliestOffset ≤ J.floor ∧ s.logEndOffset ≤ J.logEnd

theorem Recalls.span_written (recalls : Recalls past J) : span (written past) = J.logEnd := by
  obtain ⟨gone, batches, floor⟩ := recalls.batches
  rw [batches, span_append, Journal.logEnd, floor]

/-- The journal's records are those of the whole log from its floor on. -/
theorem Journal.drop_log {log gone : List Batch} {offset : Nat} (batches : log = gone ++ J.batches)
    (floor : J.floor = span gone) (low : J.floor ≤ offset) :
    (storedFrom 0 log).drop offset = J.records.drop (offset - J.floor) := by
  have front := storedFrom_length 0 gone
  rw [batches, storedFrom_append, Nat.zero_add, ← floor, List.drop_append,
    List.drop_eq_nil_of_le (by omega), List.nil_append, front, ← floor]
  rfl

theorem Recalls.drop_acknowledged (recalls : Recalls past J) {offset : Nat}
    (low : J.floor ≤ offset) :
    (acknowledged past).drop offset = J.records.drop (offset - J.floor) := by
  obtain ⟨gone, batches, floor⟩ := recalls.batches
  rw [recalls.records]
  exact J.drop_log batches floor low

theorem Recalls.length_acknowledged (recalls : Recalls past J) :
    (acknowledged past).length = J.logEnd := by
  rw [recalls.records, storedFrom_length, recalls.span_written]

theorem Moves.acknowledged (moves : Moves allowed event.before J event.input.action event.outcome
    J') :
    acknowledgedBy event = storedFrom J.logEnd (writtenBy event).toList := by
  obtain ⟨p, ⟨action, faults⟩, outcome, p'⟩ := event
  cases moves with
  | appended _ _ _ _ =>
    simp [acknowledgedBy, writtenBy, writtenOf, storedFrom, spread, Batch.stored]
  | retained _ _ => rfl
  | closed _ => rfl
  | noStore _ _ _ => cases action <;> rfl
  | _ => rfl

theorem Moves.written_valid (moves : Moves allowed event.before J event.input.action event.outcome
    J') (valid : J'.Valid) :
    ValidFrom J.logEnd (writtenBy event).toList := by
  obtain ⟨p, ⟨action, faults⟩, outcome, p'⟩ := event
  cases moves with
  | appended _ _ _ _ =>
    have all := valid.validFrom
    rw [Journal.push_batches, Journal.push_floor, validFrom_append] at all
    exact all.2
  | retained _ _ => trivial
  | closed _ => trivial
  | noStore _ _ _ => cases action <;> trivial
  | _ => trivial

theorem Recalls.step {P : Policy} {settings : Config → Prop} (recalls : Recalls past J)
    (moves : Moves never event.before J event.input.action event.outcome J')
    (tracks : Tracks never P settings J' event.after) : Recalls (past ++ [event]) J' := by
  obtain ⟨gone', added, adds, batches', floor'⟩ := moves.effect
  have end' := effect_logEnd batches' floor'
  have exact_ : added = (writtenBy event).toList :=
    adds.resolve_right fun ⟨shaky, _⟩ => not_shaky_never shaky
  obtain ⟨gone, batches, floor⟩ := recalls.batches
  refine ⟨⟨gone ++ gone', ?_, ?_⟩, ?_, ?_, ?_⟩
  · rw [written_append, batches, List.append_assoc, ← exact_, batches', List.append_assoc]
  · rw [floor', floor, span_append]
  · rw [acknowledged_append, written_append, storedFrom_append, recalls.records, moves.acknowledged,
      recalls.span_written, Nat.zero_add]
  · rw [acknowledged_append, moves.acknowledged]
    refine recalls.consecutive.append ?_
    rw [Nat.zero_add, recalls.length_acknowledged]
    exact storedFrom_consecutive (moves.written_valid tracks.holds.valid)
  · intro other member s opened
    rcases List.mem_append.mp member with member | member
    · have before := recalls.offsets other member s opened
      omega
    · rw [List.mem_singleton.mp member] at opened
      obtain ⟨sameEnd, sameFloor⟩ := tracks.offsets opened
      omega

end Recalls

section Healthy

variable {past : List Event} {p : Partition} {step : Step} {J : Journal} {s : Store} {d : Directory}

/-- Without torn tails the limit on batches is only a fact about those that are there. -/
theorem Holds.relimit {limit limit' : Int} (holds : Holds (quietPolicy limit) J d)
    (small : ∀ b ∈ J.batches, (b.size : Int) ≤ limit') : Holds (quietPolicy limit') J d := by
  rcases holds with laid | fresh
  · exact Or.inl ⟨laid.valid, small, laid.closed, laid.active, laid.only, laid.above⟩
  · exact Or.inr fresh

theorem greedy_prefix (maxBytes : Int) (records : List StoredRecord) :
    greedy maxBytes records <+: records := by
  have fits : ∀ used (records : List StoredRecord), fitting maxBytes used records <+: records := by
    intro used records
    induction records generalizing used with
    | nil => exact List.prefix_refl _
    | cons r rest ih =>
      unfold fitting
      split_ifs
      · exact List.nil_prefix
      · exact List.prefix_cons_inj r |>.mpr (ih _)
  cases records with
  | nil => exact List.prefix_refl _
  | cons r rest => exact List.prefix_cons_inj r |>.mpr (fits _ _)

theorem Represents.read_gives {limit : Int} {offset : Nat} {maxBytes : Int}
    (represents : Represents limit J s d) (running : s.closed = false ∧ s.writeFailed = false)
    (readable : ∀ b ∈ J.batches, b.Readable) (positive : 0 < maxBytes)
    (low : J.floor ≤ offset) (high : offset ≤ J.logEnd) :
    Partition.perform ⟨some s, d⟩ ⟨.read offset maxBytes, []⟩ =
      (.found (greedy maxBytes (J.records.drop (offset - J.floor))), ⟨some s, d⟩) := by
  have quiet : ∀ fault ∈ ([] : List Fault), never fault := by simp
  refine settled (fun outcome after => (outcome, after) = (.found _, ⟨some s, d⟩)) quiet
    (meets_read represents ?_ ?_ ?_ ?_)
  · intro reason refused
    have earliest := represents.earliestOffset
    have logEnd := represents.logEndOffset
    cases refused with
    | limit small => omega
    | closed closed => simp [running.1] at closed
    | poisoned poisoned => simp [running.2] at poisoned
    | outOfRange outside => omega
  · exact fun _ _ _ _ _ => rfl
  · rintro (shaky | ⟨b, member, bad⟩)
    · exact absurd shaky not_shaky_never
    · exact absurd (readable b member) bad
  · exact fun shaky => absurd shaky not_shaky_never

theorem Represents.read_finds {limit : Int} {offset : Nat} {maxBytes : Int}
    (represents : Represents limit J s d) (running : s.closed = false ∧ s.writeFailed = false)
    (readable : ∀ b ∈ J.batches, b.Readable) (positive : 0 < maxBytes)
    (low : J.floor ≤ offset) (high : offset ≤ J.logEnd) :
    (Partition.perform ⟨some s, d⟩ ⟨.read offset maxBytes, []⟩).1 =
      .found (greedy maxBytes (J.records.drop (offset - J.floor))) :=
  congrArg Prod.fst (represents.read_gives running readable positive low high)

/-- On a healthy disk a process can open what the directory holds. -/
theorem Holds.opens {P : Policy} {config : Config} (holds : Holds P J d)
    (limit : P.limit ≤ config.maxBatchBytes) (readable : ∀ b ∈ J.batches, b.Readable) :
    ∃ s d', settleOpen (openStore config ⟨(), d, []⟩) = (.opened, ⟨some s, d'⟩) ∧
      Represents P.limit J s d' ∧
      s.config = config ∧ s.closed = false ∧ s.writeFailed = false := by
  have healthy : Meets never (openStore config) () d
      ⟨fun s _ d' =>
        Represents P.limit J s d' ∧ s.config = config ∧ s.closed = false ∧ s.writeFailed = false,
       fun _ _ _ => False, fun _ => False⟩ := by
    refine meets_openStore holds limit ?_ ?_ ?_
    · exact fun s d' represents same closed running => ⟨represents, same, closed, running⟩
    · rintro (shaky | ⟨b, member, bad⟩)
      · exact absurd shaky not_shaky_never
      · exact absurd (readable b member) bad
    · exact fun shaky => absurd shaky not_shaky_never
  obtain ⟨s, _, d', ran, opened⟩ :=
    healthy.succeeds (fun _ _ _ impossible => impossible) (fun _ impossible => impossible)
  exact ⟨s, d', by rw [ran]; rfl, opened⟩

/-- On a healthy disk an open store takes a batch that is within its limits. -/
theorem Represents.appends {limit : Int} {b : Batch} {now : Instant}
    (represents : Represents limit J s d) (running : s.closed = false ∧ s.writeFailed = false)
    (config : s.config.maxBatchBytes ≤ limit) (small : limit < 2 ^ 31)
    (stamp : b.time = unixMilli now) (nonempty : b.records ≠ [])
    (size : (b.size : Int) ≤ s.config.maxBatchBytes) (relative : span J.active ≤ maxUint32)
    (room : J.logEnd + b.records.length < 2 ^ 64) :
    ∃ s' d', append now b.records ⟨s, d, []⟩ = (.ok (J.logEnd, J.logEnd + b.records.length - 1),
      ⟨s', d', []⟩) ∧
      Represents limit (J.push s.config.segmentMaxBytes b) s' d' ∧ Keeps s s' := by
  have healthy : Meets never (append now b.records) s d
      ⟨fun value s' d' => value = (J.logEnd, J.logEnd + b.records.length - 1) ∧
        Represents limit (J.push s.config.segmentMaxBytes b) s' d' ∧ Keeps s s', fun _ _ _ => False,
        fun _ => False⟩ := by
    refine meets_append (P := quietPolicy limit) represents (le_refl _)
      (fun shaky => absurd shaky not_shaky_never) (fun _ => ⟨by omega, by omega⟩) stamp room ?_
      (fun _ _ far => absurd far (not_lt.mpr relative)) ?_ ?_ ?_
    · exact fun reason refused => refused.not_takes ⟨nonempty, running.1, running.2, size⟩
    · exact fun _ _ _ _ s' d' after keeps _ => ⟨rfl, after, keeps⟩
    · exact fun _ shaky => absurd shaky not_shaky_never
    · exact fun _ shaky => absurd shaky not_shaky_never
  obtain ⟨value, s', d', ran, rfl, after⟩ :=
    healthy.succeeds (fun _ _ _ impossible => impossible) (fun _ impossible => impossible)
  exact ⟨s', d', ran, after⟩

def HealthyState (past : List Event) (p : Partition) : Prop :=
  ∃ J limit, limit < 2 ^ 31 ∧
    Tracks never (quietPolicy limit) (fun config => config.maxBatchBytes ≤ limit) J p ∧
    Recalls past J

theorem healthyState_new : HealthyState [] Partition.new := by
  refine ⟨Journal.initial, 0, by decide, .stopped (Or.inr ⟨rfl, fresh_empty⟩), ⟨[], rfl, rfl⟩, rfl,
    ?_, ?_⟩
  · exact fun _ _ found => by cases found
  · exact fun _ member => absurd member List.not_mem_nil

theorem HealthyState.follows (state : HealthyState past p) (call : HealthyCall past p step) :
    ∃ J J' limit, limit < 2 ^ 31 ∧
      Recalls past J ∧ Moves never p J step.action (p.perform step).1 J' ∧
      Tracks never (quietPolicy limit) (fun config => config.maxBatchBytes ≤ limit) J'
        (p.perform step).2 ∧
      Recalls (past ++ [happen Partition.perform p step]) J' ∧
      ∀ s, p.store = some s → s.logEndOffset = J.logEnd := by
  obtain ⟨J, limit, small, tracks, recalls⟩ := state
  obtain ⟨quiet, fits⟩ := call
  have permitted : ∀ fault ∈ step.faults, never fault := by
    rw [quiet]
    exact fun _ member => absurd member List.not_mem_nil
  have offsets : ∀ s, p.store = some s → s.logEndOffset = J.logEnd :=
    fun s opened => (tracks.offsets opened).1
  by_cases opening : ∃ config, step.action = .openStore config
  · obtain ⟨config, action⟩ := opening
    rw [action] at fits
    obtain ⟨gone, batches, _⟩ := recalls.batches
    have holds : Holds (quietPolicy config.maxBatchBytes) J p.directory :=
      tracks.holds.relimit
        fun b member => fits.2 b (by rw [batches]; exact List.mem_append_right _ member)
    have performed :
        p.perform step = settleOpen (openStore config ⟨(), p.directory, step.faults⟩) := by
      obtain ⟨_, faults⟩ := step
      subst action
      rfl
    obtain ⟨J', moves, tracks', _⟩ :=
      holds.open_follows (fun c => c.maxBatchBytes ≤ config.maxBatchBytes) permitted
      (le_refl _) (le_refl _)
    rw [← performed] at moves tracks'
    rw [← action] at moves
    exact ⟨J, J', config.maxBatchBytes, fits.1, recalls, moves, tracks',
      recalls.step moves tracks', offsets⟩
  · have fitting :
      Fitting (quietPolicy limit) (fun config => config.maxBatchBytes ≤ limit) p step.action := by
      cases action : step.action with
      | openStore config => exact absurd ⟨config, action⟩ opening
      | append now records =>
        rw [action] at fits
        exact fits
      | _ => trivial
    obtain ⟨J', moves, tracks', _⟩ := tracks.perform (fun shaky => absurd shaky not_shaky_never)
      (tracks.admits small (fun _ le => le) _) permitted fitting
    exact ⟨J, J', limit, small, recalls, moves, tracks',
      recalls.step moves tracks', offsets⟩

/-- The store refines an append-only log: through rollovers, retention passes and restarts, whatever
    it acknowledged is what it gives back. -/
theorem store_refines_log (run : Run Partition.perform HealthyCall Partition.new past p)
    (call : HealthyCall past p step) : LogStep past (happen Partition.perform p step) := by
  have state : HealthyState past p := by
    refine run.invariant healthyState_new ?_
    intro past p step state call
    obtain ⟨_, J', limit, small, _, _, tracks', recalls', _⟩ := state.follows call
    exact ⟨J', limit, small, tracks', recalls'⟩
  obtain ⟨J, J', limit, small, recalls, moves, tracks', recalls', offsets⟩ := state.follows call
  have ends : ∀ s,
      (p.perform step).2.store = some s →
        s.logEndOffset = J'.logEnd ∧ s.earliestOffset = J'.floor :=
    fun s opened => tracks'.offsets opened
  refine ⟨?_, ?_, ?_, ?_, ?_, ?_⟩
  · intro now records base last action outcome
    have accepted : Moves never p J (.append now records) (.appended base last) J' := by
      rw [← show step.action = _ from action, ← show (p.perform step).1 = _ from outcome]
      exact moves
    cases accepted with
    | appended opened _ nonempty _ =>
      exact ⟨⟨_, opened, (offsets _ opened).symm⟩, recalls.length_acknowledged.symm, rfl, nonempty⟩
  · intro offset maxBytes records action outcome
    have found : Moves never p J (.read offset maxBytes) (.found records) J' := by
      rw [← show step.action = _ from action, ← show (p.perform step).1 = _ from outcome]
      exact moves
    cases found with
    | found _ low _ =>
      rw [recalls.drop_acknowledged low]
      exact greedy_prefix _ _
  · intro i r found
    have place := recalls'.consecutive i r found
    omega
  · intro s opened
    obtain ⟨logEnd, earliest⟩ := ends s opened
    rw [recalls'.length_acknowledged]
    exact ⟨logEnd, by rw [logEnd, earliest]; exact Nat.le_add_right _ _⟩
  · intro earlier member s opened s' opened'
    obtain ⟨logEnd, earliest⟩ := ends s' opened'
    rw [logEnd, earliest]
    exact recalls'.offsets earlier (List.mem_append_left _ member) s opened
  · intro s opened running healthy readable offset maxBytes low high positive
    obtain ⟨logEnd, earliest⟩ := ends s opened
    rw [earliest] at low
    rw [logEnd] at high
    obtain ⟨gone, batches, _⟩ := recalls'.batches
    have whole := J'.records_length
    obtain ⟨r, rest, tail⟩ : ∃ r rest, J'.records.drop (offset - J'.floor) = r :: rest := by
      apply List.exists_cons_of_ne_nil
      rw [← List.length_pos_iff, List.length_drop]
      omega
    have acked : (acknowledged (past ++ [happen Partition.perform p step]))[offset]? = some r := by
      rw [← List.head?_drop, recalls'.drop_acknowledged low, tail]
      rfl
    refine ⟨r, fitting maxBytes (recordSize r) rest, ?_, acked⟩
    show ((p.perform step).2.perform ⟨.read offset maxBytes, []⟩).1 = _
    replace opened : (p.perform step).2.store = some s := opened
    generalize (p.perform step).2 = p' at tracks' opened
    cases tracks' with
    | stopped => cases opened
    | running setting represents =>
      cases opened
      have found := represents.read_finds ⟨running, healthy⟩
        (fun b member => readable b (by rw [batches]; exact List.mem_append_right _ member))
        positive low (by omega)
      rw [found, tail]
      rfl
    | broken _ shaky _ => exact absurd shaky not_shaky_never

/-- Two appends that roll to a second segment, a restart with other settings, and a read. -/
theorem store_refines_log_reopened :
    let history := execute Partition.perform [] Partition.new
      [⟨.openStore ⟨100, 1000, 10, .sync⟩, []⟩, ⟨.append 5000000 [⟨none, some [97], [], 0⟩], []⟩,
       ⟨.append 6000000 [⟨none, some [98], [], 0⟩], []⟩, ⟨.closeStore, []⟩,
       ⟨.openStore ⟨60, 500, 10, .async⟩, []⟩]
    LogStep history.1 (happen Partition.perform history.2 ⟨.read 1 100, []⟩) ∧
      (history.2.perform ⟨.read 1 100, []⟩).1 = .found [⟨1, 6, none, some [98], []⟩] :=
  ⟨store_refines_log (run_execute .start (by decide +kernel)) (by decide +kernel),
    by decide +kernel⟩

end Healthy

end MessageBroker.Storage
