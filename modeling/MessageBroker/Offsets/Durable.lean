import MessageBroker.Offsets.Session

namespace MessageBroker.Offsets

open Faulty Program Lifetimes Runs
open Storage (Shaky)

/-! ## The log behind a session -/

/-- The session stands for the log. A store that the disk has failed stays open but serves
    nobody. -/
inductive Tracks (log : List Entry) : Session → Prop where
  | stopped {d : Disk} : Holds log d → Tracks log ⟨none, d⟩
  | running {s : Store} {d : Disk} :
      s.writeFailed = false → Represents log s d → Tracks log ⟨some s, d⟩
  | broken {s : Store} {d : Disk} : s.writeFailed = true → Holds log d → Tracks log ⟨some s, d⟩

def Session.Serves (session : Session) : Prop :=
  ∃ s, session.store = some s ∧ s.closed = false ∧ s.writeFailed = false

/-- What one call does, seen from the log in front of it. -/
structure Follows (log : List Entry) (event : Event) : Prop where
  adds : ∃ added, commitLedger.Adds event added ∧ Tracks (log ++ added) event.after
  serves : ∀ on,
    (on = true ↔ event.before.Serves) → (servesAfter on event = true ↔ event.after.Serves)
  entry : committedBy event ≠ none ∨ attemptedBy event ≠ none → event.before.Serves
  get : ∀ key, event.input.action = .get key →
    event.before.Serves → event.outcome = .found (latest log key)
  refused : ¬ event.before.Serves → (∀ nextOffset, event.outcome ≠ .found nextOffset) ∧
    event.outcome ≠ .committed
  rejected : event.outcome = .failed .invalidGroup ∨ event.outcome = .failed .invalidTopic →
    event.after = event.before

section Steps

variable {log : List Entry} {s : Store} {d : Disk} {session : Session} {faults : List Fault}

theorem not_serves_none : ¬ Session.Serves ⟨none, d⟩ := by
  rintro ⟨s, opened, _⟩
  cases opened

theorem serves_iff : Session.Serves ⟨some s, d⟩ ↔ s.closed = false ∧ s.writeFailed = false := by
  constructor
  · rintro ⟨_, ⟨⟩, rest⟩
    exact rest
  · exact fun rest => ⟨s, rfl, rest⟩

theorem Tracks.holds (tracks : Tracks log session) : Holds log session.disk := by
  cases tracks with
  | stopped holds => exact holds
  | running _ represents => exact represents.holds
  | broken _ holds => exact holds

theorem settled {call : Program Store Disk OffsetError Unit} {report : Outcome}
    (holds : Outcome → Session → Prop) (meets : Meets (fun _ => True) call s d
      ⟨fun _ s' d' => holds report ⟨some s', d'⟩,
        fun reason s' d' => holds (.failed reason) ⟨some s', d'⟩,
       fun d' => holds .died ⟨none, d'⟩⟩) :
    holds (settle report (call ⟨s, d, faults⟩)).1 (settle report (call ⟨s, d, faults⟩)).2 := by
  have exits := meets faults (fun _ _ => trivial)
  rcases ran : call ⟨s, d, faults⟩ with ⟨_ | _ | _, after⟩ <;> rw [ran] at exits
  · exact exits.1
  · exact exits.1
  · exact exits

theorem Follows.quiet {event : Event} (after : Tracks log event.after)
    (noEntry : committedBy event = none) (noAttempt : attemptedBy event = none)
    (serves : ∀ on,
      (on = true ↔ event.before.Serves) → (servesAfter on event = true ↔ event.after.Serves))
    (get : ∀ key, event.input.action = .get key →
      event.before.Serves → event.outcome = .found (latest log key))
    (refused : ¬ event.before.Serves → (∀ nextOffset, event.outcome ≠ .found nextOffset) ∧
      event.outcome ≠ .committed)
    (rejected : event.outcome = .failed .invalidGroup ∨ event.outcome = .failed .invalidTopic →
      event.after = event.before) :
    Follows log event := by
  refine ⟨⟨[], Or.inl ?_, by rw [List.append_nil]; exact after⟩, serves, ?_, get, refused, rejected⟩
  · show [] = (committedBy event).toList
    rw [noEntry]
    rfl
  · rintro (nonempty | nonempty)
    · exact absurd noEntry nonempty
    · exact absurd noAttempt nonempty

theorem Tracks.open_follows (tracks : Tracks log session) :
    Follows log (happen Session.perform session ⟨.openStore, faults⟩) := by
  have exits : Meets (fun _ => True) openStore () session.disk
      ⟨fun s _ d' => Follows log ⟨session, ⟨.openStore, faults⟩, .opened, ⟨some s, d'⟩⟩,
       fun reason _ d' => Follows log ⟨session, ⟨.openStore, faults⟩, .failed reason, ⟨none, d'⟩⟩,
       fun d' => Follows log ⟨session, ⟨.openStore, faults⟩, .died, ⟨none, d'⟩⟩⟩ := by
    refine meets_openStore tracks.holds ?_ ?_ ?_
    · intro s d' represents opened healthy
      exact .quiet (.running healthy represents) rfl rfl
        (fun _ _ => iff_of_true rfl (serves_iff.mpr ⟨opened, healthy⟩))
        (by simp) (by simp) (by simp)
    · intro _ operation d' holds
      exact .quiet (.stopped holds) rfl rfl
        (fun _ _ => iff_of_false (by simp [servesAfter]) not_serves_none)
        (by simp) (by simp) (by simp)
    · intro _ d' holds
      exact .quiet (.stopped holds) rfl rfl
        (fun _ _ => iff_of_false (by simp [servesAfter]) not_serves_none)
        (by simp) (by simp) (by simp)
  have reached := exits faults (fun _ _ => trivial)
  show Follows log ⟨session, ⟨.openStore, faults⟩,
    (settleOpen (openStore ⟨(), session.disk, faults⟩)).1,
    (settleOpen (openStore ⟨(), session.disk, faults⟩)).2⟩
  rcases ran : openStore ⟨(), session.disk, faults⟩ with ⟨_ | _ | _, after⟩ <;> rw [ran] at reached
  · exact reached.1
  · exact reached.1
  · exact reached

section Calls

variable {now : Instant} {key : Key} {nextOffset : UInt64}

theorem meets_commit_refused {post : Post Store Disk OffsetError Unit}
    (failed : s.writeFailed = true)
    (refused : ∀ reason, (∀ operation, reason ≠ .io operation) → post.fails reason s d) :
    Meets (fun _ => True) (commit now key nextOffset) s d post := by
  unfold commit
  split_ifs
  · exact Meets.throw (refused _ (by simp))
  · exact Meets.throw (refused _ (by simp))
  apply Meets.bind
  apply Meets.memory
  dsimp only
  split_ifs
  · exact Meets.throw (refused _ (by simp))
  · exact Meets.throw (refused _ (by simp))

theorem attemptedBy_refused {before after : Session} {reason : OffsetError}
    (notIo : ∀ operation, reason ≠ .io operation) :
    attemptedBy ⟨before, ⟨.commit now key nextOffset, faults⟩, .failed reason, after⟩ = none := by
  cases reason with
  | io operation => exact absurd rfl (notIo operation)
  | _ => rfl

theorem servesAfter_refused {before after : Session} {reason : OffsetError}
    (notIo : ∀ operation, reason ≠ .io operation) (on : Bool) :
    servesAfter on ⟨before, ⟨.commit now key nextOffset, faults⟩, .failed reason, after⟩ = on := by
  cases reason with
  | io operation => exact absurd rfl (notIo operation)
  | _ => rfl

theorem Tracks.refuses {reason : OffsetError} (tracks : Tracks log session)
    (notIo : ∀ operation, reason ≠ .io operation) :
    Follows log ⟨session, ⟨.commit now key nextOffset, faults⟩, .failed reason, session⟩ := by
  refine .quiet tracks rfl (attemptedBy_refused notIo) ?_ (by simp) (by simp) (fun _ => rfl)
  intro on same
  rw [servesAfter_refused notIo]
  exact same

theorem Tracks.commit_follows (tracks : Tracks log ⟨some s, d⟩) :
    Follows log (happen Session.perform ⟨some s, d⟩ ⟨.commit now key nextOffset, faults⟩) := by
  refine settled
    (fun outcome session' =>
      Follows log ⟨⟨some s, d⟩, ⟨.commit now key nextOffset, faults⟩, outcome, session'⟩) ?_
  cases tracks with
  | running healthy represents =>
    have refuses : ∀ reason : OffsetError, (∀ operation, reason ≠ .io operation) →
        Follows log ⟨⟨some s, d⟩, ⟨.commit now key nextOffset, faults⟩, .failed reason,
          ⟨some s, d⟩⟩ :=
      fun reason notIo => (Tracks.running healthy represents).refuses notIo
    refine meets_commit represents (fun _ => refuses _ (by simp)) (fun _ => refuses _ (by simp))
      (fun _ => refuses _ (by simp)) (fun _ => refuses _ (by simp)) ?_ ?_ ?_
    · intro opened _ s' d' after opened' healthy'
      have serves : Session.Serves ⟨some s, d⟩ := serves_iff.mpr ⟨opened, healthy⟩
      refine ⟨⟨_, Or.inl rfl, .running healthy' after⟩, ?_, fun _ => serves, by simp,
        fun no => absurd serves no, by simp⟩
      exact fun on same => iff_of_true (same.mpr serves) (serves_iff.mpr ⟨opened', healthy'⟩)
    · intro _ opened _ operation d' left
      have serves : Session.Serves ⟨some s, d⟩ := serves_iff.mpr ⟨opened, healthy⟩
      refine ⟨?_, ?_, fun _ => serves, by simp, fun no => absurd serves no, by simp⟩
      · rcases left with holds | holds
        · exact ⟨[], Or.inl rfl, .broken rfl (by rw [List.append_nil]; exact holds)⟩
        · exact ⟨_, Or.inr ⟨_, rfl, rfl⟩, .broken rfl holds⟩
      · exact fun on _ => iff_of_false (by simp [servesAfter]) (by simp [serves_iff])
    · intro _ opened _ d' left
      have serves : Session.Serves ⟨some s, d⟩ := serves_iff.mpr ⟨opened, healthy⟩
      refine ⟨?_, ?_, fun _ => serves, by simp, fun no => absurd serves no, by simp⟩
      · rcases left with holds | holds
        · exact ⟨[], Or.inl rfl, .stopped (by rw [List.append_nil]; exact holds)⟩
        · exact ⟨_, Or.inr ⟨_, rfl, rfl⟩, .stopped holds⟩
      · exact fun on _ => iff_of_false (by simp [servesAfter]) not_serves_none
  | broken failed holds =>
    exact meets_commit_refused failed fun reason notIo => (Tracks.broken failed holds).refuses notIo

theorem Tracks.get_follows (tracks : Tracks log ⟨some s, d⟩) :
    Follows log (happen Session.perform ⟨some s, d⟩ ⟨.get key, faults⟩) := by
  show Follows log ⟨⟨some s, d⟩, ⟨.get key, faults⟩, answer (s.get key), ⟨some s, d⟩⟩
  refine .quiet tracks rfl rfl (fun on same => same) ?_ ?_ ?_
  · rintro _ ⟨⟩ serves
    obtain ⟨opened, healthy⟩ := serves_iff.mp serves
    cases tracks with
    | running _ represents => simp [Store.get, opened, healthy, answer, represents.offsets]
    | broken failed _ => simp [healthy] at failed
  · intro refused
    have stuck : s.closed = true ∨ s.writeFailed = true := by
      by_contra neither
      exact refused (serves_iff.mpr (by simpa using neither))
    unfold Store.get
    rcases stuck with closed | failed
    · simp [closed, answer]
    · by_cases closed : s.closed = true <;> simp [closed, failed, answer]
  · exact fun _ => rfl

theorem Tracks.close_follows (tracks : Tracks log ⟨some s, d⟩) :
    Follows log (happen Session.perform ⟨some s, d⟩ ⟨.closeStore, faults⟩) := by
  have closed : Tracks log ⟨some { s with closed := true }, d⟩ := by
    cases tracks with
    | running healthy represents => exact .running healthy { represents with }
    | broken failed holds => exact .broken failed holds
  refine settled
    (fun outcome session' => Follows log ⟨⟨some s, d⟩, ⟨.closeStore, faults⟩, outcome, session'⟩)
    (meets_closeStore ?_ ?_ ?_)
  · exact .quiet closed rfl rfl
      (fun _ _ => iff_of_false (by simp [servesAfter]) (by simp [serves_iff])) (by simp) (by simp)
      (by simp)
  · exact fun _ =>
      .quiet closed rfl rfl (fun _ _ => iff_of_false (by simp [servesAfter]) (by simp [serves_iff]))
        (by simp)
      (by simp) (by simp)
  · exact .quiet (.stopped tracks.holds) rfl rfl
      (fun _ _ => iff_of_false (by simp [servesAfter]) not_serves_none) (by simp)
      (by simp) (by simp)

end Calls

theorem Tracks.step (tracks : Tracks log session) (step : Step) :
    Follows log (happen Session.perform session step) := by
  obtain ⟨action, faults⟩ := step
  obtain ⟨store, d⟩ := session
  have noStore : ∀ action, action ≠ .openStore → store = none →
      Follows log ⟨⟨store, d⟩, ⟨action, faults⟩, .noStore, ⟨store, d⟩⟩ := by
    rintro action running rfl
    refine .quiet tracks (by cases action <;> rfl) (by cases action <;> rfl) ?_ ?_ (by simp)
      (by simp)
    · intro on same
      have off : on = false := by
        by_contra other
        exact not_serves_none (same.mp (by simpa using other))
      subst off
      cases action with
      | openStore => exact absurd rfl running
      | _ => exact same
    · exact fun _ _ serves => absurd serves not_serves_none
  cases action with
  | openStore => exact tracks.open_follows
  | commit now key nextOffset =>
    cases store with
    | none => exact noStore _ (by simp) rfl
    | some s => exact tracks.commit_follows
  | get key =>
    cases store with
    | none => exact noStore _ (by simp) rfl
    | some s => exact tracks.get_follows
  | closeStore =>
    cases store with
    | none => exact noStore _ (by simp) rfl
    | some s => exact tracks.close_follows

end Steps

/-! ## Whole histories -/

/-- One call within its history; `kept` is what the log held at that time. -/
structure Served (before : List Event) (kept : List Entry) (event : Event) : Prop where
  get : ∀ key, event.input.action = .get key →
    serving before = true → event.outcome = .found (latest kept key)
  refused : serving before = false → (∀ nextOffset, event.outcome ≠ .found nextOffset) ∧
    event.outcome ≠ .committed
  rejected : event.outcome = .failed .invalidGroup ∨ event.outcome = .failed .invalidTopic →
    event.after = event.before

/-- Every call was served from the log as it was then, and that log is the start of the one there is
    now. -/
def Told (past : List Event) (log : List Entry) : Prop :=
  ∀ before event after, past = before ++ event :: after →
    ∃ kept later alive,
      log = kept ++ later ∧ Survivors commitLedger before kept alive ∧ Served before kept event

/-- What a process finds that opens the store after the history. -/
structure Durable (past : List Event) (reopened : Outcome × Session) : Prop where
  opened : reopened.1 = .opened
  exposes : ∃ log alive, Survivors commitLedger past log alive ∧ Told past log ∧
    ∀ key, (reopened.2.perform ⟨.get key, []⟩).1 = .found (latest log key)

section Histories

variable {past : List Event} {session : Session} {log added : List Entry} {event : Event}

theorem Told.step {alive : Bool} (told : Told past log)
    (survivors : Survivors commitLedger past log alive) (served : Served past log event) :
    Told (past ++ [event]) (log ++ added) := by
  intro before other after split
  rcases List.eq_nil_or_concat after with rfl | ⟨init, last, rfl⟩
  · obtain ⟨rfl, same⟩ := List.append_inj' split rfl
    cases same
    exact ⟨log, added, alive, rfl, survivors, served⟩
  · rw [List.concat_eq_append] at split
    obtain ⟨front, _⟩ :=
      List.append_inj' (show past ++ [event] = (before ++ other :: init) ++ [last] by
      rw [split, List.append_assoc]; rfl) rfl
    obtain ⟨kept, later, alive', whole, survivors', served'⟩ := told before other init front
    exact ⟨kept, later ++ added, alive', by rw [whole, List.append_assoc], survivors', served'⟩

/-- The log behind a history. -/
def OffsetState (past : List Event) (session : Session) : Prop :=
  ∃ log alive, Tracks log session ∧ Survivors commitLedger past log alive ∧ Told past log ∧
    (serving past = true ↔ session.Serves) ∧ (session.Serves → alive = true)

theorem offsetState_new : OffsetState [] Session.new := by
  refine ⟨[], false, .stopped ⟨by simp, Or.inl ⟨rfl, rfl⟩⟩, .start, ?_,
    iff_of_false (by simp [serving]) not_serves_none, ?_⟩
  · exact fun _ _ _ split => absurd split (by simp)
  · exact fun serves => absurd serves not_serves_none

theorem servesAfter_cases {on : Bool} (serves : servesAfter on event = true) :
    event.outcome = .opened ∨ attemptedBy event = none ∧ on = true := by
  obtain ⟨before, ⟨action, faults⟩, outcome, after⟩ := event
  cases action with
  | openStore => exact Or.inl (by simpa [servesAfter] using serves)
  | commit now key nextOffset =>
    cases outcome with
    | failed reason =>
      cases reason with
      | io operation => simp [servesAfter] at serves
      | _ => exact Or.inr ⟨rfl, serves⟩
    | died => simp [servesAfter] at serves
    | _ => exact Or.inr ⟨rfl, serves⟩
  | get key => exact Or.inr ⟨rfl, serves⟩
  | closeStore => simp [servesAfter] at serves

theorem OffsetState.follows (state : OffsetState past session) (step : Step) :
    OffsetState (past ++ [happen Session.perform session step]) (session.perform step).2 := by
  obtain ⟨log, alive, tracks, survivors, told, served, lives⟩ := state
  have follows := tracks.step step
  obtain ⟨added, adds, tracks'⟩ := follows.adds
  obtain ⟨alive', survivors', living⟩ :=
    survivors.step adds fun nonempty => lives (follows.entry nonempty)
  have serves := follows.serves (serving past) served
  refine ⟨log ++ added, alive', tracks', survivors', told.step survivors ?_, ?_, ?_⟩
  · refine ⟨?_, ?_, follows.rejected⟩
    · exact fun key get on => follows.get key get (served.mp on)
    · exact fun off => follows.refused fun on => by simp [served.mpr on] at off
  · rw [serving_append]
    exact serves
  · intro on
    apply living
    rcases servesAfter_cases (serves.mpr on) with opened | ⟨nothing, before⟩
    · exact Or.inl opened
    · exact Or.inr ⟨nothing, lives (served.mp before)⟩

/-- Whatever failed and whenever the processes died, the next process that meets a healthy disk
    gives for every key the last commit that was acknowledged, or one that its lifetime ended in. -/
theorem offsets_durable (run : Run Session.perform (fun _ _ _ => True) Session.new past session) :
    Durable past (session.perform ⟨.openStore, []⟩) := by
  obtain ⟨log, alive, tracks, survivors, told, _⟩ : OffsetState past session :=
    run.invariant offsetState_new fun _ _ step state _ => state.follows step
  have healthy : Meets (fun _ => False) openStore () session.disk
      ⟨fun s _ d => Represents log s d ∧ s.closed = false ∧ s.writeFailed = false,
        fun _ _ _ => False, fun _ => False⟩ :=
    meets_openStore tracks.holds
      (fun s d represents isOpen healthy => ⟨represents, isOpen, healthy⟩)
      (fun shaky => absurd shaky Storage.not_shaky_never)
      (fun shaky => absurd shaky Storage.not_shaky_never)
  obtain ⟨s, _, d, ran, represents, isOpen, healthy⟩ :=
    healthy.succeeds (fun _ _ _ impossible => impossible) (fun _ impossible => impossible)
  have opened : session.perform ⟨.openStore, []⟩ = (.opened, ⟨some s, d⟩) := by
    show settleOpen (openStore ⟨(), session.disk, []⟩) = _
    rw [ran]
    rfl
  have served : ∀ key, Follows log (happen Session.perform ⟨some s, d⟩ ⟨.get key, []⟩) := fun key =>
    (Tracks.running healthy represents).get_follows
  rw [opened]
  exact ⟨rfl, log, alive, survivors, told,
    fun key => (served key).get key rfl (serves_iff.mpr ⟨isOpen, healthy⟩)⟩

/-- The second commit dies in its write and the third process moves the key backwards. -/
theorem offsets_durable_torn :
    let key : Key := ⟨[103], [116], 0⟩
    let history := execute Session.perform [] Session.new
      [⟨.openStore, []⟩, ⟨.commit 5000000 key 7, []⟩, ⟨.commit 6000000 key 9, [.die 20]⟩,
        ⟨.openStore, []⟩,
       ⟨.get key, []⟩, ⟨.commit 7000000 key 3, []⟩]
    Durable history.1 (history.2.perform ⟨.openStore, []⟩) ∧
      ((history.2.perform ⟨.openStore, []⟩).2.perform ⟨.get key, []⟩).1 = .found (some 3) :=
  ⟨offsets_durable (run_execute .start (by decide +kernel)), by decide +kernel⟩

end Histories

end MessageBroker.Offsets
