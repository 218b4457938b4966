import Mathlib.Data.List.Basic

namespace Lifetimes

variable {E α : Type}

/-- What the events of a history say about a log: which of them start a lifetime of the process that
    writes it, what each acknowledges, and what each attempted without an answer. -/
structure Ledger (E α : Type) where
  opens : E → Prop
  acknowledges : E → Option α
  attempts : E → Option α
  exclusive : ∀ event entry, attempts event = some entry → acknowledges event = none
  opening : ∀ event, opens event → acknowledges event = none ∧ attempts event = none

/-- The entries a history may leave in the log. A lifetime adds the entries it acknowledged, in
    order, and may end with one that it attempted without an answer: all of that entry is there, or
    nothing. The flag says whether the lifetime still goes on. -/
inductive Survivors (ledger : Ledger E α) : List E → List α → Bool → Prop where
  | start : Survivors ledger [] [] false
  | opened {past : List E} {log : List α} {alive : Bool} {event : E} :
      Survivors ledger past log alive →
        ledger.opens event → Survivors ledger (past ++ [event]) log true
  | acknowledged {past : List E} {log : List α} {event : E} {entry : α} :
      Survivors ledger past log true → ledger.acknowledges event = some entry →
      Survivors ledger (past ++ [event]) (log ++ [entry]) true
  | lost {past : List E} {log : List α} {event : E} {entry : α} :
      Survivors ledger past log true →
        ledger.attempts event = some entry → Survivors ledger (past ++ [event]) log false
  | landed {past : List E} {log : List α} {event : E} {entry : α} :
      Survivors ledger past log true → ledger.attempts event = some entry →
      Survivors ledger (past ++ [event]) (log ++ [entry]) false
  | other {past : List E} {log : List α} {alive : Bool} {event : E} :
      Survivors ledger past log alive → ¬ ledger.opens event → ledger.acknowledges event = none →
      ledger.attempts event = none → Survivors ledger (past ++ [event]) log alive

variable {ledger : Ledger E α} {past : List E} {log added : List α} {alive : Bool} {event : E}

/-- What an event adds to the log: the entry it acknowledges, or perhaps the one it attempted. -/
def Ledger.Adds (ledger : Ledger E α) (event : E) (added : List α) : Prop :=
  added = (ledger.acknowledges event).toList ∨
    ∃ entry, ledger.attempts event = some entry ∧ added = [entry]

/-- One event of a history whose entries come from a running process. -/
theorem Survivors.step (survivors : Survivors ledger past log alive)
    (adds : ledger.Adds event added)
    (running : ledger.acknowledges event ≠ none ∨ ledger.attempts event ≠ none → alive = true) :
    ∃ alive', Survivors ledger (past ++ [event]) (log ++ added) alive' ∧
      (ledger.opens event ∨ ledger.attempts event = none ∧ alive = true → alive' = true) := by
  by_cases opens : ledger.opens event
  · obtain ⟨noEntry, noAttempt⟩ := ledger.opening event opens
    rcases adds with rfl | ⟨entry, attempt, _⟩
    · rw [noEntry, Option.toList_none, List.append_nil]
      exact ⟨true, .opened survivors opens, fun _ => rfl⟩
    · rw [noAttempt] at attempt
      cases attempt
  cases attempt : ledger.attempts event with
  | some entry =>
    have ends : ledger.opens event ∨ some entry = none ∧ alive = true → false = true := by
      simp [opens]
    rw [running (Or.inr (by simp [attempt]))] at survivors
    rcases adds with rfl | ⟨other, same, rfl⟩
    · rw [ledger.exclusive event entry attempt, Option.toList_none, List.append_nil]
      exact ⟨false, .lost survivors attempt, ends⟩
    · exact ⟨false, .landed survivors same, ends⟩
  | none =>
    have same : added = (ledger.acknowledges event).toList := by
      rcases adds with same | ⟨entry, impossible, _⟩
      · exact same
      · rw [attempt] at impossible
        cases impossible
    subst same
    cases found : ledger.acknowledges event with
    | some entry =>
      rw [running (Or.inl (by simp [found]))] at survivors
      exact ⟨true, .acknowledged survivors found, fun _ => rfl⟩
    | none =>
      rw [Option.toList_none, List.append_nil]
      refine ⟨alive, .other survivors opens found attempt, ?_⟩
      rintro (impossible | ⟨_, same⟩)
      · exact absurd impossible opens
      · exact same

/-- Every entry in the log was acknowledged or attempted. -/
theorem Survivors.origin (survivors : Survivors ledger past log alive) {entry : α}
    (member : entry ∈ log) :
    ∃ event ∈ past, ledger.acknowledges event = some entry ∨
      ledger.attempts event = some entry := by
  induction survivors with
  | start => exact absurd member List.not_mem_nil
  | opened _ _ ih | lost _ _ ih | other _ _ _ _ ih =>
    obtain ⟨event, present, made⟩ := ih member
    exact ⟨event, List.mem_append_left _ present, made⟩
  | acknowledged _ found ih =>
    rcases List.mem_append.mp member with earlier | last
    · obtain ⟨event, present, made⟩ := ih earlier
      exact ⟨event, List.mem_append_left _ present, made⟩
    · rw [List.mem_singleton.mp last]
      exact ⟨_, List.mem_append_right _ (List.mem_singleton_self _), Or.inl found⟩
  | landed _ found ih =>
    rcases List.mem_append.mp member with earlier | last
    · obtain ⟨event, present, made⟩ := ih earlier
      exact ⟨event, List.mem_append_left _ present, made⟩
    · rw [List.mem_singleton.mp last]
      exact ⟨_, List.mem_append_right _ (List.mem_singleton_self _), Or.inr found⟩

/-- The log keeps the order of the events. -/
theorem Survivors.sublist (survivors : Survivors ledger past log alive) :
    log.Sublist (past.filterMap
      fun event => (ledger.acknowledges event).or (ledger.attempts event)) := by
  induction survivors with
  | start => exact List.Sublist.slnil
  | opened _ _ ih | lost _ _ ih | other _ _ _ _ ih =>
    rw [List.filterMap_append]
    exact ih.trans (List.sublist_append_left _ _)
  | acknowledged _ found ih =>
    rw [List.filterMap_append]
    exact ih.append (by simp [found])
  | @landed _ _ event entry _ found ih =>
    rw [List.filterMap_append]
    have nothing := ledger.exclusive event entry found
    exact ih.append (by simp [found, nothing])

end Lifetimes
