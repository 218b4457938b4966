import Mathlib.Order.Bounds.Defs
import MessageBroker.Storage.Sound

namespace MessageBroker.Storage

open Faulty Runs Lifetimes

def bytesOf (records : List StoredRecord) : Nat := (records.map recordSize).sum

/-- The numbers of records a read may return: at most one, or as many as the budget pays for. -/
def Affordable (maxBytes : Int) (records : List StoredRecord) : Set Nat :=
  {k | k ≤ records.length ∧ (k ≤ 1 ∨ (bytesOf (records.take k) : Int) ≤ maxBytes)}

section Greedy

variable {maxBytes : Int} {records : List StoredRecord}

@[simp] theorem bytesOf_cons (r : StoredRecord) (rest : List StoredRecord) :
    bytesOf (r :: rest) = recordSize r + bytesOf rest := rfl

/-- What fits behind `used` bytes is the longest prefix within the budget. -/
theorem fitting_greatest (maxBytes : Int) (used : Nat) (records : List StoredRecord) :
    ∃ k, fitting maxBytes used records = records.take k ∧ k ≤ records.length ∧
      (k = 0 ∨ (used + bytesOf (records.take k) : Int) ≤ maxBytes) ∧
      ∀ j ≤ records.length, (used + bytesOf (records.take j) : Int) ≤ maxBytes → j ≤ k := by
  induction records generalizing used with
  | nil => exact ⟨0, rfl, le_refl _, Or.inl rfl, fun _ short _ => short⟩
  | cons r rest ih =>
    by_cases full : maxBytes < used + recordSize r
    · refine ⟨0, by rw [fitting, if_pos full, List.take_zero], Nat.zero_le _, Or.inl rfl, ?_⟩
      intro j _ fits
      cases j with
      | zero => exact le_refl _
      | succ j =>
        rw [List.take_succ_cons, bytesOf_cons] at fits
        omega
    · obtain ⟨k, same, short, fits, most⟩ := ih (used + recordSize r)
      refine ⟨k + 1, ?_, Nat.succ_le_succ short, Or.inr ?_, ?_⟩
      · rw [fitting, if_neg full, same, List.take_succ_cons]
      · rw [List.take_succ_cons, bytesOf_cons]
        rcases fits with rfl | fits
        · simp only [List.take_zero, bytesOf, List.map_nil, List.sum_nil]
          omega
        · push_cast at fits ⊢
          omega
      · intro j inside within
        cases j with
        | zero => exact Nat.zero_le _
        | succ j =>
          rw [List.take_succ_cons, bytesOf_cons] at within
          refine Nat.succ_le_succ (most j (Nat.le_of_succ_le_succ inside) ?_)
          push_cast at within ⊢
          omega

theorem greedy_greatest (maxBytes : Int) (records : List StoredRecord) :
    ∃ k, greedy maxBytes records = records.take k ∧ IsGreatest (Affordable maxBytes records) k := by
  cases records with
  | nil => exact ⟨0, rfl, ⟨le_refl _, Or.inl (Nat.zero_le _)⟩, fun _ within => within.1⟩
  | cons r rest =>
    obtain ⟨k, same, short, fits, most⟩ := fitting_greatest maxBytes (recordSize r) rest
    refine ⟨k + 1, by rw [greedy, same, List.take_succ_cons], ⟨Nat.succ_le_succ short, ?_⟩, ?_⟩
    · rcases fits with rfl | fits
      · exact Or.inl (le_refl _)
      · right
        rw [List.take_succ_cons, bytesOf_cons]
        exact_mod_cast fits
    · rintro j ⟨inside, few | within⟩
      · omega
      cases j with
      | zero => exact Nat.zero_le _
      | succ j =>
        rw [List.take_succ_cons, bytesOf_cons] at within
        exact Nat.succ_le_succ (most j (Nat.le_of_succ_le_succ inside) (by exact_mod_cast within))

theorem affordable_pos {k : Nat} (greatest : IsGreatest (Affordable maxBytes records) k)
    (nonempty : records ≠ []) : 1 ≤ k :=
  greatest.2 ⟨List.length_pos_iff.mpr nonempty, Or.inl (le_refl 1)⟩

end Greedy

/-- What a consumer gets that asks again and again from behind the last record it got, each time
    with the next budget. -/
def consume (p : Partition) : Nat → List Int → List StoredRecord
  | _, [] => []
  | offset, maxBytes :: budgets =>
    match p.perform ⟨.read offset maxBytes, []⟩ with
    | (.found records, after) => records ++ consume after (offset + records.length) budgets
    | _ => []

/-- Reads of the open store return the log's records, as many as the budget allows. -/
structure ReadsLog (p : Partition) (s : Store) (log : List StoredRecord) : Prop where
  logEnd : s.logEndOffset = log.length
  offsets : ∀ i r, s.earliestOffset ≤ i → log[i]? = some r → r.offset = i
  outside : ∀ offset maxBytes, 0 < maxBytes →
    ((p.perform ⟨.read offset maxBytes, []⟩).1 = .failed .offsetOutOfRange ↔
      offset < s.earliestOffset ∨ s.logEndOffset < offset)
  inside : ∀ offset maxBytes, 0 < maxBytes → s.earliestOffset ≤ offset → offset ≤ s.logEndOffset →
    ∃ k, (p.perform ⟨.read offset maxBytes, []⟩).1 = .found ((log.drop offset).take k) ∧
      IsGreatest {k | k ≤ s.logEndOffset - offset ∧
        (k ≤ 1 ∨ (bytesOf ((log.drop offset).take k) : Int) ≤ maxBytes)} k
  repeated : ∀ offset budgets,
    s.earliestOffset ≤ offset → offset ≤ s.logEndOffset → (∀ budget ∈ budgets, 0 < budget) →
    consume p offset budgets <+: log.drop offset ∧
      (s.logEndOffset - offset ≤ budgets.length → consume p offset budgets = log.drop offset)

section ReadsLog

variable {limit : Int} {J : Journal} {s : Store} {d : Directory} {log : List StoredRecord}

theorem Represents.read_outside {offset : Nat} {maxBytes : Int}
    (represents : Represents limit J s d) (running : s.closed = false ∧ s.writeFailed = false)
    (readable : ∀ b ∈ J.batches, b.Readable) (positive : 0 < maxBytes)
    (outside : offset < J.floor ∨ J.logEnd < offset) :
    (Partition.perform ⟨some s, d⟩ ⟨.read offset maxBytes, []⟩).1 = .failed .offsetOutOfRange := by
  have quiet : ∀ fault ∈ ([] : List Fault), never fault := by simp
  refine settled (fun outcome _ => outcome = .failed .offsetOutOfRange) quiet
    (meets_read represents ?_ ?_ ?_ ?_)
  · intro reason refused
    cases refused with
    | limit small => omega
    | closed closed => simp [running.1] at closed
    | poisoned poisoned => simp [running.2] at poisoned
    | outOfRange _ => rfl
  · intro _ _ _ low high
    omega
  · rintro (shaky | ⟨b, member, bad⟩)
    · exact absurd shaky not_shaky_never
    · exact absurd (readable b member) bad
  · exact fun shaky => absurd shaky not_shaky_never

/-- Every read of the journal's part of the log, as the pair of its answer and the state it
    leaves. -/
def Serves (p : Partition) (low high : Nat) (log : List StoredRecord) : Prop :=
  ∀ offset maxBytes, 0 < maxBytes → low ≤ offset → offset ≤ high →
    p.perform ⟨.read offset maxBytes, []⟩ = (.found (greedy maxBytes (log.drop offset)), p)

theorem Serves.consumed {p : Partition} {low high : Nat} (serves : Serves p low high log)
    (whole : high = log.length) (budgets : List Int) {offset : Nat} (above : low ≤ offset)
    (below : offset ≤ high) (positive : ∀ budget ∈ budgets, 0 < budget) :
    consume p offset budgets <+: log.drop offset ∧
      (high - offset ≤ budgets.length → consume p offset budgets = log.drop offset) := by
  induction budgets generalizing offset with
  | nil =>
    refine ⟨List.nil_prefix, fun nothing => ?_⟩
    rw [List.length_nil] at nothing
    rw [List.drop_eq_nil_of_le (by omega)]
    rfl
  | cons maxBytes budgets ih =>
    obtain ⟨k, same, greatest⟩ := greedy_greatest maxBytes (log.drop offset)
    have short : k ≤ log.length - offset := by
      have inside := greatest.1.1
      rwa [List.length_drop] at inside
    have length : ((log.drop offset).take k).length = k := by
      rw [List.length_take, List.length_drop]
      omega
    have given := serves offset maxBytes (positive maxBytes List.mem_cons_self) above below
    rw [same] at given
    obtain ⟨rest, all⟩ := @ih (offset + k) (by omega) (by omega)
      fun budget member => positive budget (List.mem_cons_of_mem _ member)
    have unfolded : consume p offset (maxBytes :: budgets) =
        (log.drop offset).take k ++ consume p (offset + k) budgets := by
      rw [consume, given]
      dsimp only
      rw [length]
    have split : log.drop offset = (log.drop offset).take k ++ log.drop (offset + k) := by
      rw [← List.drop_drop, List.take_append_drop]
    rw [unfolded]
    refine ⟨?_, fun enough => ?_⟩
    · nth_rewrite 2 [split]
      exact (List.prefix_append_right_inj _).mpr rest
    · rw [List.length_cons] at enough
      have more : high - (offset + k) ≤ budgets.length := by
        by_cases done : log.drop offset = []
        · have nothing := List.drop_eq_nil_iff.mp done
          omega
        · have one := affordable_pos greatest done
          omega
      rw [all more, ← split]

theorem Serves.readsLog {p : Partition} (serves : Serves p s.earliestOffset s.logEndOffset log)
    (whole : s.logEndOffset = log.length)
    (offsets : ∀ i r, s.earliestOffset ≤ i → log[i]? = some r → r.offset = i)
    (outside : ∀ offset maxBytes,
      0 < maxBytes → offset < s.earliestOffset ∨ s.logEndOffset < offset →
      (p.perform ⟨.read offset maxBytes, []⟩).1 = .failed .offsetOutOfRange) :
        ReadsLog p s log := by
  refine ⟨whole, offsets, ?_, ?_, ?_⟩
  · intro offset maxBytes positive
    refine ⟨fun failed => ?_, outside offset maxBytes positive⟩
    by_contra within
    rw [not_or, not_lt, not_lt] at within
    rw [serves offset maxBytes positive within.1 within.2] at failed
    cases failed
  · intro offset maxBytes positive low high
    obtain ⟨k, same, greatest⟩ := greedy_greatest maxBytes (log.drop offset)
    refine ⟨k, by rw [serves offset maxBytes positive low high, same], ?_⟩
    rw [Affordable, List.length_drop, ← whole] at greatest
    exact greatest
  · exact fun offset budgets low high positive => serves.consumed whole budgets low high positive

end ReadsLog

section Reads

variable {past : List Event} {p : Partition} {s : Store}

/-- An open store that has not failed reads its log to the last record. -/
theorem read_greedy (run : Run Partition.perform SoundCall Partition.new past p)
    (opened : p.store = some s) (running : s.closed = false ∧ s.writeFailed = false) :
    ∃ log alive, Survivors batchLedger past log alive ∧
      (∀ r ∈ acknowledged past, (storedFrom 0 log)[r.offset]? = some r) ∧
        ReadsLog p s (storedFrom 0 log) := by
  obtain ⟨J, log, alive, sound⟩ := sound_run run
  obtain ⟨gone, batches, floor⟩ := sound.accounts.batches
  refine ⟨log, alive, sound.accounts.survivors, sound.accounts.records, ?_⟩
  have tracks := sound.tracks
  cases tracks with
  | stopped => cases opened
  | broken _ _ broken =>
    cases opened
    exact absurd broken.writeFailed (by simp [running.2])
  | @running s' d _ represents =>
    cases opened
    have earliest := represents.earliestOffset
    have logEnd := represents.logEndOffset
    have whole : s.logEndOffset = (storedFrom 0 log).length := by
      rw [logEnd, storedFrom_length, batches, span_append, Journal.logEnd, floor]
    refine Serves.readsLog ?_ whole ?_ ?_
    · intro offset maxBytes positive low high
      rw [earliest] at low
      rw [logEnd] at high
      rw [J.drop_log batches floor low]
      exact represents.read_gives running sound.readable positive low high
    · intro i r low found
      rw [earliest] at low
      have place := represents.valid.consecutive (i - J.floor) r (by
        rw [← Nat.add_zero (i - J.floor), ← List.getElem?_drop, ← J.drop_log batches floor low,
          List.getElem?_drop, Nat.add_zero, found])
      omega
    · intro offset maxBytes positive outside
      rw [earliest, logEnd] at outside
      exact represents.read_outside running sound.readable positive outside

/-- Three batches over two segments after a restart, read with budgets for one record and for
    more. -/
theorem read_greedy_restarted :
    let config : Config := ⟨130, 1000, 10, .sync⟩
    let history := execute Partition.perform [] Partition.new
      [⟨.openStore config, []⟩, ⟨.append 5000000 [⟨none, some [97], [], 0⟩], []⟩,
       ⟨.append 6000000 [⟨none, some [98], [], 0⟩], []⟩,
       ⟨.append 7000000 [⟨none, some [99], [], 0⟩], []⟩, ⟨.openStore config, []⟩]
    ∃ s, history.2.store = some s ∧
      s.logEndOffset = 3 ∧ consume history.2 0 [1, 40] = acknowledged history.1 ∧
      ∃ log alive, Survivors batchLedger history.1 log alive ∧
        (∀ r ∈ acknowledged history.1, (storedFrom 0 log)[r.offset]? = some r) ∧
        ReadsLog history.2 s (storedFrom 0 log) := by
  intro config history
  have started : history.2.store.isSome := by decide +kernel
  have facts : ∀ s ∈ history.2.store,
      s.logEndOffset = 3 ∧ s.closed = false ∧ s.writeFailed = false := by decide +kernel
  obtain ⟨s, opened⟩ := Option.isSome_iff_exists.mp started
  obtain ⟨logEnd, running⟩ := facts s opened
  exact ⟨s, opened, logEnd, by decide +kernel,
    read_greedy (run_execute .start (by decide +kernel)) opened running⟩

/-- A record stamped with the least `int64` is acknowledged, and no read returns it. -/
theorem read_greedy_fails :
    let history := execute Partition.perform [] Partition.new
      [⟨.openStore ⟨1000, 1000, 10, .sync⟩, []⟩,
        ⟨.append (-2 ^ 63 * 1000000) [⟨none, some [97], [], 0⟩], []⟩]
    acknowledged history.1 = [⟨0, -2 ^ 63, none, some [97], []⟩] ∧
      ∃ s, history.2.store = some s ∧
        s.closed = false ∧ s.writeFailed = false ∧ ∀ log, ¬ ReadsLog history.2 s log := by
  intro history
  have started : history.2.store.isSome := by decide +kernel
  have facts : ∀ s ∈ history.2.store,
      s.closed = false ∧ s.writeFailed = false ∧ s.earliestOffset ≤ 0 ∧
    0 ≤ s.logEndOffset := by decide +kernel
  have answer : (history.2.perform ⟨.read 0 100, []⟩).1 =
      .failed (.decodeAt 0 .negativeTimestampDelta) := by decide +kernel
  obtain ⟨s, opened⟩ := Option.isSome_iff_exists.mp started
  obtain ⟨closed, failed, low, high⟩ := facts s opened
  refine ⟨by decide +kernel, s, opened, closed, failed, fun log reads => ?_⟩
  obtain ⟨k, found, _⟩ := reads.inside 0 100 (by decide) low high
  rw [answer] at found
  cases found

end Reads

end MessageBroker.Storage
