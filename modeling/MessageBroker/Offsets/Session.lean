import MessageBroker.Lib.Lifetimes
import MessageBroker.Lib.Runs
import MessageBroker.Offsets.Replay

namespace MessageBroker.Offsets

open Faulty Program Lifetimes
open Storage (Operation Shaky)

/-- The offset log, and the store that the running process has open on it. -/
structure Session where
  store : Option Store
  disk : Disk

def Session.new : Session := ⟨none, ⟨none⟩⟩

inductive Action where
  | openStore
  | commit (now : Instant) (key : Key) (nextOffset : UInt64)
  | get (key : Key)
  | closeStore
  deriving DecidableEq, Repr

structure Step where
  action : Action
  faults : List Fault
  deriving DecidableEq, Repr

inductive Outcome where
  | opened
  | committed
  | found (nextOffset : Option UInt64)
  | done
  | failed (reason : OffsetError)
  | died
  | noStore
  deriving DecidableEq, Repr

def settle (report : Outcome) : Exit OffsetError Unit × World Store Disk → Outcome × Session
  | (.ok _, after) => (report, ⟨some after.memory, after.disk⟩)
  | (.error reason, after) => (.failed reason, ⟨some after.memory, after.disk⟩)
  | (.died, after) => (.died, ⟨none, after.disk⟩)

def settleOpen : Exit OffsetError Store × World Unit Disk → Outcome × Session
  | (.ok s, after) => (.opened, ⟨some s, after.disk⟩)
  | (.error reason, after) => (.failed reason, ⟨none, after.disk⟩)
  | (.died, after) => (.died, ⟨none, after.disk⟩)

def answer : Except OffsetError (Option UInt64) → Outcome
  | .ok nextOffset => .found nextOffset
  | .error reason => .failed reason

/-- `OpenStore` is the start of a process: whatever store was open before is gone with its
    process. -/
def Session.perform (session : Session) (step : Step) : Outcome × Session :=
  match step.action, session.store with
  | .openStore, _ => settleOpen (openStore ⟨(), session.disk, step.faults⟩)
  | .commit now key nextOffset, some s =>
    settle .committed (commit now key nextOffset ⟨s, session.disk, step.faults⟩)
  | .get key, some s => (answer (s.get key), session)
  | .closeStore, some s => settle .done (closeStore ⟨s, session.disk, step.faults⟩)
  | _, none => (.noStore, session)

abbrev Event := Runs.Event Session Step Outcome

/-! ## What a history promises -/

def committedBy (event : Event) : Option Entry :=
  match event.input.action, event.outcome with
  | .commit now key nextOffset, .committed => some ⟨key, nextOffset, unixMilli now⟩
  | _, _ => none

def attemptedBy (event : Event) : Option Entry :=
  match event.input.action, event.outcome with
  | .commit now key nextOffset, .died => some ⟨key, nextOffset, unixMilli now⟩
  | .commit now key nextOffset, .failed (.io _) => some ⟨key, nextOffset, unixMilli now⟩
  | _, _ => none

def commitLedger : Ledger Event Entry where
  opens := fun event => event.outcome = .opened
  acknowledges := committedBy
  attempts := attemptedBy
  exclusive := by
    rintro ⟨p, ⟨action, faults⟩, outcome, p'⟩ entry attempt
    cases action <;> cases outcome <;> first | rfl | cases attempt
  opening := by
    rintro ⟨p, ⟨action, faults⟩, outcome, p'⟩ opened
    cases opened
    cases action <;> exact ⟨rfl, rfl⟩

/-- A store is open and has neither been closed nor met a failure of the disk. -/
def servesAfter (serving : Bool) (event : Event) : Bool :=
  match event.input.action, event.outcome with
  | .openStore, outcome => outcome = .opened
  | .closeStore, _ => false
  | .commit _ _ _, .died => false
  | .commit _ _ _, .failed (.io _) => false
  | _, _ => serving

def serving (past : List Event) : Bool := past.foldl servesAfter false

@[simp] theorem serving_append (past : List Event) (event : Event) :
    serving (past ++ [event]) = servesAfter (serving past) event := by
  simp [serving]

/-! ## The calls on an open store -/

section Calls

variable {allowed : Fault → Prop} {s : Store} {d : Disk} {log : List Entry} {now : Instant}
  {key : Key} {nextOffset : UInt64}

theorem Holds.torn {e : Entry} (represents : Represents log s d) (entry : e.Valid) (written : Nat) :
    Holds log ⟨some (logBytes log ++ e.bytes.take written)⟩ ∨
      Holds (log ++ [e]) ⟨some (logBytes log ++ e.bytes.take written)⟩ := by
  by_cases short : written < e.bytes.length
  · exact Or.inl ⟨represents.valid, Or.inr ⟨_, rfl, Or.inr ⟨e, written, entry, short, rfl⟩⟩⟩
  · refine Or.inr ⟨?_, Or.inr ⟨[], ?_, Or.inl rfl⟩⟩
    · intro other member
      rcases List.mem_append.mp member with old | new
      · exact represents.valid other old
      · rw [List.mem_singleton.mp new]
        exact entry
    · rw [List.take_of_length_le (not_lt.mp short), logBytes_append, List.append_nil]
      simp [logBytes]

/-- A commit that passes its checks is written and flushed, or leaves all of its entry or
    nothing. -/
theorem meets_commit {post : Post Store Disk OffsetError Unit} (represents : Represents log s d)
    (badGroup : invalidName key.group maxConsumerGroupBytes = true → post.fails .invalidGroup s d)
    (badTopic : invalidName key.topic maxTopicNameBytes = true → post.fails .invalidTopic s d)
    (refused : s.closed = true → post.fails .storeClosed s d)
    (unavailable : s.writeFailed = true → post.fails .storeUnavailable s d)
    (returns : s.closed = false → s.writeFailed = false → ∀ s' d',
      Represents (log ++ [⟨key, nextOffset, unixMilli now⟩]) s' d' →
        s'.closed = false → s'.writeFailed = false →
      post.returns () s' d')
    (fails : Shaky allowed → s.closed = false → s.writeFailed = false → ∀ operation d',
      Holds log d' ∨ Holds (log ++ [⟨key, nextOffset, unixMilli now⟩]) d' →
      post.fails (.io operation) { s with writeFailed := true } d')
    (dies : Shaky allowed → s.closed = false → s.writeFailed = false → ∀ d',
      Holds log d' ∨ Holds (log ++ [⟨key, nextOffset, unixMilli now⟩]) d' → post.dies d') :
    Meets allowed (commit now key nextOffset) s d post := by
  unfold commit
  split_ifs with group topic
  · exact Meets.throw (badGroup group)
  · exact Meets.throw (badTopic topic)
  have entry : Entry.Valid ⟨key, nextOffset, unixMilli now⟩ :=
    ⟨by simpa using group, by simpa using topic⟩
  apply Meets.bind
  apply Meets.memory
  dsimp only
  split_ifs with closed failed
  · exact Meets.throw (refused closed)
  · exact Meets.throw (unavailable failed)
  have isOpen : s.closed = false := by simpa using closed
  have healthy : s.writeFailed = false := by simpa using failed
  have torn := Holds.torn represents entry
  have whole : Represents (log ++ [⟨key, nextOffset, unixMilli now⟩])
      { s with
        size := s.size + (encodeEntry key nextOffset (unixMilli now)).length
        offsets := s.offsets.insert key nextOffset }
      ⟨some (logBytes log ++ encodeEntry key nextOffset (unixMilli now))⟩ := by
    have bytes : logBytes (log ++ [⟨key, nextOffset, unixMilli now⟩]) =
        logBytes log ++ encodeEntry key nextOffset (unixMilli now) := by
      rw [logBytes_append]
      simp [logBytes, Entry.bytes]
    refine ⟨?_, by rw [bytes], ?_, ?_⟩
    · intro other member
      rcases List.mem_append.mp member with old | new
      · exact represents.valid other old
      · rw [List.mem_singleton.mp new]
        exact entry
    · rw [bytes, List.length_append, represents.size]
    · intro other
      rw [latest_append, ← represents.offsets]
      exact lookup_insert s.offsets ⟨key, nextOffset, unixMilli now⟩ other
  have poisoned : Shaky allowed → ∀ operation d',
      Holds log d' ∨ Holds (log ++ [⟨key, nextOffset, unixMilli now⟩]) d' →
      Meets allowed poison s d' ⟨fun _ => post.fails (.io operation),
        fun _ => post.fails (.io operation), post.dies⟩ :=
    fun shaky operation d' left => Meets.modify (fails shaky isOpen healthy operation d' left)
  apply Meets.bind
  apply Meets.onError
  rw [represents.size]
  refine meets_writeAt_end represents.file ?_ ?_ ?_
  · apply Meets.bind
    apply Meets.onError
    refine meets_fileOperation ?_ ?_ ?_
    · dsimp only [Post.accepts]
      apply Meets.modify
      exact returns isOpen healthy _ _ whole isOpen healthy
    · exact fun shaky => poisoned shaky _ _ (Or.inr whole.holds)
    · exact fun shaky => dies shaky isOpen healthy _ (Or.inr whole.holds)
  · exact fun shaky written => poisoned shaky _ _ (torn written)
  · exact fun shaky written => dies shaky isOpen healthy _ (torn written)

/-- A commit changes the offsets in memory only when it succeeds. -/
theorem meets_commit_memory :
    Meets (fun _ => True) (commit now key nextOffset) s d
      ⟨fun _ s' _ => s'.offsets = s.offsets.insert key nextOffset,
        fun _ s' _ => s'.offsets = s.offsets, fun _ => True⟩ := by
  have poisoned : ∀ d', Meets (fun _ => True) poison s d'
      ⟨fun _ s' _ => s'.offsets = s.offsets, fun _ s' _ => s'.offsets = s.offsets, fun _ => True⟩ :=
      fun d' => Meets.modify rfl
  unfold commit
  split_ifs
  · exact Meets.throw rfl
  · exact Meets.throw rfl
  apply Meets.bind
  apply Meets.memory
  dsimp only
  split_ifs
  · exact Meets.throw rfl
  · exact Meets.throw rfl
  apply Meets.bind
  apply Meets.onError
  unfold writeAt
  apply Meets.operate
  · have flushes : ∀ d', Meets (fun _ => True) (do
        onError syncFile poison
        modify fun s => { s with
          size := s.size + (encodeEntry key nextOffset (unixMilli now)).length
          offsets := s.offsets.insert key nextOffset })
        s d' ⟨fun _ s' _ => s'.offsets = s.offsets.insert key nextOffset,
          fun _ s' _ => s'.offsets = s.offsets, fun _ => True⟩ := by
      intro d'
      apply Meets.bind
      apply Meets.onError
      refine meets_fileOperation ?_ (fun _ => poisoned d') (fun _ => trivial)
      dsimp only [Post.accepts]
      exact Meets.modify rfl
    cases d.file with
    | none => exact poisoned d
    | some data => exact flushes _
  · exact fun _ _ => poisoned _
  · exact fun _ _ => trivial

theorem meets_closeRest {post : Post Store Disk OffsetError Unit} (synced : Except OffsetError Unit)
    (returns : post.returns () s d) (fails : ∀ failed, post.fails (.closing failed) s d)
    (dies : post.dies d) :
    Meets allowed (do
      let closed ← attempt closeFile
      match failedOperations synced closed with
      | [] => pure ()
      | failed => throw (.closing failed)) s d post := by
  apply Meets.bind
  apply Meets.attempt
  refine meets_fileOperation ?_ (fun _ => ?_) (fun _ => dies)
  all_goals
    dsimp only [Post.accepts]
    split
    · exact Meets.pure returns
    · exact Meets.throw (fails _)

theorem meets_closeStore {post : Post Store Disk OffsetError Unit}
    (returns : post.returns () { s with closed := true } d)
    (fails : ∀ failed, post.fails (.closing failed) { s with closed := true } d)
    (dies : post.dies d) :
    Meets allowed closeStore s d post := by
  unfold closeStore
  apply Meets.bind
  apply Meets.memory
  dsimp only
  by_cases closed : s.closed = true
  · rw [if_pos closed]
    apply Meets.pure
    rw [show s = { s with closed := true } by cases s; simp_all]
    exact returns
  rw [if_neg closed]
  apply Meets.bind
  apply Meets.modify
  dsimp only
  apply Meets.bind
  apply Meets.attempt
  unfold flushHealthy
  split_ifs
  · exact Meets.pure (meets_closeRest (.ok ()) returns fails dies)
  · exact meets_fileOperation (meets_closeRest (.ok ()) returns fails dies)
      (fun _ => meets_closeRest (.error (.io .sync)) returns fails dies) (fun _ => dies)

end Calls

end MessageBroker.Offsets
