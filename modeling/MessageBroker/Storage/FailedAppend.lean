import MessageBroker.Lib.Script
import MessageBroker.Storage.Tracking

namespace MessageBroker.Storage

open Faulty Program

/-! ## What a failed append may leave -/

/-- The active segment is one of the store's segments and has its files open. -/
structure Attached (s : Store) (d : Directory) : Prop where
  place : s.activeSegment < s.segments.length
  log : d.file? s.active.path ≠ none
  index : d.file? s.active.indexPath ≠ none

/-- The store takes nothing, gives nothing and deletes nothing any more. -/
def Refuses (s : Store) : Prop := ∀ d faults,
  (∀ now records,
    ∃ reason rest, append now records ⟨s, d, faults⟩ = (.error reason, ⟨s, d, rest⟩)) ∧
  (∀ offset maxBytes,
    ∃ reason rest, read offset maxBytes ⟨s, d, faults⟩ = (.error reason, ⟨s, d, rest⟩)) ∧
  ∀ now maxAge maxPartitionBytes, ∃ rest,
    applyRetention now maxAge maxPartitionBytes ⟨s, d, faults⟩ = (.ok (), ⟨s, d, rest⟩)

/-- Whoever looks at the store after an error sees the offsets from before, on a store that is as it
    was or refuses everything. -/
def Invisible (s : Store) (d : Directory)
    (result : Exit StoreError (Nat × Nat) × World Store Directory) : Prop :=
  ∀ reason, result.1 = .error reason →
    result.2.memory.logEndOffset = s.logEndOffset ∧
      result.2.memory.earliestOffset = s.earliestOffset ∧
      (result.2.memory = s ∧ result.2.disk = d ∨ Refuses result.2.memory)

theorem exits_failed {α : Type} {p : StoreProgram α} {s : Store} {d : Directory}
    (meets : Meets (fun _ => True) p s d ⟨fun _ _ _ => False, fun _ s' d' => s' = s ∧ d' = d,
      fun _ => False⟩)
    (faults : List Fault) : ∃ reason rest, p ⟨s, d, faults⟩ = (.error reason, ⟨s, d, rest⟩) := by
  have exits := meets faults (fun _ _ => trivial)
  rcases ran : p ⟨s, d, faults⟩ with ⟨_ | reason | _, ⟨memory, disk, rest⟩⟩ <;> rw [ran] at exits
  · exact exits.1.elim
  · obtain ⟨⟨rfl, rfl⟩, _⟩ := exits
    exact ⟨reason, rest, rfl⟩
  · exact exits.elim

theorem refuses_poisoned {s : Store} (poisoned : s.writeFailed = true) : Refuses s := by
  intro d faults
  refine ⟨?_, ?_, ?_⟩
  · exact fun now records =>
      exits_failed (meets_append_refused poisoned fun _ _ => ⟨rfl, rfl⟩) faults
  · exact fun offset maxBytes =>
      exits_failed (meets_read_refused poisoned fun _ _ => ⟨rfl, rfl⟩) faults
  · intro now maxAge maxPartitionBytes
    have skips : Meets (fun _ => True) (applyRetention now maxAge maxPartitionBytes) s d
        ⟨fun _ s' d' => s' = s ∧ d' = d, fun _ _ _ => False, fun _ => False⟩ :=
      meets_applyRetention_skips poisoned ⟨rfl, rfl⟩
    have exits := skips faults (fun _ _ => trivial)
    rcases ran : applyRetention now maxAge maxPartitionBytes ⟨s, d, faults⟩
      with ⟨_ | _ | _, ⟨memory, disk, rest⟩⟩ <;>
      rw [ran] at exits
    · obtain ⟨⟨rfl, rfl⟩, _⟩ := exits
      exact ⟨rest, rfl⟩
    · exact exits.1.elim
    · exact exits.elim

/-! ## The places of an append's operations in its script -/

section Places

variable (s : Store) (batchSize : Nat)

def Store.rolls : Prop := 0 < s.active.size ∧ s.config.segmentMaxBytes < s.active.size + batchSize

instance : Decidable (s.rolls batchSize) := inferInstanceAs (Decidable (_ ∧ _))

def flushOperations (dirty : Bool) : Nat := if dirty then 2 else 1

/-- A rollover flushes the old segment, and opens and stats two files. -/
def Store.rollOperations : Nat :=
  if s.rolls batchSize then flushOperations s.active.indexDirty + 4 else 0

def Store.indexes : Prop := s.rolls batchSize ∨ s.active.indexEntries = [] ∨
  s.config.indexIntervalBytes ≤ s.active.size - s.active.lastIndexedPosition

instance : Decidable (s.indexes batchSize) := inferInstanceAs (Decidable (_ ∨ _ ∨ _))

/-- The place of the flush at the end: behind the rollover, the log's write and the index's. -/
def Store.flushPlace : Nat := s.rollOperations batchSize + (if s.indexes batchSize then 2 else 1)

end Places

/-- One of the flush's syncs fails, and the process is alive to see it. -/
def flushFails (script : List Fault) (place : Nat) (dirty : Bool) : Prop :=
  (∃ written, faultAt script place = .fail written) ∨
    faultAt script place = .pass ∧
      dirty = true ∧ ∃ written, faultAt script (place + 1) = .fail written

/-- The batch gets into the log of a store in sync mode, and then its flush fails. -/
structure FlushFails (s : Store) (b : Batch) (script : List Fault) : Prop where
  someRecord : b.records ≠ []
  running : s.closed = false ∧ s.writeFailed = false
  size : (b.size : Int) ≤ s.config.maxBatchBytes
  near : s.rolls b.size ∨ uint64 (s.logEndOffset - s.active.baseOffset) ≤ maxUint32
  mode : s.config.flushMode = .sync
  written : ∀ place ≤ s.rollOperations b.size, faultAt script place = .pass
  indexed : s.indexes b.size →
    ∀ written, faultAt script (s.rollOperations b.size + 1) ≠ .die written
  flush : flushFails script (s.flushPlace b.size) (s.indexes b.size || s.active.indexDirty)

theorem FlushFails.passes {s : Store} {b : Batch} {script : List Fault}
    (failure : FlushFails s b script) :
    ∀ k < s.rollOperations b.size, faultAt script (0 + k) = .pass := by
  intro k before
  rw [Nat.zero_add]
  exact failure.written k (Nat.le_of_lt before)

/-! ## The operations of an append -/

section Operations

variable {μ : Type} {script : List Fault} {place : Nat} {m : μ} {d : Directory} {name : FileName}

theorem goes_unitary {α : Type} {exits : Exits μ Directory StoreError α} {operation : Operation}
    {action : Directory → Except StoreError α × Directory}
    (passes : faultAt script place = .pass → (Post.mk (fun value => exits.returns value (place + 1))
      (fun reason => exits.fails reason (place + 1)) exits.dies).accepts m (action d))
    (fails : ∀ written,
      faultAt script place = .fail written → exits.fails (.io operation) (place + 1) m d)
    (dies : ∀ written, faultAt script place = .die written → exits.dies d) :
    Goes script place (unitary operation action) m d exits :=
  Goes.operate passes fails dies

def Remain (d d' : Directory) : Prop := ∀ name, d.file? name ≠ none → d'.file? name ≠ none

theorem Remain.trans {d' d'' : Directory} (first : Remain d d') (second : Remain d' d'') :
    Remain d d'' :=
  fun name there => second name (first name there)

theorem goes_sync {exits : Exits μ Directory StoreError Unit} (present : d.file? name ≠ none)
    (passes : faultAt script place = .pass → ∀ d', Remain d d' → exits.returns () (place + 1) m d')
    (fails : ∀ written,
      faultAt script place = .fail written → exits.fails (.io .sync) (place + 1) m d)
    (dies : ∀ written, faultAt script place = .die written → exits.dies d) :
    Goes script place (sync name) m d exits := by
  obtain ⟨file, found⟩ := Option.ne_none_iff_exists'.mp present
  refine goes_unitary (fun passed => ?_) fails dies
  rw [found]
  refine passes passed _ ?_
  intro other there
  by_cases same : other = name
  · rw [same, file?_put_self]
    simp
  · rw [file?_put_other same]
    exact there

theorem remain_writeFile (name : FileName) (position : Nat) (bytes : Bytes) (d : Directory) :
    Remain d (writeFile name position bytes d) := by
  intro other there
  by_cases same : other = name
  · subst same
    obtain ⟨file, found⟩ := Option.ne_none_iff_exists'.mp there
    rw [writeFile_found found, file?_put_self]
    simp
  · rw [file?_writeFile_other same]
    exact there

theorem goes_writeAt {exits : Exits μ Directory StoreError Unit} {position : Nat} {bytes : Bytes}
    (passes : faultAt script place = .pass → d.file? name ≠ none →
      exits.returns () (place + 1) m (writeFile name position bytes d))
    (fails : (∀ written, faultAt script place ≠ .die written) →
      faultAt script place ≠ .pass ∨ d.file? name = none →
      ∀ reason d', Remain d d' → exits.fails reason (place + 1) m d')
    (dies : ∀ written, faultAt script place = .die written → ∀ d', exits.dies d') :
    Goes script place (writeAt name position bytes) m d exits := by
  refine Goes.operate (fun passed => ?_) (fun written failed => ?_)
    (fun written died => dies written died _)
  · cases found : d.file? name with
    | none =>
      refine fails (fun written died => ?_) (Or.inr found) _ _ fun _ there => there
      rw [passed] at died
      cases died
    | some file => exact passes passed (by simp [found])
  · refine fails (fun _ died => ?_) (Or.inl (by rw [failed]; simp)) _ _ (remain_writeFile _ _ _ _)
    rw [failed] at died
    cases died

def Passes (script : List Fault) (place count : Nat) : Prop :=
  ∀ k < count, faultAt script (place + k) = .pass

theorem passes_split {left right : Nat} :
    Passes script place (left + right) ↔
      Passes script place left ∧ Passes script (place + left) right := by
  constructor
  · refine fun passes => ⟨fun k small => passes k (by omega), fun k small => ?_⟩
    rw [Nat.add_assoc]
    exact passes (left + k) (by omega)
  · rintro ⟨first, second⟩ k small
    by_cases early : k < left
    · exact first k early
    · have later := second (k - left) (by omega)
      rwa [Nat.add_assoc, Nat.add_sub_cancel' (by omega)] at later

theorem passes_one : Passes script place 1 ↔ faultAt script place = .pass := by
  refine ⟨fun passes => passes 0 (by decide), fun passed k small => ?_⟩
  rw [show k = 0 by omega]
  exact passed

theorem goes_segmentFlush {seg : Segment} {exits : Exits μ Directory StoreError Segment}
    (log : d.file? seg.path ≠ none) (index : d.file? seg.indexPath ≠ none)
    (returns : Passes script place (flushOperations seg.indexDirty) → ∀ d', Remain d d' →
      exits.returns { seg with indexDirty := false } (place + flushOperations seg.indexDirty) m d')
    (fails : flushFails script place seg.indexDirty →
      ∀ reason next d', exits.fails reason next m d')
    (dies : ¬ flushFails script place seg.indexDirty →
      ¬ Passes script place (flushOperations seg.indexDirty) →
      ∀ d', exits.dies d') :
    Goes script place seg.flush m d exits := by
  unfold Segment.flush
  apply Goes.bind
  refine goes_sync log ?_ ?_ ?_
  · intro passed d' remain
    unfold Segment.flushIndex
    cases dirty : seg.indexDirty with
    | false =>
      rw [dirty] at returns
      have same : { seg with indexDirty := false } = seg := by
        obtain ⟨⟩ := seg
        simp_all
      rw [same] at returns
      exact Goes.pure (returns (passes_one.mpr passed) d' remain)
    | true =>
      rw [dirty] at returns fails dies
      apply Goes.bind
      refine goes_sync (remain _ index) ?_ ?_ ?_
      · intro passed' d'' remain'
        exact Goes.pure
          (returns (passes_split.mpr ⟨passes_one.mpr passed, passes_one.mpr passed'⟩) d''
            (remain.trans remain'))
      · intro written failed
        exact fails (Or.inr ⟨passed, rfl, written, failed⟩) _ _ _
      · intro written died
        refine dies ?_ ?_ _
        · rintro (⟨_, failed⟩ | ⟨_, _, _, failed⟩)
          · rw [passed] at failed
            cases failed
          · rw [died] at failed
            cases failed
        · intro passes
          have second := passes 1 (by decide)
          rw [died] at second
          cases second
  · intro written failed
    exact fails (Or.inl ⟨written, failed⟩) _ _ _
  · intro written died
    refine dies ?_ ?_ _
    · rintro (⟨_, failed⟩ | ⟨passed, _⟩)
      · rw [died] at failed
        cases failed
      · rw [died] at passed
        cases passed
    · intro passes
      have first := passes 0 (by unfold flushOperations; split <;> decide)
      rw [Nat.add_zero, died] at first
      cases first

theorem remain_touch : Remain d (d.touch name) := by
  intro other there
  by_cases same : other = name
  · obtain ⟨file, found, _⟩ := file?_touch_self d name
    rw [same, found]
    simp
  · rw [file?_touch_other same]
    exact there

theorem goes_openCreate {exits : Exits μ Directory StoreError Unit}
    (passes : faultAt script place = .pass → exits.returns () (place + 1) m (d.touch name))
    (fails : faultAt script place ≠ .pass → ∀ reason next, exits.fails reason next m d)
    (dies : faultAt script place ≠ .pass → exits.dies d) :
    Goes script place (openCreate name) m d exits := by
  refine goes_unitary (fun passed => ?_) (fun written failed => fails (by rw [failed]; simp) _ _)
    (fun written died => dies (by rw [died]; simp))
  have returned := passes passed
  unfold Directory.touch at returned
  cases found : d.file? name with
  | none =>
    rw [found] at returned
    exact returned
  | some file =>
    rw [found] at returned
    exact returned

theorem goes_stat {exits : Exits μ Directory StoreError Nat} (present : d.file? name ≠ none)
    (passes : faultAt script place = .pass → ∀ size, exits.returns size (place + 1) m d)
    (fails : faultAt script place ≠ .pass → ∀ reason next, exits.fails reason next m d)
    (dies : faultAt script place ≠ .pass → exits.dies d) :
    Goes script place (stat name) m d exits := by
  obtain ⟨file, found⟩ := Option.ne_none_iff_exists'.mp present
  refine goes_unitary (fun passed => ?_) (fun written failed => fails (by rw [failed]; simp) _ _)
    (fun written died => dies (by rw [died]; simp))
  rw [found]
  exact passes passed _

theorem goes_close {exits : Exits μ Directory StoreError Unit}
    (returns : exits.returns () (place + 1) m d) (fails : exits.fails (.io .close) (place + 1) m d)
    (dies : exits.dies d) :
    Goes script place (close name) m d exits :=
  goes_unitary (fun _ => returns) (fun _ _ => fails) (fun _ _ => dies)

theorem goes_newSegment {base : Nat} {active : Bool} {exits : Exits μ Directory StoreError Segment}
    (returns : Passes script place 4 → ∀ seg d', seg.baseOffset = base → seg.indexEntries = [] →
      d'.file? (.log base) ≠ none →
        d'.file? (.index base) ≠ none → exits.returns seg (place + 4) m d')
    (fails : ¬ Passes script place 4 → ∀ reason next d', exits.fails reason next m d')
    (dies : ¬ Passes script place 4 → ∀ d', exits.dies d') :
    Goes script place (newSegment base active) m d exits := by
  have stops : ∀ k < 4, faultAt script (place + k) ≠ .pass → ¬ Passes script place 4 :=
    fun k small interrupted passes => interrupted (passes k small)
  have there : ∀ (d : Directory) name, (d.touch name).file? name ≠ none := by
    intro d name
    obtain ⟨file, found, _⟩ := file?_touch_self d name
    simp [found]
  unfold newSegment
  apply Goes.bind
  refine goes_openCreate ?_ (fun failed _ _ => fails (stops 0 (by decide) failed) _ _ _)
    (fun died => dies (stops 0 (by decide) died) _)
  intro first
  apply Goes.bind
  apply Goes.onError
  refine goes_stat (there _ _) ?_ (fun failed _ _ => ?_)
    (fun died => dies (stops 1 (by decide) died) _)
  · intro second _
    apply Goes.bind
    apply Goes.onError
    refine goes_openCreate ?_ (fun failed _ _ => ?_) (fun died => dies (stops 2 (by decide) died) _)
    · intro third
      apply Goes.bind
      apply Goes.onError
      refine goes_stat (there _ _) ?_ (fun failed _ _ => ?_)
        (fun died => dies (stops 3 (by decide) died) _)
      · intro fourth _
        refine Goes.pure (returns ?_ _ _ rfl rfl (remain_touch _ (there _ _)) (there _ _))
        intro k small
        match k, small with
        | 0, _ => exact first
        | 1, _ => exact second
        | 2, _ => exact third
        | 3, _ => exact fourth
      · have stopped := stops 3 (by decide) failed
        apply Goes.bind
        apply Goes.ignore
        exact goes_close (goes_close (fails stopped _ _ _) (fails stopped _ _ _) (dies stopped _))
          (goes_close (fails stopped _ _ _) (fails stopped _ _ _) (dies stopped _)) (dies stopped _)
    · have stopped := stops 2 (by decide) failed
      exact goes_close (fails stopped _ _ _) (fails stopped _ _ _) (dies stopped _)
  · have stopped := stops 1 (by decide) failed
    exact goes_close (fails stopped _ _ _) (fails stopped _ _ _) (dies stopped _)

theorem flushFails_stops {dirty : Bool} (failed : flushFails script place dirty) :
    ¬ Passes script place (flushOperations dirty) := by
  intro passes
  rcases failed with ⟨written, failed⟩ | ⟨_, rfl, written, failed⟩
  · have first := passes 0 (by unfold flushOperations; split <;> decide)
    rw [Nat.add_zero, failed] at first
    cases first
  · have second := passes 1 (by decide)
    rw [failed] at second
    cases second

end Operations

/-! ## The append -/

section Append

variable {script : List Fault} {place : Nat} {s : Store} {d : Directory}

theorem active_setActive (seg : Segment) (inside : s.activeSegment < s.segments.length) :
    (s.setActive seg).active = seg := by
  simp [Store.active, Store.setActive, inside]

theorem Attached.setActive {seg : Segment} (attached : Attached s d)
    (base : seg.baseOffset = s.active.baseOffset) :
    Attached (s.setActive seg) d := by
  have active := active_setActive seg attached.place
  refine ⟨by simpa [Store.setActive] using attached.place, ?_, ?_⟩
  · rw [active, Segment.path, base]
    exact attached.log
  · rw [active, Segment.indexPath, base]
    exact attached.index

theorem Attached.remain {d' : Directory} (attached : Attached s d) (remain : Remain d d') :
    Attached s d' :=
  ⟨attached.place, remain _ attached.log, remain _ attached.index⟩

theorem Tracks.attached {allowed : Fault → Prop} {P : Policy} {settings : Config → Prop}
    {J : Journal} {p : Partition} (tracks : Tracks allowed P settings J p)
    (opened : p.store = some s) (healthy : s.writeFailed = false) :
    Attached s p.directory := by
  cases tracks with
  | stopped => cases opened
  | running _ represents =>
    cases opened
    obtain ⟨init, seg, split, place, _⟩ := represents.split
    exact ⟨by simp [split, place], represents.activeFiles.1, represents.activeFiles.2⟩
  | broken _ _ broken =>
    cases opened
    rw [broken.writeFailed] at healthy
    cases healthy

theorem goes_flushActive {exits : Exits Store Directory StoreError Unit} (attached : Attached s d)
    (returns : Passes script place (flushOperations s.active.indexDirty) → ∀ d', Remain d d' →
      exits.returns () (place + flushOperations s.active.indexDirty)
        (s.setActive { s.active with indexDirty := false }) d')
    (fails : flushFails script place s.active.indexDirty →
      ∀ reason next d', exits.fails reason next s d')
    (dies : ¬ flushFails script place s.active.indexDirty →
      ¬ Passes script place (flushOperations s.active.indexDirty) →
      ∀ d', exits.dies d') :
    Goes script place flushActive s d exits := by
  unfold flushActive
  apply Goes.bind
  apply Goes.memory
  apply Goes.bind
  refine goes_segmentFlush attached.log attached.index ?_ fails dies
  intro passes d' remain
  dsimp only
  apply Goes.modify
  exact returns passes d' remain

structure Rolled (s s' : Store) (batchSize : Nat) : Prop where
  config : s'.config = s.config
  logEndOffset : s'.logEndOffset = s.logEndOffset
  earliestOffset : s'.earliestOffset = s.earliestOffset
  fresh : s.rolls batchSize → s'.active.baseOffset = s.logEndOffset ∧ s'.active.indexEntries = []
  stays : ¬ s.rolls batchSize → s' = s

structure Unwritten (s s' : Store) : Prop where
  logEndOffset : s'.logEndOffset = s.logEndOffset
  earliestOffset : s'.earliestOffset = s.earliestOffset
  writeFailed : s'.writeFailed = true

theorem goes_rollSegment {batchSize : Nat} {exits : Exits Store Directory StoreError Unit}
    (attached : Attached s d)
    (returns : Passes script 0 (s.rollOperations batchSize) →
      ∀ s' d', Attached s' d' → Rolled s s' batchSize →
      exits.returns () (s.rollOperations batchSize) s' d')
    (fails : ¬ Passes script 0 (s.rollOperations batchSize) → ∀ reason next s' d', Unwritten s s' →
      exits.fails reason next s' d')
    (dies : ¬ Passes script 0 (s.rollOperations batchSize) → ∀ d', exits.dies d') :
    Goes script 0 (rollSegment batchSize) s d exits := by
  unfold rollSegment
  apply Goes.bind
  apply Goes.memory
  dsimp only
  split_ifs with rolls
  case neg =>
    replace rolls : ¬ s.rolls batchSize := rolls
    have nothing : s.rollOperations batchSize = 0 := if_neg rolls
    rw [nothing] at returns
    refine Goes.pure (returns (fun _ small => absurd small (Nat.not_lt_zero _)) s d attached ?_)
    exact ⟨rfl, rfl, rfl, fun other => absurd other rolls, fun _ => rfl⟩
  replace rolls : s.rolls batchSize := rolls
  have operations : s.rollOperations batchSize = flushOperations s.active.indexDirty + 4 :=
    if_pos rolls
  rw [operations, passes_split, Nat.zero_add] at returns fails dies
  apply Goes.bind
  apply Goes.onError
  refine goes_flushActive attached ?_ ?_ ?_
  · intro flushed d' remain
    have attached' : Attached (s.setActive { s.active with indexDirty := false }) d' :=
      (attached.remain remain).setActive rfl
    apply Goes.bind
    apply Goes.modify
    apply Goes.bind
    apply Goes.onError
    rw [Nat.zero_add]
    refine goes_newSegment ?_ ?_ ?_
    · intro opened seg d'' base empty log index
      dsimp only
      apply Goes.modify
      refine returns ⟨flushed, opened⟩ _ d'' ?_ ?_
      · refine ⟨by simp, ?_, ?_⟩
        · simpa [Store.active, Segment.path, base] using log
        · simpa [Store.active, Segment.indexPath, base] using index
      · refine ⟨rfl, rfl, rfl, fun _ => ?_, fun other => absurd rolls other⟩
        simp [Store.active, base, empty]
    · intro stopped reason next d''
      dsimp only
      exact Goes.modify (fails (fun passed => stopped passed.2) _ _ _ _ ⟨rfl, rfl, rfl⟩)
    · exact fun stopped d'' => dies (fun passed => stopped passed.2) d''
  · intro failed reason next d'
    dsimp only
    exact Goes.modify
      (fails (fun passed => flushFails_stops failed passed.1) _ _ _ _ ⟨rfl, rfl, rfl⟩)
  · exact fun _ stopped d' => dies (fun passed => stopped passed.1) d'

def Store.due (s : Store) (position : Nat) : Prop :=
  s.active.indexEntries = [] ∨ s.config.indexIntervalBytes ≤ position - s.active.lastIndexedPosition

instance (s : Store) (position : Nat) : Decidable (s.due position) :=
  inferInstanceAs (Decidable (_ ∨ _))

theorem goes_indexBatch {relative position : Nat} {exits : Exits Store Directory StoreError Unit}
    (attached : Attached s d)
    (returns : (s.due position → ∀ written, faultAt script place ≠ .die written) →
      ∀ s' d', Attached s' d' →
      s'.config = s.config → s'.logEndOffset = s.logEndOffset →
      s'.active.indexDirty = (s.due position || s.active.indexDirty) →
      exits.returns () (place + if s.due position then 1 else 0) s' d')
    (dies : ∀ written, s.due position → faultAt script place = .die written → ∀ d', exits.dies d') :
    Goes script place (indexBatch relative position) s d exits := by
  unfold indexBatch
  apply Goes.bind
  apply Goes.memory
  dsimp only
  split_ifs with due
  case neg =>
    replace due : ¬ s.due position := due
    have returned := returns (fun other => absurd other due) s d attached rfl rfl (by simp [due])
    rw [if_neg due] at returned
    exact Goes.pure returned
  replace due : s.due position := due
  rw [if_pos due] at returns
  unfold Segment.appendIndexEntry
  apply Goes.bind
  apply Goes.bind
  apply Goes.attempt
  refine goes_writeAt ?_ ?_ (fun written died d' => dies written due died d')
  · intro passed _
    apply Goes.pure
    dsimp only
    apply Goes.modify
    refine returns (fun _ written died => ?_) _ _
      (Attached.remain (attached.setActive rfl) (remain_writeFile _ _ _ _)) rfl rfl ?_
    · rw [passed] at died
      cases died
    · rw [active_setActive _ attached.place]
      simp [due]
  · intro alive _ _ d' remain
    apply Goes.pure
    dsimp only
    apply Goes.modify
    refine returns (fun _ => alive) _ _ (Attached.remain (attached.setActive rfl) remain) rfl rfl ?_
    rw [active_setActive _ attached.place]
    simp [due]

/-- From the log's write on, everything goes well until a sync of the flush fails. -/
structure LateFailure (s : Store) (base : Nat) (script : List Fault) (place : Nat) : Prop where
  near : uint64 (base - s.active.baseOffset) ≤ maxUint32
  mode : s.config.flushMode = .sync
  written : faultAt script place = .pass
  indexed : s.due s.active.size → ∀ written, faultAt script (place + 1) ≠ .die written
  flush : flushFails script (place + if s.due s.active.size then 2 else 1)
    (s.due s.active.size || s.active.indexDirty)

theorem goes_writeEncoded {base count : Nat} {timestamp : Int} {encoded : Bytes}
    {exits : Exits Store Directory StoreError (Nat × Nat)} (attached : Attached s d)
    (returns : ¬ LateFailure s base script place →
      ∀ value next s' d', exits.returns value next s' d')
    (fails : ¬ LateFailure s base script place →
      ∀ reason next s' d', Unwritten s s' → exits.fails reason next s' d')
    (late : LateFailure s base script place → ∀ reason next s' d',
      s'.logEndOffset = uint64 ((uint64 (base + count - 1) : Nat) + 1) →
        exits.fails reason next s' d')
    (dies : ¬ LateFailure s base script place → ∀ d', exits.dies d') :
    Goes script place (writeEncoded base count timestamp encoded) s d exits := by
  unfold writeEncoded
  apply Goes.bind
  apply Goes.memory
  dsimp only
  by_cases far : maxUint32 < uint64 (base - s.active.baseOffset)
  · have early : ¬ LateFailure s base script place := fun failure => absurd failure.near (by omega)
    rw [if_pos far]
    apply Goes.bind
    unfold poison
    apply Goes.modify
    exact Goes.throw (fails early _ _ _ _ ⟨rfl, rfl, rfl⟩)
  rw [if_neg far]
  apply Goes.bind
  apply Goes.onError
  unfold Segment.append
  apply Goes.bind
  refine goes_writeAt ?_ ?_ ?_
  · intro passed _
    apply Goes.pure
    dsimp only
    apply Goes.bind
    apply Goes.modify
    generalize advanced : s.advance { s.active with size := s.active.size + encoded.length } base
      count timestamp = t
    have active : t.active = { s.active with
        size := s.active.size + encoded.length
        maxTimestamp :=
          if s.active.maxTimestamp < timestamp then timestamp else s.active.maxTimestamp
        nextOffset := uint64 ((uint64 (base + count - 1) : Nat) + 1) } := by
      rw [← advanced]
      exact active_setActive _ attached.place
    have due : t.due s.active.size ↔ s.due s.active.size := by
      rw [Store.due, Store.due, active, ← advanced]
      rfl
    have remain := remain_writeFile s.active.path s.active.size encoded d
    have attached' : Attached t (writeFile s.active.path s.active.size encoded d) := by
      refine ⟨?_, ?_, ?_⟩
      · rw [← advanced]
        simpa [Store.advance, Store.setActive] using attached.place
      · rw [active]
        exact remain _ attached.log
      · rw [active]
        exact remain _ attached.index
    have config : t.config = s.config := by rw [← advanced]; rfl
    have logEnd : t.logEndOffset = uint64 ((uint64 (base + count - 1) : Nat) + 1) := by
      rw [← advanced]; rfl
    have dirty : t.active.indexDirty = s.active.indexDirty := by rw [active]
    apply Goes.bind
    refine goes_indexBatch attached' ?_ ?_
    · intro alive s' d' attached'' config' logEnd' dirty'
      rw [due] at alive
      have place' : place + 1 + (if t.due s.active.size then 1 else 0) =
          place + if s.due s.active.size then 2 else 1 := by
        simp only [due]
        split_ifs <;> omega
      rw [place']
      simp only [due, dirty] at dirty'
      dsimp only
      by_cases mode : s.config.flushMode = .sync
      case neg =>
        rw [if_neg mode]
        exact Goes.bind (Goes.pure (Goes.pure (returns (fun failure => mode failure.mode) _ _ _ _)))
      rw [if_pos mode]
      apply Goes.bind
      apply Goes.onError
      refine goes_flushActive attached'' ?_ ?_ ?_
      · intro flushed d'' _
        refine Goes.pure (returns (fun failure => ?_) _ _ _ _)
        exact flushFails_stops failure.flush (by rw [← dirty']; exact flushed)
      · intro failed reason next d''
        rw [dirty'] at failed
        dsimp only
        refine Goes.modify (late ⟨not_lt.mp far, mode, passed, alive, failed⟩ _ _ _ _ ?_)
        exact logEnd'.trans logEnd
      · intro alive' _ d''
        refine dies (fun failure => alive' ?_) _
        rw [dirty']
        exact failure.flush
    · intro written indexed died d'
      exact dies (fun failure => failure.indexed (due.mp indexed) written died) _
  · intro alive stopped reason d' _
    have early : ¬ LateFailure s base script place := by
      intro failure
      rcases stopped with interrupted | missing
      · exact interrupted failure.written
      · exact attached.log missing
    dsimp only
    exact Goes.modify (fails early _ _ _ _ ⟨rfl, rfl, rfl⟩)
  · intro written died d'
    refine dies (fun failure => ?_) _
    rw [failure.written] at died
    cases died

theorem Rolled.late_iff {s' : Store} {b : Batch} (rolled : Rolled s s' b.size)
    (someRecord : b.records ≠ []) (running : s.closed = false ∧ s.writeFailed = false)
    (size : (b.size : Int) ≤ s.config.maxBatchBytes)
    (passes : Passes script 0 (s.rollOperations b.size)) :
    FlushFails s b script ↔ LateFailure s' s.logEndOffset script (s.rollOperations b.size) := by
  have near : (s.rolls b.size ∨ uint64 (s.logEndOffset - s.active.baseOffset) ≤ maxUint32) ↔
      uint64 (s.logEndOffset - s'.active.baseOffset) ≤ maxUint32 := by
    by_cases rolls : s.rolls b.size
    · rw [(rolled.fresh rolls).1, Int.sub_self]
      exact iff_of_true (Or.inl rolls) (by decide)
    · rw [rolled.stays rolls]
      exact or_iff_right rolls
  have due : s.indexes b.size ↔ s'.due s'.active.size := by
    by_cases rolls : s.rolls b.size
    · exact iff_of_true (Or.inl rolls) (Or.inl (rolled.fresh rolls).2)
    · rw [rolled.stays rolls]
      exact or_iff_right rolls
  have dirty : (s.indexes b.size || s.active.indexDirty) =
      (s'.due s'.active.size || s'.active.indexDirty) := by
    by_cases rolls : s.rolls b.size
    · simp [show s.indexes b.size from Or.inl rolls,
        show s'.due s'.active.size from Or.inl (rolled.fresh rolls).2]
    · simp only [due]
      rw [rolled.stays rolls]
  have flush : s.flushPlace b.size = s.rollOperations b.size + if s'.due s'.active.size then 2
      else 1 := by
    simp only [Store.flushPlace, due]
  constructor
  · intro failure
    refine ⟨near.mp failure.near, by rw [rolled.config]; exact failure.mode,
      failure.written _ (le_refl _), fun indexed => failure.indexed (due.mpr indexed), ?_⟩
    rw [← flush, ← dirty]
    exact failure.flush
  · intro failure
    refine ⟨someRecord, running, size, near.mpr failure.near,
      by rw [← rolled.config]; exact failure.mode, ?_,
      fun indexed => failure.indexed (due.mp indexed), ?_⟩
    · intro place before
      rcases Nat.lt_or_eq_of_le before with early | rfl
      · have passed := passes place early
        rwa [Nat.zero_add] at passed
      · exact failure.written
    · rw [flush, dirty]
      exact failure.flush

/-- Every exit of an append tells whether its flush failed. -/
theorem goes_append {now : Instant} {records : List Record} (attached : Attached s d)
    (offset : s.logEndOffset < 2 ^ 64) (limit : s.config.maxBatchBytes < 2 ^ 63) :
    Goes script 0 (append now records) s d
      ⟨fun _ _ _ _ => ¬ FlushFails s ⟨unixMilli now, records⟩ script,
       fun _ _ s' d' =>
         (FlushFails s ⟨unixMilli now, records⟩ script ∧ s'.logEndOffset ≠ s.logEndOffset) ∨
        (¬ FlushFails s ⟨unixMilli now, records⟩ script ∧ (s' = s ∧ d' = d ∨ Unwritten s s')),
       fun _ => ¬ FlushFails s ⟨unixMilli now, records⟩ script⟩ := by
  unfold append
  by_cases empty : records = []
  · rw [if_pos empty]
    exact Goes.throw (Or.inr ⟨fun failure => failure.someRecord empty, Or.inl ⟨rfl, rfl⟩⟩)
  rw [if_neg empty]
  apply Goes.bind
  apply Goes.memory
  dsimp only
  by_cases closed : s.closed = true
  · rw [if_pos closed]
    refine Goes.throw (Or.inr ⟨fun failure => ?_, Or.inl ⟨rfl, rfl⟩⟩)
    rw [failure.running.1] at closed
    cases closed
  rw [if_neg closed]
  by_cases poisoned : s.writeFailed = true
  · rw [if_pos poisoned]
    refine Goes.throw (Or.inr ⟨fun failure => ?_, Or.inl ⟨rfl, rfl⟩⟩)
    rw [failure.running.2] at poisoned
    cases poisoned
  rw [if_neg poisoned]
  obtain ⟨encoded, length⟩ :=
    Batch.encode_stored (b := ⟨unixMilli now, records⟩) s.logEndOffset empty
  rw [Batch.stored] at encoded
  rw [encoded]
  dsimp only
  rw [length]
  by_cases large : s.config.maxBatchBytes < (Batch.size ⟨unixMilli now, records⟩ : Int)
  · rw [if_pos large]
    exact Goes.throw (Or.inr ⟨fun failure => absurd failure.size (by omega), Or.inl ⟨rfl, rfl⟩⟩)
  rw [if_neg large]
  have running : s.closed = false ∧ s.writeFailed = false := by simp_all
  unfold appendEncoded
  apply Goes.bind
  rw [length]
  refine goes_rollSegment attached ?_ ?_ ?_
  · intro passes s' d' attached' rolled
    have late := rolled.late_iff empty running (not_lt.mp large) passes
    refine goes_writeEncoded attached' ?_ ?_ ?_ ?_
    · exact fun nothing _ _ _ _ => mt late.mp nothing
    · intro nothing _ _ s'' _ unwritten
      exact Or.inr ⟨mt late.mp nothing, Or.inr ⟨unwritten.logEndOffset.trans rolled.logEndOffset,
        unwritten.earliestOffset.trans rolled.earliestOffset, unwritten.writeFailed⟩⟩
    · intro failure _ _ s'' _ moved
      refine Or.inl ⟨late.mpr failure, ?_⟩
      have nonempty : 0 < records.length := List.length_pos_iff.mpr empty
      have count : 33 + 24 * records.length ≤ Batch.size ⟨unixMilli now, records⟩ :=
        @Batch.count_le ⟨unixMilli now, records⟩ empty
      rw [moved]
      unfold uint64
      omega
    · exact fun nothing _ => mt late.mp nothing
  · exact fun stopped _ _ s' _ unwritten =>
      Or.inr ⟨fun failure => stopped failure.passes, Or.inr unwritten⟩
  · exact fun stopped _ failure => stopped failure.passes

/-- A failed append is invisible unless it was the flush behind its write that failed. -/
theorem failed_append_invisible {now : Instant} {records : List Record} (attached : Attached s d)
    (offset : s.logEndOffset < 2 ^ 64) (limit : s.config.maxBatchBytes < 2 ^ 63) :
    Invisible s d (append now records ⟨s, d, script⟩) ↔
      ¬ FlushFails s ⟨unixMilli now, records⟩ script := by
  have exits : Goes script 0 (append now records) s d _ := goes_append attached offset limit
  unfold Goes at exits
  rw [List.drop_zero] at exits
  rcases ran : append now records ⟨s, d, script⟩ with ⟨_ | reason | _, ⟨s', d', rest⟩⟩ <;>
    rw [ran] at exits
  · obtain ⟨_, _, nothing⟩ := exits
    exact iff_of_true (fun _ failed => by cases failed) nothing
  · obtain ⟨_, _, ⟨failure, moved⟩ | ⟨nothing, kept⟩⟩ := exits
    · refine iff_of_false (fun invisible => moved (invisible reason rfl).1) (not_not.mpr failure)
    · refine iff_of_true (fun _ _ => ?_) nothing
      rcases kept with ⟨rfl, rfl⟩ | unwritten
      · exact ⟨rfl, rfl, Or.inl ⟨rfl, rfl⟩⟩
      · exact ⟨unwritten.logEndOffset, unwritten.earliestOffset,
          Or.inr (refuses_poisoned unwritten.writeFailed)⟩
  · exact iff_of_true (fun _ failed => by cases failed) exits

/-- The flush behind the write fails: the caller is told so, and the log's end counts the record. -/
theorem failed_append_visible :
    let p := (Partition.new.perform ⟨.openStore ⟨1000, 1000, 10, .sync⟩, []⟩).2
    let records : List Record := [⟨none, some [97], [], 0⟩]
    let after := p.perform ⟨.append 5000000 records, [.pass, .pass, .fail 0]⟩
    p.store.map Store.logEndOffset = some 0 ∧ after.1 = .failed (.io .sync) ∧
      after.2.store.map Store.logEndOffset = some 1 ∧
      ∀ s ∈ p.store,
        ¬ Invisible s p.directory
          (append 5000000 records ⟨s, p.directory, [.pass, .pass, .fail 0]⟩) := by
  refine ⟨by decide +kernel, by decide +kernel, by decide +kernel, ?_⟩
  have opened : (Partition.new.perform ⟨.openStore ⟨1000, 1000, 10, .sync⟩, []⟩).2.store =
      some ⟨⟨1000, 1000, 10, .sync⟩, false, false, [⟨0, 0, 0, [], -1, 0, false, true, 0, false⟩], 0,
        0, 0⟩ := by
    decide +kernel
  intro s isOpen invisible
  rw [opened, Option.mem_some_iff] at isOpen
  subst isOpen
  exact absurd (invisible (.io .sync) (by decide +kernel)).1 (by decide +kernel)

/-- The write itself fails. -/
theorem failed_append_invisible_write :
    let s : Store :=
      ⟨⟨1000, 1000, 10, .sync⟩, false, false, [⟨0, 0, 0, [], -1, 0, false, true, 0, false⟩], 0, 0,
        0⟩
    let d := (Directory.empty.put (.log 0) ⟨[], []⟩).put (.index 0) ⟨[], []⟩
    Invisible s d (append 5000000 [⟨none, some [97], [], 0⟩] ⟨s, d, [.fail 7]⟩) := by
  intro s d
  refine (failed_append_invisible ⟨by decide, ?_, ?_⟩ (by decide) (by decide)).mpr fun failure => ?_
  · show ((Directory.empty.put (.log 0) ⟨[], []⟩).put (.index 0) ⟨[], []⟩).file? (.log 0) ≠ none
    simp
  · show ((Directory.empty.put (.log 0) ⟨[], []⟩).put (.index 0) ⟨[], []⟩).file? (.index 0) ≠ none
    simp
  · exact absurd (failure.written 0 (Nat.zero_le _)) (by decide)

end Append

end MessageBroker.Storage
