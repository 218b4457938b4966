import MessageBroker.Storage.DiskState

namespace MessageBroker.Storage

open Faulty BigEndian

section Segments

variable {μ : Type} {allowed : Fault → Prop} {m : μ} {d : Directory} {seg : Segment}

/-- How far opening a segment's files has come. -/
inductive Touched (base : Nat) (d : Directory) : Directory → Prop where
  | nothing : Touched base d d
  | log : Touched base d (d.touch (.log base))
  | both : Touched base d ((d.touch (.log base)).touch (.index base))

theorem Touched.frame {base : Nat} {d' : Directory} (touched : Touched base d d') :
    Frame base d d' := by
  intro other differs
  have log : FileName.log other ≠ .log base := by simpa using differs
  have index : FileName.index other ≠ .index base := by simpa using differs
  cases touched with
  | nothing => exact ⟨rfl, rfl⟩
  | log => exact ⟨file?_touch_other log, file?_touch_other (by simp)⟩
  | both =>
    exact ⟨by rw [file?_touch_other (by simp), file?_touch_other log],
      by rw [file?_touch_other index, file?_touch_other (by simp)]⟩

def openedSegment (base : Nat) (active : Bool) (log index : File) : Segment :=
  { baseOffset := base, nextOffset := base, size := log.data.length, indexEntries := [],
    lastIndexedPosition := -1, indexSize := index.data.length, indexDirty := false, active,
    maxTimestamp := 0, handlesClosed := false }

theorem meets_newSegment {base : Nat} {active : Bool} {post : Post μ Directory StoreError Segment}
    (returns : ∀ log index,
      ((d.touch (.log base)).touch (.index base)).file? (.log base) = some log →
      ((d.touch (.log base)).touch (.index base)).file? (.index base) = some index →
      post.returns (openedSegment base active log index) m
        ((d.touch (.log base)).touch (.index base)))
    (fails : Shaky allowed → ∀ operation d', Touched base d d' → post.fails (.io operation) m d')
    (dies : Shaky allowed → ∀ d', Touched base d d' → post.dies d') :
    Meets allowed (newSegment base active) m d post := by
  obtain ⟨log, foundLog, _⟩ := file?_touch_self d (.log base)
  obtain ⟨index, foundIndex, _⟩ := file?_touch_self (d.touch (.log base)) (.index base)
  have kept : ((d.touch (.log base)).touch (.index base)).file? (.log base) = some log := by
    rw [file?_touch_other (by simp), foundLog]
  -- every cleanup after a failure closes handles, which the directory does not see
  have cleanup : ∀ {d' : Directory} {name : FileName} {operation : Operation},
      Shaky allowed → Touched base d d' →
      Meets allowed (close name) m d'
        ⟨fun _ => post.fails (.io operation), fun _ => post.fails (.io operation), post.dies⟩ :=
    fun shaky touched => meets_close (fails shaky _ _ touched) (fun _ => fails shaky _ _ touched)
      (fun shaky => dies shaky _ touched)
  unfold newSegment
  apply Meets.bind
  refine meets_openCreate ?_ (fun shaky => fails shaky _ _ .nothing)
    (fun shaky => dies shaky _ .nothing)
  apply Meets.bind
  apply Meets.onError
  refine meets_stat foundLog ?_ (fun shaky => cleanup shaky .log) (fun shaky => dies shaky _ .log)
  apply Meets.bind
  apply Meets.onError
  refine meets_openCreate ?_ (fun shaky => cleanup shaky .log) (fun shaky => dies shaky _ .log)
  apply Meets.bind
  apply Meets.onError
  refine meets_stat foundIndex ?_ ?_ (fun shaky => dies shaky _ .both)
  · exact Meets.pure (returns log index kept foundIndex)
  · intro shaky
    apply Meets.bind
    apply Meets.ignore
    exact meets_close (cleanup shaky .both) (fun _ => cleanup shaky .both)
      (fun shaky => dies shaky _ .both)

theorem created_empty {base : Nat} {log index : File} (noLog : d.file? (.log base) = none)
    (emptyIndex : ∀ file, d.file? (.index base) = some file → file.data = [])
    (foundLog : ((d.touch (.log base)).touch (.index base)).file? (.log base) = some log)
    (foundIndex : ((d.touch (.log base)).touch (.index base)).file? (.index base) = some index) :
    log = ⟨[], []⟩ ∧ index.data = [] := by
  constructor
  · rw [file?_touch_other (by simp), file?_touch_missing noLog, Option.some.injEq] at foundLog
    exact foundLog.symm
  · obtain ⟨file, found, variants⟩ := file?_touch_self (d.touch (.log base)) (.index base)
    rw [foundIndex, Option.some.injEq] at found
    subst found
    rw [file?_touch_other (by simp)] at variants
    rcases variants with there | ⟨_, rfl⟩
    · exact emptyIndex index there
    · rfl

theorem mirrors_created {base : Nat} (active : Bool) {log index : File}
    (noLog : d.file? (.log base) = none)
    (emptyIndex : ∀ file, d.file? (.index base) = some file → file.data = [])
    (foundLog : ((d.touch (.log base)).touch (.index base)).file? (.log base) = some log)
    (foundIndex : ((d.touch (.log base)).touch (.index base)).file? (.index base) = some index) :
    Mirrors ⟨base, []⟩ (openedSegment base active log index)
      ((d.touch (.log base)).touch (.index base)) := by
  obtain ⟨emptyLog, nothing⟩ := created_empty noLog emptyIndex foundLog foundIndex
  subst emptyLog
  refine ⟨rfl, rfl, rfl, Extent.sound_nil _ rfl, rfl, ⟨_, foundLog, rfl⟩,
    ⟨_, [], foundIndex, ?_, ?_⟩⟩
  · rw [nothing]
    exact indexHolds_nil _
  · show index.data.length = 0
    rw [nothing]
    rfl

theorem meets_segmentClose {post : Post μ Directory StoreError Unit} (returns : post.returns () m d)
    (fails : Shaky allowed → ∀ reason, post.fails reason m d) (dies : Shaky allowed → post.dies d) :
    Meets allowed seg.close m d post := by
  unfold Segment.close
  split
  · exact Meets.pure returns
  · apply Meets.bind
    apply Meets.attempt
    refine meets_close ?_ (fun shaky => ?_) dies
    all_goals
      apply Meets.bind
      apply Meets.attempt
    · exact meets_close (Meets.pure returns) (fun shaky => Meets.throw (fails shaky _)) dies
    · exact meets_close (Meets.throw (fails shaky _)) (fun shaky => Meets.throw (fails shaky _))
        dies

theorem failures_cause {steps : List (Operation × Except StoreError Unit)} {cause : Prop}
    (nonempty : failures steps ≠ []) (causes : ∀ step ∈ steps, step.2 ≠ .ok () → cause) :
    cause := by
  obtain ⟨operation, member⟩ := List.exists_mem_of_ne_nil _ nonempty
  obtain ⟨⟨name, result⟩, present, failed⟩ := List.mem_filterMap.mp member
  cases result with
  | ok => cases failed
  | error reason => exact causes _ present (by simp)

/-- A step whose error is only noted: what comes next sees the same directory either way. -/
theorem meets_noted {p : Program μ Directory StoreError Unit} (kept : Directory → Prop)
    {post : Post μ Directory StoreError (Except StoreError Unit)}
    (step : Meets allowed p m d ⟨fun _ m' d' => m' = m ∧ kept d',
      fun _ m' d' => m' = m ∧ kept d' ∧ Shaky allowed, fun d' => kept d' ∧ Shaky allowed⟩)
    (next : ∀ result d', kept d' → (result ≠ .ok () → Shaky allowed) → post.returns result m d')
    (dies : Shaky allowed → ∀ d', kept d' → post.dies d') :
    Meets allowed (Program.attempt p) m d post := by
  apply Meets.attempt
  apply step.mono
  · rintro value m' d' ⟨rfl, holds⟩
    exact next _ d' holds fun failed => absurd rfl failed
  · rintro reason m' d' ⟨rfl, holds, shaky⟩
    exact next _ d' holds fun _ => shaky
  · exact fun d' ⟨holds, shaky⟩ => dies shaky d' holds

end Segments

end MessageBroker.Storage
