import MessageBroker.Storage.Retaining

namespace MessageBroker.Storage

open Faulty Program

/-! ## What retention does to the slice of segments and to the files -/

structure Deleted (allowed : Fault → Prop) (seg : Segment) (d d' : Directory) : Prop where
  log : d'.file? seg.path = none
  index : Shaky allowed ∨ d'.file? seg.indexPath = none
  others : ∀ name, name ≠ seg.path → name ≠ seg.indexPath → d'.file? name = d.file? name

/-- The given number of segments went away from the front, with their files. -/
inductive Trims (allowed : Fault → Prop) : Nat → Store → Directory → Store → Directory → Prop where
  | start {s : Store} {d : Directory} : Trims allowed 0 s d s d
  | step {s s' : Store} {d d1 d' : Directory} {seg : Segment} {rest : List Segment} {count : Nat} :
      s.segments = seg :: rest →
        Deleted allowed seg d d1 → Trims allowed count (s.dropSegment 0) d1 s' d' →
      Trims allowed (count + 1) s d s' d'

section Trims

variable {allowed : Fault → Prop} {s s' : Store} {d d' : Directory} {count : Nat} {seg : Segment}
  {rest : List Segment}

theorem Trims.segments (trims : Trims allowed count s d s' d') :
    s'.segments = s.segments.drop count := by
  induction trims with
  | start => rfl
  | step list _ _ ih =>
    rw [ih, Store.dropSegment, list]
    rfl

theorem Trims.count_le (trims : Trims allowed count s d s' d') : count ≤ s.segments.length := by
  induction trims with
  | start => exact Nat.zero_le _
  | step list _ _ ih =>
    rw [Store.dropSegment, list, List.eraseIdx_zero, List.tail_cons] at ih
    rw [list, List.length_cons]
    exact Nat.succ_le_succ ih

theorem Trims.store (trims : Trims allowed count s d s' d') :
    s' = { s with
      segments := s.segments.drop count
      activeSegment := s.activeSegment - count
      earliestOffset := s'.earliestOffset } := by
  induction trims with
  | start => rfl
  | @step s s' d d1 d' seg rest count list _ _ ih =>
    have place : (s.dropSegment 0).activeSegment - count = s.activeSegment - (count + 1) := by
      unfold Store.dropSegment
      dsimp only
      split_ifs <;> omega
    rw [place, Store.dropSegment, list] at ih
    rw [list]
    exact ih

theorem Trims.kept {name : FileName} (trims : Trims allowed count s d s' d')
    (apart : ∀ seg ∈ s.segments.take count, name ≠ seg.path ∧ name ≠ seg.indexPath) :
    d'.file? name = d.file? name := by
  induction trims with
  | start => rfl
  | step list deleted _ ih =>
    rw [list, List.take_succ_cons] at apart
    obtain ⟨notLog, notIndex⟩ := apart _ List.mem_cons_self
    rw [ih fun seg member =>
      apart seg (List.mem_cons_of_mem _ (by rwa [Store.dropSegment, list] at member)),
      deleted.others _ notLog notIndex]

theorem Trims.stays_away {name : FileName} (healthy : ¬ Shaky allowed)
    (trims : Trims allowed count s d s' d') (away : d.file? name = none) :
    d'.file? name = none := by
  induction trims with
  | start => exact away
  | @step s s' d d1 d' seg rest count _ deleted _ ih =>
    apply ih
    by_cases log : name = seg.path
    · rw [log]
      exact deleted.log
    by_cases index : name = seg.indexPath
    · rw [index]
      exact deleted.index.resolve_left healthy
    · rw [deleted.others _ log index, away]

theorem Trims.gone {name : FileName} (healthy : ¬ Shaky allowed)
    (trims : Trims allowed count s d s' d')
    (member : ∃ seg ∈ s.segments.take count, name = seg.path ∨ name = seg.indexPath) :
    d'.file? name = none := by
  induction trims with
  | start =>
    obtain ⟨_, impossible, _⟩ := member
    cases impossible
  | step list deleted trims ih =>
    obtain ⟨other, present, named⟩ := member
    rw [list, List.take_succ_cons] at present
    rcases List.mem_cons.mp present with rfl | later
    · refine trims.stays_away healthy ?_
      rcases named with rfl | rfl
      · exact deleted.log
      · exact deleted.index.resolve_left healthy
    · exact ih ⟨other, by rwa [Store.dropSegment, list], named⟩

theorem Trims.trans {s'' : Store} {d'' : Directory} {more : Nat}
    (first : Trims allowed count s d s' d') (second : Trims allowed more s' d' s'' d'') :
    Trims allowed (count + more) s d s'' d'' := by
  induction first with
  | start => rwa [Nat.zero_add]
  | step list deleted _ ih =>
    rw [Nat.add_right_comm]
    exact .step list deleted (ih second)

def trimPost {α : Type} (allowed : Fault → Prop) (s : Store) (d : Directory) :
    Post Store Directory StoreError α where
  returns := fun _ s' d' => ∃ count, Trims allowed count s d s' d'
  fails := fun _ s' d' => ∃ count, Trims allowed count s d s' d'
  dies := fun _ => True

theorem meets_deleteFirst (list : s.segments = seg :: rest) :
    Meets allowed (deleteSegmentAtIndex 0) s d (trimPost allowed s d) := by
  let kept (d' : Directory) : Prop := d'.file? seg.path = none ∧
    ∀ name, name ≠ seg.path → name ≠ seg.indexPath → d'.file? name = d.file? name
  let cleaned (d' : Directory) : Prop := Deleted allowed seg d d'
  unfold deleteSegmentAtIndex
  apply Meets.bind
  apply Meets.memory
  dsimp only
  rw [list]
  simp only [List.getElem?_cons_zero]
  apply Meets.bind
  refine meets_unitary ?_ (fun _ => ⟨0, .start⟩) (fun _ => trivial)
  cases found : d.file? seg.path with
  | none => exact ⟨0, .start⟩
  | some file =>
    have erased : kept (d.erase seg.path) :=
      ⟨file?_erase_self, fun _ notLog _ => file?_erase_other notLog⟩
    have differs : seg.path ≠ seg.indexPath := by simp [Segment.path, Segment.indexPath]
    show Meets allowed _ _ _ _
    apply Meets.bind
    apply Meets.modify
    apply Meets.bind
    refine meets_noted cleaned ?_ ?_ (fun _ _ _ => trivial)
    · refine meets_removeIndex ?_ (fun shaky => ⟨rfl, ⟨erased.1, Or.inl shaky, erased.2⟩, shaky⟩)
        (fun shaky => ⟨⟨erased.1, Or.inl shaky, erased.2⟩, shaky⟩)
      intro d1 same away
      refine ⟨rfl, ?_, Or.inr away, ?_⟩
      · rw [same _ differs, erased.1]
      · intro name notLog notIndex
        rw [same _ notIndex, erased.2 _ notLog notIndex]
    intro index d1 after _
    apply Meets.bind
    refine meets_noted cleaned ?_ ?_ (fun _ _ _ => trivial)
    · exact meets_segmentClose ⟨rfl, after⟩ (fun shaky _ => ⟨rfl, after, shaky⟩)
        (fun shaky => ⟨after, shaky⟩)
    intro handles d2 after' _
    apply Meets.bind
    refine meets_noted cleaned ?_ ?_ (fun _ _ _ => trivial)
    · have synced : cleaned { d2 with durableNames := d2.files.keys } :=
        ⟨after'.log, after'.index, after'.others⟩
      exact meets_syncDirectory ⟨rfl, synced⟩ (fun shaky _ => ⟨rfl, after', shaky⟩)
        (fun shaky => ⟨after', shaky⟩)
    intro directory d3 after'' _
    have one : ∃ count, Trims allowed count s d (s.dropSegment 0) d3 :=
      ⟨1, .step list after'' .start⟩
    dsimp only
    split
    · exact Meets.pure one
    · exact Meets.throw one

theorem meets_deleteFirstThen {next : StoreProgram (List StoreError)}
    (list : s.segments = seg :: rest)
    (continues : ∀ s' d', Meets allowed next s' d' (trimPost allowed s' d')) :
    Meets allowed (deleteOldestThen next) s d (trimPost allowed s d) := by
  apply Meets.bind
  apply Meets.attempt
  refine (meets_deleteFirst list).mono ?_ ?_ (fun _ _ => trivial)
  · rintro _ s1 d1 ⟨count, trims⟩
    refine (continues s1 d1).mono ?_ ?_ (fun _ _ => trivial)
    · exact fun _ s' d' ⟨more, trims'⟩ => ⟨count + more, trims.trans trims'⟩
    · exact fun _ s' d' ⟨more, trims'⟩ => ⟨count + more, trims.trans trims'⟩
  · exact fun _ _ _ trims => Meets.pure trims

theorem meets_retainByAge_trims (cutoff : Int) (rounds : Nat) (s : Store) (d : Directory) :
    Meets allowed (retainByAge cutoff rounds) s d (trimPost allowed s d) := by
  induction rounds generalizing s d with
  | zero => exact Meets.pure ⟨0, .start⟩
  | succ rounds ih =>
    unfold retainByAge
    apply Meets.bind
    apply Meets.memory
    dsimp only
    split
    · rename_i list
      split_ifs
      · exact Meets.pure ⟨0, .start⟩
      · exact meets_deleteFirstThen list ih
      · exact Meets.pure ⟨0, .start⟩
    · exact Meets.pure ⟨0, .start⟩

theorem meets_totalBytes_same (segments : List Segment) :
    Meets allowed (totalBytes segments) s d
      ⟨fun _ s' d' => s' = s ∧ d' = d, fun _ s' d' => s' = s ∧ d' = d, fun _ => True⟩ := by
  have stats : ∀ name {post : Post Store Directory StoreError Nat},
      (∀ size, post.returns size s d) →
      (∀ reason, post.fails reason s d) →
        (∀ d', post.dies d') → Meets allowed (stat name) s d post := by
    intro name post returns fails dies
    refine meets_unitary ?_ (fun _ => fails _) (fun _ => dies _)
    cases d.file? name with
    | none => exact fails _
    | some file => exact returns _
  induction segments with
  | nil => exact Meets.pure ⟨rfl, rfl⟩
  | cons seg rest ih =>
    apply Meets.bind
    refine stats _ (fun log => ?_) (fun _ => ⟨rfl, rfl⟩) (fun _ => trivial)
    apply Meets.bind
    refine stats _ (fun index => ?_) (fun _ => ⟨rfl, rfl⟩) (fun _ => trivial)
    apply Meets.bind
    refine ih.mono ?_ (fun _ _ _ same => same) (fun _ _ => trivial)
    rintro others _ _ ⟨rfl, rfl⟩
    exact Meets.pure ⟨rfl, rfl⟩

theorem meets_retainBySize_trims (maxPartitionBytes rounds : Nat) (s : Store) (d : Directory) :
    Meets allowed (retainBySize maxPartitionBytes rounds) s d (trimPost allowed s d) := by
  induction rounds generalizing s d with
  | zero => exact Meets.pure ⟨0, .start⟩
  | succ rounds ih =>
    unfold retainBySize
    apply Meets.bind
    apply Meets.memory
    dsimp only
    split
    · rename_i list
      apply Meets.bind
      apply Meets.attempt
      apply Meets.bind
      apply Meets.memory
      refine (meets_totalBytes_same s.segments).mono ?_ ?_ (fun _ _ => trivial)
      · rintro total _ _ ⟨rfl, rfl⟩
        dsimp only
        split_ifs
        · exact Meets.pure ⟨0, .start⟩
        · exact Meets.pure ⟨0, .start⟩
        · exact meets_deleteFirstThen list ih
      · rintro reason _ _ ⟨rfl, rfl⟩
        exact Meets.pure ⟨0, .start⟩
    · exact Meets.pure ⟨0, .start⟩

/-- Whatever fails, a retention pass takes segments from the front. -/
theorem meets_applyRetention_trims (now : Instant) (maxAge : Int) (maxPartitionBytes : Nat)
    (s : Store) (d : Directory) :
    Meets allowed (applyRetention now maxAge maxPartitionBytes) s d (trimPost allowed s d) := by
  unfold applyRetention
  apply Meets.bind
  apply Meets.memory
  dsimp only
  split_ifs
  · exact Meets.pure ⟨0, .start⟩
  apply Meets.bind
  refine (meets_retainByAge_trims _ _ s d).mono ?_ (fun _ _ _ trims => trims) (fun _ _ => trivial)
  rintro aged s1 d1 ⟨count, trims⟩
  apply Meets.bind
  apply Meets.memory
  apply Meets.bind
  refine (meets_retainBySize_trims _ _ s1 d1).mono ?_ ?_ (fun _ _ => trivial)
  · rintro sized s2 d2 ⟨more, trims'⟩
    have both : ∃ count, Trims allowed count s d s2 d2 := ⟨count + more, trims.trans trims'⟩
    dsimp only
    split
    · exact Meets.pure both
    · exact Meets.throw both
  · rintro reason s2 d2 ⟨more, trims'⟩
    exact ⟨count + more, trims.trans trims'⟩

end Trims

end MessageBroker.Storage
