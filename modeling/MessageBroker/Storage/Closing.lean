import MessageBroker.Storage.Represent

namespace MessageBroker.Storage

open Faulty Program

def SameContent (seg seg' : Segment) : Prop :=
  seg' = { seg with indexDirty := seg'.indexDirty, handlesClosed := seg'.handlesClosed }

structure Closes (s s' : Store) : Prop where
  config : s'.config = s.config
  closed : s'.closed = true
  writeFailed : s'.writeFailed = s.writeFailed
  segments : List.Forall₂ SameContent s.segments s'.segments
  activeSegment : s'.activeSegment = s.activeSegment
  logEndOffset : s'.logEndOffset = s.logEndOffset
  earliestOffset : s'.earliestOffset = s.earliestOffset

section Closing

variable {allowed : Fault → Prop} {limit : Int} {J : Journal} {s s' : Store} {d d' : Directory}

theorem sameContent_refl (segments : List Segment) : List.Forall₂ SameContent segments segments :=
  List.forall₂_same.mpr fun _ _ => rfl

theorem sameContent_set (segments : List Segment) (place : Nat) (dirty : Bool) :
    List.Forall₂ SameContent segments
      (segments.set place { segments.getD place default with indexDirty := dirty }) := by
  rw [List.forall₂_iff_get]
  refine ⟨by simp, ?_⟩
  intro i inside inside'
  simp only [List.get_eq_getElem, List.getElem_set]
  split_ifs with same
  · subst same
    rw [List.getD_eq_getElem _ _ inside]
    rfl
  · rfl

theorem sameContent_closed {segments segments' : List Segment}
    (same : List.Forall₂ SameContent segments segments') :
    List.Forall₂ SameContent segments
      (segments'.map fun seg => { seg with handlesClosed := true }) := by
  rw [List.forall₂_map_right_iff]
  refine same.imp ?_
  intro seg seg' content
  rw [content]
  rfl

theorem forall₂_sameContent {relation : Extent → Segment → Prop} {extents : List Extent}
    {segments segments' : List Segment}
    (stable : ∀ e seg seg', relation e seg → SameContent seg seg' → relation e seg')
    (related : List.Forall₂ relation extents segments)
    (same : List.Forall₂ SameContent segments segments') :
    List.Forall₂ relation extents segments' := by
  induction related generalizing segments' with
  | nil =>
    cases same
    exact .nil
  | cons head _ ih =>
    cases same with
    | cons content rest => exact .cons (stable _ _ _ head content) (ih rest)

theorem Represents.closes (represents : Represents limit J s d) (closes : Closes s s') :
    Represents limit J s' d := by
  refine ⟨represents.valid, represents.limit, ?_,
    closes.activeSegment.trans represents.activeSegment,
    closes.logEndOffset.trans represents.logEndOffset,
    closes.earliestOffset.trans represents.earliestOffset, represents.only, represents.above⟩
  refine forall₂_sameContent ?_ represents.segments closes.segments
  intro e seg seg' mirrors content
  rw [content]
  exact { mirrors with }

theorem meets_closeSegments {segments : List Segment}
    {post : Post Store Directory StoreError (List Operation)}
    (returns : ∀ failed, post.returns failed s d) (dies : Shaky allowed → post.dies d) :
    Meets allowed (closeSegments segments) s d post := by
  induction segments generalizing post with
  | nil => exact Meets.pure (returns _)
  | cons seg rest ih =>
    apply Meets.bind
    apply Meets.attempt
    refine meets_segmentClose ?_ (fun _ _ => ?_) dies
    all_goals
      apply Meets.bind
      exact ih (fun failed => Meets.pure (returns _)) dies

theorem meets_closeFiles (flushed : Except StoreError Unit) {s' : Store} {d' : Directory}
    {post : Post Store Directory StoreError Unit}
    (content : ∃ segments, List.Forall₂ SameContent s.segments segments ∧
      s' = { s with closed := true, segments := segments })
    (returns : ∀ s'', Closes s s'' → post.returns () s'' d')
    (fails : ∀ reason s'', Closes s s'' → post.fails reason s'' d')
    (dies : Shaky allowed → post.dies d') :
    Meets allowed (do
      let s ← memory
      let failed ← closeSegments s.segments
      modify fun s =>
        { s with segments := s.segments.map fun seg => { seg with handlesClosed := true } }
      match failures [(.sync, flushed)] ++ failed with
      | [] => pure ()
      | failed => throw (.closing failed)) s' d' post := by
  obtain ⟨segments, content, rfl⟩ := content
  apply Meets.bind
  apply Meets.memory
  apply Meets.bind
  refine meets_closeSegments (fun failed => ?_) dies
  apply Meets.bind
  apply Meets.modify
  have closes : Closes s { s with
      closed := true, segments := segments.map fun seg => { seg with handlesClosed := true } } :=
    ⟨rfl, rfl, rfl, sameContent_closed content, rfl, rfl, rfl⟩
  dsimp only
  split
  · exact Meets.pure (returns _ closes)
  · exact Meets.throw (fails _ _ closes)

/-- Closing flushes files and changes no bytes, whatever state the store is in and whatever
    fails. -/
theorem meets_closeStore {post : Post Store Directory StoreError Unit}
    (returns : ∀ s' d', Closes s s' → Flushed d d' → post.returns () s' d')
    (fails : ∀ reason s' d', Closes s s' → Flushed d d' → post.fails reason s' d')
    (dies : Shaky allowed → ∀ d', Flushed d d' → post.dies d') :
    Meets allowed closeStore s d post := by
  unfold closeStore
  apply Meets.bind
  apply Meets.memory
  dsimp only
  split_ifs with closed
  · exact Meets.pure
      (returns s d ⟨rfl, closed, rfl, sameContent_refl _, rfl, rfl, rfl⟩ (Flushed.refl d))
  apply Meets.bind
  apply Meets.modify
  apply Meets.bind
  apply Meets.attempt
  unfold flushActive
  apply Meets.bind
  apply Meets.memory
  apply Meets.bind
  refine meets_segmentFlush ?_ ?_ dies
  · intro dirty d' flushed _
    dsimp only
    apply Meets.modify
    exact meets_closeFiles (.ok ()) ⟨_, sameContent_set s.segments s.activeSegment dirty, rfl⟩
      (fun s' closes => returns s' d' closes flushed)
      (fun reason s' closes => fails reason s' d' closes flushed)
      (fun shaky => dies shaky d' flushed)
  · intro reason d' _ flushed
    exact meets_closeFiles (.error reason) ⟨s.segments, sameContent_refl _, rfl⟩
      (fun s' closes => returns s' d' closes flushed)
      (fun reason s' closes => fails reason s' d' closes flushed)
      (fun shaky => dies shaky d' flushed)

end Closing

end MessageBroker.Storage
