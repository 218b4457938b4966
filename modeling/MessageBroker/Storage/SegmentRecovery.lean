import MessageBroker.Storage.RecoveryIndex
import MessageBroker.Storage.RecoveryScan

namespace MessageBroker.Storage

open Faulty BigEndian

section Segments

variable {μ : Type} {allowed : Fault → Prop} {m : μ} {d : Directory} {seg : Segment} {P : Policy}
  {e : Extent}

theorem Torn.mono {small large : Int} {tail : Bytes} (torn : Torn small tail) (le : small ≤ large) :
    Torn large tail := by
  rcases torn with short | ⟨magic, version, enough, limit, short⟩
  · exact Or.inl short
  · exact Or.inr ⟨magic, version, enough, by omega, short⟩

theorem Extent.maxTimestamp_from (start : Int) (batches : List Batch) :
    start ≤ batches.foldl (fun largest b => max largest b.time) start ∧
      ∀ b ∈ batches, b.time ≤ batches.foldl (fun largest b => max largest b.time) start := by
  induction batches generalizing start with
  | nil => simp
  | cons b batches ih =>
    obtain ⟨above, bound⟩ := ih (max start b.time)
    rw [List.foldl_cons]
    refine ⟨by omega, ?_⟩
    intro other member
    rcases List.mem_cons.mp member with rfl | member
    · omega
    · exact bound other member

theorem meets_recoverIndex {interval : Int} {file index : File}
    {post : Post μ Directory StoreError Segment} (valid : e.Valid) (base : seg.baseOffset = e.base)
    (size : seg.size = e.bytes.length) (maxTimestamp : seg.maxTimestamp = e.maxTimestamp)
    (found : d.file? (.log e.base) = some file) (content : file.data = e.bytes)
    (foundIndex : d.file? (.index e.base) = some index)
    (indexSize : seg.indexSize = index.data.length) (policy : P.index e index.data)
    (returns : ∀ seg' d', Mirrors e { seg' with nextOffset := e.next } d' →
      IndexStep e d d' → post.returns seg' m d')
    (fails : Shaky allowed → ∀ reason d', IndexStep e d d' → post.fails reason m d')
    (dies : Shaky allowed → ∀ d', IndexStep e d d' → post.dies d') :
    Meets allowed (recoverIndex interval seg e.bytes.length) m d post := by
  have path : seg.path = .log e.base := by rw [Segment.path, base]
  have indexPath : seg.indexPath = .index e.base := by rw [Segment.indexPath, base]
  have same : IndexStep e d d := (SameBut.refl (.indexTmp e.base) d).indexStep
  have rebuild : Meets allowed (rebuildIndex interval seg e.bytes.length) m d post := by
    rw [← content]
    refine meets_rebuildIndex valid base (by rw [path, found]) content ?_ ?_ fails dies
    · intro b member
      have bounds := Extent.maxTimestamp_from 0 e.batches
      have time := bounds.2 b member
      rw [maxTimestamp, Extent.maxTimestamp]
      omega
    · intro entries last d' index' sound placed bytes step
      refine returns _ d' ⟨base, rfl, size, sound, maxTimestamp, ?_, ?_⟩ step
      · exact ⟨file, by rw [step.log, found], content⟩
      · exact ⟨index', entries, placed, by rw [bytes]; exact sound.indexHolds, rfl⟩
  unfold recoverIndex
  apply Meets.bind
  apply Meets.attempt
  refine meets_readIndexEntries (by rw [indexPath, foundIndex]) indexSize ?_ (fun _ _ => rebuild)
    (fun shaky => dies shaky d same)
  intro entries parsed
  obtain ⟨bytes, _, _, rising⟩ := parseIndex_ok parsed
  dsimp only
  apply Meets.bind
  rw [← content]
  refine meets_validateIndexEntries (by rw [path, found]) rising ?_ (fun shaky => dies shaky d same)
  intro kept verdict
  cases kept with
  | false =>
    rw [content]
    exact rebuild
  | true =>
    have accepted := verdict.1 rfl
    rw [content, base] at accepted
    have sound := P.index_trusted e index.data entries valid policy parsed accepted
    refine Meets.pure
      (returns _ d ⟨base, rfl, size, sound, maxTimestamp, ⟨file, found, content⟩, ?_⟩ same)
    refine ⟨index, entries, foundIndex, by rw [bytes]; exact sound.indexHolds, ?_⟩
    rw [indexSize, bytes, encodeEntries_length]

/-- Recovering a segment brings its extent back to memory. It fails only when the disk does or when
    a batch cannot be read back, and then the segment's files still hold the extent. -/
theorem meets_recoverSegment {config : Config} {active : Bool} {file index : File} {left : Bytes}
    {tail : Bytes → Prop} {post : Post μ Directory StoreError (Segment × Nat)}
    (valid : e.Valid) (limit : ∀ b ∈ e.batches, (b.size : Int) ≤ config.maxBatchBytes)
    (base : seg.baseOffset = e.base) (size : seg.size = file.data.length)
    (maxTimestamp : seg.maxTimestamp = 0) (found : d.file? (.log e.base) = some file)
    (content : file.data = e.bytes ++ left) (rest : tail left)
    (foundIndex : d.file? (.index e.base) = some index)
    (indexSize : seg.indexSize = index.data.length) (policy : P.index e index.data)
    (nothing : tail []) (torn : ∀ left, tail left → Torn config.maxBatchBytes left)
    (closed : active = false → ∀ left, tail left → left = [])
    (returns : (∀ b ∈ e.batches, b.Readable) →
      ∀ seg' d', Mirrors e { seg' with nextOffset := e.next } d' →
      Frame e.base d d' → post.returns (seg', e.next) m d')
    (fails : Shaky allowed ∨ (∃ b ∈ e.batches, ¬ b.Readable) →
      ∀ reason d', OnDisk P.index tail e d' →
      Frame e.base d d' → post.fails reason m d')
    (dies : Shaky allowed → ∀ d', OnDisk P.index tail e d' → Frame e.base d d' → post.dies d') :
    Meets allowed (recoverSegment config seg active) m d post := by
  have path : seg.path = .log e.base := by rw [Segment.path, base]
  have start : OnDisk P.index tail e d := by
    refine ⟨⟨file, left, found, content, rest⟩, ?_⟩
    intro other same
    rw [foundIndex, Option.some.injEq] at same
    rw [← same]
    exact policy
  unfold recoverSegment
  rw [base]
  apply Meets.bind
  refine meets_scanBatches e.batches [] left (by rw [path, found]) size
    (by rw [content]; rfl) valid.batches limit (torn left rest)
    (fun inactive => closed inactive left rest) ?_ ?_ ?_ ?_
  · intro readable d' log others
    rw [path] at log others
    rw [List.nil_append] at log ⊢
    have scanned : Frame e.base d d' := fun other differs =>
      ⟨others _ (by simpa using differs), others _ (by simp)⟩
    have after : ∀ d'', IndexStep e d' d'' → OnDisk P.index tail e d'' ∧ Frame e.base d d'' := by
      intro d'' step
      refine ⟨⟨⟨_, [], by rw [step.log, log], by rw [List.append_nil]; rfl, nothing⟩, ?_⟩,
        scanned.trans step.frame⟩
      intro other placed
      rcases step.index other placed with old | ⟨entries, sound, bytes⟩
      · rw [others _ (by simp), foundIndex, Option.some.injEq] at old
        rw [← old]
        exact policy
      · rw [bytes]
        exact P.index_holds e entries _ valid sound.indexHolds
    apply Meets.bind
    refine meets_recoverIndex (P := P) (e := e) valid base rfl ?_ log rfl
      (by rw [others _ (by simp), foundIndex]) indexSize policy ?_ ?_ ?_
    · rw [maxTimestamp]
      rfl
    · exact fun seg' d'' mirrors step =>
        Meets.pure (returns readable seg' d'' mirrors (after d'' step).2)
    · exact fun shaky reason d'' step =>
        fails (Or.inl shaky) reason d'' (after d'' step).1 (after d'' step).2
    · exact fun shaky d'' step => dies shaky d'' (after d'' step).1 (after d'' step).2
  · exact fun bad => fails (Or.inr bad) _ d start (Frame.refl _ _)
  · exact fun shaky _ => fails (Or.inl shaky) _ d start (Frame.refl _ _)
  · exact fun shaky => dies shaky d start (Frame.refl _ _)

end Segments

end MessageBroker.Storage
