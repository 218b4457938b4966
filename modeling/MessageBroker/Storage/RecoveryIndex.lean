import MessageBroker.Storage.IndexParse
import MessageBroker.Storage.Recovery

namespace MessageBroker.Storage

open Faulty BigEndian

/-! ## Validation -/

section Validation

variable {μ : Type} {allowed : Fault → Prop} {m : μ} {d : Directory} {seg : Segment} {file : File}
  {post : Post μ Directory StoreError Bool}

/-- A verdict on the index is right when it keeps it, and exact when no read can fail. -/
def Verdict (allowed : Fault → Prop) (test kept : Bool) : Prop :=
  (kept = true → test = true) ∧ (¬ Shaky allowed → kept = test)

theorem verdict_exact (test : Bool) : Verdict allowed test test := ⟨id, fun _ => rfl⟩

theorem verdict_shaky (shaky : Shaky allowed) (test : Bool) : Verdict allowed test false :=
  ⟨fun impossible => absurd impossible Bool.false_ne_true, fun steady => absurd shaky steady⟩

theorem meets_validateEntry {entry : IndexEntry} (found : d.file? seg.path = some file)
    (returns : ∀ kept, Verdict allowed (entryMatches file.data seg.baseOffset entry) kept →
      post.returns kept m d)
    (dies : Shaky allowed → post.dies d) :
    Meets allowed (validateEntry seg file.data.length entry) m d post := by
  unfold validateEntry
  by_cases outside : file.data.length ≤ entry.position
  · have short : entryMatches file.data seg.baseOffset entry = false := by
      simp [entryMatches, show ¬ entry.position + 33 ≤ file.data.length by omega]
    rw [if_pos outside]
    exact Meets.pure (returns false (short ▸ verdict_exact _))
  rw [if_neg outside]
  have missed : ∀ count, count ≤ 33 → Shaky allowed ∨ file.data.length < entry.position + count →
      Verdict allowed (entryMatches file.data seg.baseOffset entry) false := by
    rintro count small (shaky | short)
    · exact verdict_shaky shaky _
    · have past : entryMatches file.data seg.baseOffset entry = false := by
        simp [entryMatches, show ¬ entry.position + 33 ≤ file.data.length by omega]
      exact past ▸ verdict_exact _
  apply Meets.bind
  apply Meets.attempt
  refine meets_readAt_any found ?_
    (fun reason cause => Meets.pure (returns _ (missed 9 (by decide) cause))) dies
  intro inside
  dsimp only
  have magic : ((file.data.drop entry.position).take 9).take 4 =
      (file.data.drop entry.position).take 4 := by
    rw [List.take_take, Nat.min_eq_left (by decide)]
  rw [magic]
  by_cases other : (file.data.drop entry.position).take 4 ≠ magicBytes
  · have differs : entryMatches file.data seg.baseOffset entry = false := by
      simp [entryMatches, other]
    rw [if_pos other]
    exact Meets.pure (returns false (differs ▸ verdict_exact _))
  rw [if_neg other]
  by_cases short : file.data.length < entry.position + 33
  · rw [if_pos short]
    exact Meets.pure (returns false (missed 33 (by decide) (Or.inr short)))
  rw [if_neg short]
  apply Meets.bind
  apply Meets.attempt
  refine meets_readAt_any found ?_
    (fun reason cause => Meets.pure (returns _ (missed 33 (by decide) cause))) dies
  intro whole
  apply Meets.pure
  apply returns
  have base : (((file.data.drop entry.position).take 33).drop 13).take 8 =
      ((file.data.drop entry.position).drop 13).take 8 := by
    rw [List.drop_take, List.take_take, Nat.min_eq_left (by decide)]
  have test : entryMatches file.data seg.baseOffset entry =
      (get (((file.data.drop entry.position).drop 13).take 8) ==
        uint64 (seg.baseOffset + entry.relativeOffset)) := by
    simp [entryMatches, whole, not_not.mp other, beq_eq_decide]
  rw [base, ← test]
  exact verdict_exact _

/-- The entries are tested one by one; rising entries never fail the tests of their order. -/
theorem meets_validateEntries {entries : List IndexEntry} {last : Option IndexEntry}
    (found : d.file? seg.path = some file) (rising : entries.Pairwise IndexEntry.Before)
    (above : ∀ before ∈ last, ∀ entry ∈ entries, before.Before entry)
    (returns : ∀ kept, Verdict allowed (entries.all (entryMatches file.data seg.baseOffset)) kept →
      post.returns kept m d)
    (dies : Shaky allowed → post.dies d) :
    Meets allowed (validateEntries seg file.data.length last entries) m d post := by
  induction entries generalizing last with
  | nil => exact Meets.pure (returns true (verdict_exact true))
  | cons entry rest ih =>
    have ordered : (last.any fun last =>
        decide (entry.relativeOffset ≤ last.relativeOffset ∨ entry.position ≤ last.position)) =
        false := by
      cases last with
      | none => rfl
      | some before =>
        have less := above before rfl entry List.mem_cons_self
        unfold IndexEntry.Before at less
        simpa using less
    rw [validateEntries, ordered]
    simp only [Bool.false_eq_true, if_false]
    apply Meets.bind
    refine meets_validateEntry found ?_ dies
    intro kept verdict
    cases kept with
    | false =>
      simp only [Bool.false_eq_true, if_false]
      apply Meets.pure
      apply returns
      refine ⟨fun impossible => absurd impossible Bool.false_ne_true, fun steady => ?_⟩
      rw [List.all_cons, ← verdict.2 steady]
      rfl
    | true =>
      simp only [if_true]
      refine ih (List.pairwise_cons.mp rising).2 ?_ ?_
      · intro before member
        rw [Option.mem_some_iff] at member
        rw [← member]
        exact (List.pairwise_cons.mp rising).1
      · intro kept later
        apply returns
        rwa [List.all_cons, verdict.1 rfl, Bool.true_and]

theorem meets_validateIndexEntries {entries : List IndexEntry}
    (found : d.file? seg.path = some file) (rising : entries.Pairwise IndexEntry.Before)
    (returns : ∀ kept, Verdict allowed (indexAccepted file.data seg.baseOffset entries) kept →
      post.returns kept m d)
    (dies : Shaky allowed → post.dies d) :
    Meets allowed (validateIndexEntries seg entries file.data.length) m d post := by
  unfold validateIndexEntries indexAccepted at *
  cases entries with
  | nil => exact Meets.pure (returns _ (verdict_exact _))
  | cons first rest =>
    dsimp only at returns ⊢
    by_cases zero : first = ⟨0, 0⟩
    · rw [if_neg (by rw [zero]; simp)]
      refine meets_validateEntries found rising (by simp) ?_ dies
      intro kept verdict
      apply returns
      rwa [decide_eq_true zero, Bool.true_and]
    · have other : first.relativeOffset ≠ 0 ∨ first.position ≠ 0 := by
        rw [← not_and_or]
        rintro ⟨relative, position⟩
        cases first
        exact zero (by rw [IndexEntry.mk.injEq]; exact ⟨relative, position⟩)
      rw [if_pos other]
      apply Meets.pure
      apply returns
      rw [decide_eq_false zero, Bool.false_and]
      exact verdict_exact false

end Validation

section Reading

variable {μ : Type} {allowed : Fault → Prop} {m : μ} {d : Directory} {seg : Segment} {file : File}
  {post : Post μ Directory StoreError (List IndexEntry)}

theorem meets_readIndexEntries (found : d.file? seg.indexPath = some file)
    (size : seg.indexSize = file.data.length)
    (returns : ∀ entries, parseIndex file.data = .ok entries → post.returns entries m d)
    (fails : ∀ reason, (∀ entries, parseIndex file.data = .ok entries → Shaky allowed) →
      post.fails reason m d)
    (dies : Shaky allowed → post.dies d) :
    Meets allowed seg.readIndexEntries m d post := by
  unfold Segment.readIndexEntries
  unfold parseIndex at returns fails
  rw [size]
  split
  · rw [if_pos (by assumption)] at returns
    exact Meets.pure (returns [] rfl)
  rw [if_neg (by assumption)] at returns fails
  split
  · rw [if_pos (by assumption)] at fails
    exact Meets.throw (fails _ fun _ impossible => by cases impossible)
  rw [if_neg (by assumption)] at returns fails
  split
  · rw [if_pos (by assumption)] at fails
    exact Meets.throw (fails _ fun _ impossible => by cases impossible)
  rw [if_neg (by assumption)] at returns fails
  apply Meets.bind
  refine meets_readUpTo found rfl ?_ (fun shaky => fails _ fun _ _ => shaky) dies
  dsimp only
  cases parsed : readEntries file.data (file.data.length / 12) 0 0 0 with
  | error reason =>
    exact Meets.throw (fails _ fun _ impossible => by rw [parsed] at impossible; cases impossible)
  | ok entries => exact Meets.pure (returns entries parsed)

end Reading

/-! ## Rebuilding -/

section Rebuilding

variable {μ : Type} {allowed : Fault → Prop} {m : μ} {d : Directory} {seg : Segment} {file : File}
  {interval : Int}

/-- The rebuild writes an entry for the first batch and then one for each stretch of the log. -/
theorem meets_rebuildEntries {e : Extent} (done rest : List Batch) {state : RebuildState}
    {tmp : File} {post : Post μ Directory StoreError RebuildState} (valid : e.Valid)
    (base : seg.baseOffset = e.base) (split : e.batches = done ++ rest)
    (found : d.file? seg.path = some file) (content : file.data = e.bytes)
    (sound : Extent.Sound ⟨e.base, done⟩ state.indexEntries)
    (largest : ∀ b ∈ e.batches, max 0 b.time ≤ state.maxTimestamp)
    (temporary : d.file? (.indexTmp seg.baseOffset) = some tmp)
    (written : tmp.data = encodeEntries state.indexEntries)
    (returns : ∀ state' d' tmp',
      e.Sound state'.indexEntries → state'.maxTimestamp = state.maxTimestamp →
      d'.file? (.indexTmp seg.baseOffset) = some tmp' →
      tmp'.data = encodeEntries state'.indexEntries →
      SameBut (.indexTmp seg.baseOffset) d d' → post.returns state' m d')
    (fails : Shaky allowed →
      ∀ operation d', SameBut (.indexTmp seg.baseOffset) d d' → post.fails (.io operation) m d')
    (dies : Shaky allowed → ∀ d', SameBut (.indexTmp seg.baseOffset) d d' → post.dies d') :
    Meets allowed (rebuildEntries interval seg file.data.length (layout e.base done).length state) m
      d post := by
  induction rest generalizing done state d tmp with
  | nil =>
    rw [List.append_nil] at split
    have whole : file.data.length = (layout e.base done).length := by
      rw [content, Extent.bytes, split]
    rw [rebuildEntries, dif_neg (by omega)]
    refine Meets.pure (returns state d tmp ?_ rfl temporary written (SameBut.refl _ _))
    rwa [← split] at sound
  | cons b rest ih =>
    have here : b.Valid (e.base + span done) := by
      have all := valid.batches
      rw [split] at all
      exact all.middle
    have front := valid.front split
    have size := b.size_ge here
    have length := b.bytes_length here
    have relative := valid.relative done b rest split
    have occurs : Occurs file.data (layout e.base done).length (b.bytes (e.base + span done)) := by
      rw [content, Extent.bytes, split, layout, spread_append, spread]
      exact Occurs.middle _ _ _
    have inside := occurs.bound
    rw [length] at inside
    obtain ⟨batchLength, batchBase, batchTime⟩ := b.header_fields here.placed here.fits
    have next : (layout e.base done).length + (9 + (b.size - 9)) =
        (layout e.base (done ++ [b])).length := by
      rw [layout, spread_append, List.length_append, spread, spread, List.append_nil, length]
      omega
    have relativeOffset : uint64 ((e.base + span done : Nat) - seg.baseOffset) = span done := by
      rw [base, show ((e.base + span done : Nat) : Int) - e.base = (span done : Nat) by omega]
      exact uint64_of_nat (by unfold maxUint32 at relative; omega)
    have covered := largest b (by rw [split]; simp)
    have kept : (if state.maxTimestamp < max 0 b.time then max 0 b.time else state.maxTimestamp) =
        state.maxTimestamp := if_neg (by omega)
    rw [rebuildEntries, dif_pos (by omega)]
    apply Meets.bind
    refine meets_readAt found (by omega) ?_ (fun shaky => fails shaky _ d (SameBut.refl _ _))
      (fun shaky => dies shaky d (SameBut.refl _ _))
    rw [occurs.take_front (by omega)]
    simp only [batchLength, batchBase, batchTime, relativeOffset, next, kept]
    rw [if_neg (by omega)]
    by_cases index : state.indexEntries = [] ∨
      interval ≤ (layout e.base done).length - state.lastIndexedPosition
    · rw [if_pos index]
      apply Meets.bind
      refine meets_writeAt temporary ?_ (fun shaky _ _ => fails shaky _ _ sameBut_put)
        (fun shaky _ => dies shaky _ sameBut_put)
      refine ih _ (by rw [split]; simp) (by rw [file?_put_other (by simp [Segment.path]), found])
        (sound.push front.filled) largest file?_put_self ?_ ?_ ?_ ?_
      · have position : state.indexEntries.length * 12 = tmp.data.length := by
          rw [written, encodeEntries_length]
        rw [position, overwrite_end, written, encodeEntries_append]
        simp [encodeEntries]
      · exact fun state' d' tmp' sound' same found' written' others =>
          returns state' d' tmp' sound' same found' written' (sameBut_put.trans others)
      · exact fun shaky operation d' others => fails shaky operation d' (sameBut_put.trans others)
      · exact fun shaky d' others => dies shaky d' (sameBut_put.trans others)
    · rw [if_neg index]
      refine ih _ (by rw [split]; simp) found ?_ largest temporary written returns fails dies
      exact sound.skip fun empty => index (Or.inl empty)

structure IndexStep (e : Extent) (d d' : Directory) : Prop where
  log : d'.file? (.log e.base) = d.file? (.log e.base)
  index : ∀ file, d'.file? (.index e.base) = some file →
    d.file? (.index e.base) = some file ∨
      ∃ entries, e.Sound entries ∧ file.data = encodeEntries entries
  frame : Frame e.base d d'

theorem SameBut.indexStep {e : Extent} {d d' : Directory} {base : Nat}
    (same : SameBut (.indexTmp base) d d') :
    IndexStep e d d' :=
  ⟨same _ (by simp), fun file found => Or.inl (by rw [← same _ (by simp), found]),
    fun _ _ => ⟨same _ (by simp), same _ (by simp)⟩⟩

theorem meets_closeAndRemove {post : Post μ Directory StoreError Unit} {name : FileName}
    (returns : ∀ d', SameBut name d d' → post.returns () m d')
    (fails : ∀ reason, post.fails reason m d)
    (dies : Shaky allowed → ∀ d', SameBut name d d' → post.dies d') :
    Meets allowed (do Program.ignore (close name); remove name) m d post := by
  have removal : Meets allowed (remove name) m d post :=
    meets_remove_any (returns _ sameBut_erase) fails (fun shaky => dies shaky d (SameBut.refl _ _))
  apply Meets.bind
  apply Meets.ignore
  exact meets_close removal (fun _ => removal) (fun shaky => dies shaky d (SameBut.refl _ _))

theorem IndexStep.trans {e : Extent} {d d' d'' : Directory} (first : IndexStep e d d')
    (second : IndexStep e d' d'') :
    IndexStep e d d'' := by
  refine ⟨second.log.trans first.log, ?_, first.frame.trans second.frame⟩
  intro file found
  rcases second.index file found with earlier | precise
  · exact first.index file earlier
  · exact Or.inr precise

theorem meets_replaceIndex {e : Extent} {post : Post μ Directory StoreError Segment}
    {entries : List IndexEntry} (tmp : File) {replaced : Segment}
    (temporary : d.file? (.indexTmp e.base) = some tmp) (written : tmp.data = encodeEntries entries)
    (sound : e.Sound entries)
    (returns : ∀ d' index,
      d'.file? (.index e.base) = some index → index.data = encodeEntries entries →
      IndexStep e d d' → post.returns replaced m d')
    (fails : Shaky allowed → ∀ reason d', IndexStep e d d' → post.fails reason m d')
    (dies : Shaky allowed → ∀ d', IndexStep e d d' → post.dies d') :
    Meets allowed (do
      Program.ignore (close (.index e.base))
      Program.onError (rename (.indexTmp e.base) (.index e.base)) (remove (.indexTmp e.base))
      openExisting (.index e.base)
      syncDirectory
      pure replaced) m d post := by
  have same : IndexStep e d d := (SameBut.refl (.indexTmp e.base) d).indexStep
  have installation : Meets allowed (do
      Program.onError (rename (.indexTmp e.base) (.index e.base)) (remove (.indexTmp e.base))
      openExisting (.index e.base)
      syncDirectory
      pure replaced) m d post := by
    apply Meets.bind
    apply Meets.onError
    refine meets_rename temporary ?_ ?_ (fun shaky => dies shaky d same)
    · intro names
      have installed : IndexStep e d
          { (d.erase (.indexTmp e.base)).put (.index e.base) tmp with durableNames := names } := by
        refine ⟨by simp, ?_, ?_⟩
        · intro file found
          rw [file?_durable, file?_put_self, Option.some.injEq] at found
          exact Or.inr ⟨entries, sound, by rw [← found, written]⟩
        · intro other differs
          exact ⟨by simp, by simp [differs]⟩
      apply Meets.bind
      refine meets_openExisting (by rw [file?_durable, file?_put_self]) ?_
        (fun shaky => fails shaky _ _ installed) (fun shaky => dies shaky _ installed)
      apply Meets.bind
      refine meets_syncDirectory ?_ (fun shaky _ => fails shaky _ _ installed)
        (fun shaky => dies shaky _ installed)
      refine Meets.pure (returns _ tmp ?_ written ⟨installed.log, installed.index, installed.frame⟩)
      rw [file?_durable, file?_durable, file?_put_self]
    · intro shaky
      exact meets_remove_any (fails shaky _ _ sameBut_erase.indexStep)
        (fun _ => fails shaky _ _ same) (fun shaky => dies shaky _ same)
  apply Meets.bind
  apply Meets.ignore
  exact meets_close installation (fun _ => installation) (fun shaky => dies shaky d same)

/-- A rebuilt index is sound, and an interrupted rebuild leaves the old file or the new one. -/
theorem meets_rebuildIndex {e : Extent} {post : Post μ Directory StoreError Segment}
    (valid : e.Valid) (base : seg.baseOffset = e.base) (found : d.file? seg.path = some file)
    (content : file.data = e.bytes) (largest : ∀ b ∈ e.batches, max 0 b.time ≤ seg.maxTimestamp)
    (returns : ∀ entries last d' index, e.Sound entries → d'.file? (.index e.base) = some index →
      index.data = encodeEntries entries → IndexStep e d d' →
      post.returns { seg with
        indexEntries := entries, lastIndexedPosition := last, indexDirty := false,
        indexSize := entries.length * 12 } m d')
    (fails : Shaky allowed → ∀ reason d', IndexStep e d d' → post.fails reason m d')
    (dies : Shaky allowed → ∀ d', IndexStep e d d' → post.dies d') :
    Meets allowed (rebuildIndex interval seg file.data.length) m d post := by
  have failsTmp :
      Shaky allowed →
        ∀ reason d', SameBut (.indexTmp seg.baseOffset) d d' → post.fails reason m d' :=
    fun shaky reason d' same => fails shaky reason d' same.indexStep
  have diesTmp : Shaky allowed → ∀ d', SameBut (.indexTmp seg.baseOffset) d d' → post.dies d' :=
    fun shaky d' same => dies shaky d' same.indexStep
  unfold rebuildIndex
  apply Meets.bind
  refine meets_openTruncate ?_ (fun shaky => failsTmp shaky _ d (SameBut.refl _ _))
    (fun shaky => diesTmp shaky d (SameBut.refl _ _))
  intro synced
  apply Meets.bind
  apply Meets.onError
  refine meets_rebuildEntries [] e.batches valid base rfl
    (by rw [file?_put_other (by simp [Segment.path]), found]) content (Extent.sound_nil _ rfl)
    largest file?_put_self rfl ?_ ?_ ?_
  · intro state d' tmp sound same temporary written others
    have sameTmp : SameBut (.indexTmp seg.baseOffset) d d' := sameBut_put.trans others
    apply Meets.bind
    apply Meets.onError
    refine meets_sync temporary ?_ ?_ (fun shaky => diesTmp shaky d' sameTmp)
    · apply Meets.bind
      apply Meets.onError
      have syncedTmp : SameBut (.indexTmp seg.baseOffset) d
          (d'.put (.indexTmp seg.baseOffset) { tmp with synced := tmp.data }) :=
          sameTmp.trans sameBut_put
      refine meets_close ?_ ?_ (fun shaky => diesTmp shaky _ syncedTmp)
      · rw [base] at syncedTmp temporary ⊢
        have indexPath : seg.indexPath = .index e.base := by rw [Segment.indexPath, base]
        rw [indexPath]
        refine meets_replaceIndex { tmp with synced := tmp.data } file?_put_self written sound ?_ ?_
          ?_
        · intro d' index placed bytes step
          have whole := returns state.indexEntries state.lastIndexedPosition d' index sound placed
            bytes (syncedTmp.indexStep.trans step)
          rw [same, ← base]
          exact whole
        · exact fun shaky reason d' step => fails shaky reason d' (syncedTmp.indexStep.trans step)
        · exact fun shaky d' step => dies shaky d' (syncedTmp.indexStep.trans step)
      · intro shaky
        exact meets_remove_any (failsTmp shaky _ _ (syncedTmp.trans sameBut_erase))
          (fun _ => failsTmp shaky _ _ syncedTmp) (fun shaky => diesTmp shaky _ syncedTmp)
    · intro shaky
      exact meets_closeAndRemove (fun d' more => failsTmp shaky _ _ (sameTmp.trans more))
        (fun _ => failsTmp shaky _ _ sameTmp)
        (fun shaky d' more => diesTmp shaky _ (sameTmp.trans more))
  · intro shaky operation d' others
    have sameTmp : SameBut (.indexTmp seg.baseOffset) d d' := sameBut_put.trans others
    exact meets_closeAndRemove (fun d' more => failsTmp shaky _ _ (sameTmp.trans more))
      (fun _ => failsTmp shaky _ _ sameTmp)
      (fun shaky d' more => diesTmp shaky _ (sameTmp.trans more))
  · exact fun shaky d' others => diesTmp shaky d' (sameBut_put.trans others)

end Rebuilding

end MessageBroker.Storage
