import MessageBroker.Storage.Opening
import MessageBroker.Storage.Closing

namespace MessageBroker.Storage

open Faulty

/-- A directory that never got a record: the first segment's files are empty or missing, and there
    are no others. -/
def Blank (d : Directory) : Prop :=
  ∀ name file, d.file? name = some file → (name = .log 0 ∨ name = .index 0) ∧ file.data = []

section Blank

variable {d d' : Directory}

theorem blank_empty : Blank Directory.empty := fun _ _ found => by cases found

theorem Blank.erase (blank : Blank d) (name : FileName) : Blank (d.erase name) := by
  intro other file found
  by_cases same : other = name
  · rw [same, file?_erase_self] at found
    cases found
  · rw [file?_erase_other same] at found
    exact blank other file found

theorem Blank.flushed (blank : Blank d) (flushed : Flushed d d') : Blank d' := by
  intro name file found
  cases before : d.file? name with
  | none =>
    rw [flushed.missing name before] at found
    cases found
  | some file' =>
    obtain ⟨after, found', data, _⟩ := flushed.files name file' before
    rw [found', Option.some.injEq] at found
    rw [← found, data]
    exact blank name file' before

theorem Blank.touch {name : FileName} (blank : Blank d) (first : name = .log 0 ∨ name = .index 0) :
    Blank (d.touch name) := by
  intro other file found
  by_cases same : other = name
  · subst same
    obtain ⟨file', found', old | ⟨_, empty⟩⟩ := file?_touch_self d other
    · rw [found', Option.some.injEq] at found
      rw [← found]
      exact blank other file' old
    · rw [found', Option.some.injEq] at found
      rw [← found, empty]
      exact ⟨first, rfl⟩
  · rw [file?_touch_other same] at found
    exact blank other file found

theorem Blank.holds {P : Policy} (blank : Blank d) : Holds P Journal.initial d := by
  have noIndex : ∀ base, 0 < base → d.file? (.index base) = none := by
    intro base positive
    by_contra found
    obtain ⟨file, here⟩ := Option.ne_none_iff_exists'.mp found
    rcases (blank _ file here).1 with other | same
    · cases other
    · cases same
      omega
  have onlyFirst : ∀ base, d.file? (.log base) ≠ none → base = 0 := by
    intro base found
    obtain ⟨file, here⟩ := Option.ne_none_iff_exists'.mp found
    rcases (blank _ file here).1 with same | other
    · cases same
      rfl
    · cases other
  have valid := Journal.initial_valid
  cases here : d.file? (.log 0) with
  | some file =>
    have active : OnDisk P.index (P.tail Journal.initial.activeExtent) Journal.initial.activeExtent
        d := by
      refine ⟨⟨file, [], here, (blank _ file here).2, P.tail_nil _⟩, fun index found => ?_⟩
      rw [(blank _ index found).2]
      exact P.index_holds _ [] [] (valid.extents _ (List.mem_singleton_self _)) (indexHolds_nil _)
    exact Or.inl ⟨valid, fun _ nothing => absurd nothing List.not_mem_nil,
      fun _ nothing => absurd nothing List.not_mem_nil, active,
      fun base found => ⟨_, List.mem_singleton_self _, (onlyFirst base found).symm⟩, noIndex⟩
  | none =>
    refine Or.inr ⟨rfl, fun base => ⟨?_, fun file found => ?_⟩⟩
    · by_contra found
      rw [onlyFirst base found] at found
      exact found here
    · obtain ⟨other | same, empty⟩ := blank _ file found
      · cases other
      · cases same
        exact ⟨rfl, empty⟩

theorem present_touch (d : Directory) (name : FileName) : (d.touch name).present = d.present := by
  unfold Directory.touch
  split <;> rfl

theorem Blank.touched (blank : Blank d) (touched : Touched 0 d d') :
    Blank d' ∧ d'.present = d.present := by
  cases touched with
  | nothing => exact ⟨blank, rfl⟩
  | log => exact ⟨blank.touch (Or.inl rfl), present_touch _ _⟩
  | both =>
    exact ⟨(blank.touch (Or.inl rfl)).touch (Or.inr rfl), by rw [present_touch, present_touch]⟩

end Blank

/-! ## Opening -/

section Opening

variable {μ : Type} {allowed : Fault → Prop} {m : μ} {d : Directory}

theorem meets_removeNone {files : List FileName} {post : Post μ Directory StoreError Unit}
    (absent : ∀ base, FileName.indexTmp base ∉ files) (returns : post.returns () m d) :
    Meets allowed (removeTemps files) m d post := by
  induction files with
  | nil => exact Meets.pure returns
  | cons file rest ih =>
    cases file with
    | indexTmp base => exact absurd List.mem_cons_self (absent base)
    | log _ | index _ => exact ih fun base member => absent base (List.mem_cons_of_mem _ member)

theorem meets_recoverEmpty {config : Config} {seg : Segment} {active : Bool}
    {post : Post μ Directory StoreError (Segment × Nat)} (size : seg.size = 0)
    (index : seg.indexSize = 0) (returns : ∀ recovered, post.returns recovered m d) :
    Meets allowed (recoverSegment config seg active) m d post := by
  unfold recoverSegment
  apply Meets.bind
  rw [scanBatches, dif_neg (by omega)]
  refine Meets.pure ?_
  apply Meets.bind
  unfold recoverIndex
  apply Meets.bind
  apply Meets.attempt
  unfold Segment.readIndexEntries
  rw [if_pos index]
  refine Meets.pure ?_
  dsimp only
  apply Meets.bind
  refine Meets.pure ?_
  exact Meets.pure (Meets.pure (returns _))

theorem Blank.bases (blank : Blank d) :
    logBases d.files.keys = [] ∨ logBases d.files.keys = [0] := by
  rcases @Blank.holds d (quietPolicy 0) blank with laid | ⟨_, fresh⟩
  · exact Or.inr (logBases_named laid.valid.rising laid.named)
  · exact Or.inl (logBases_fresh fresh)

theorem Blank.meets_openStore {config : Config} {post : Post μ Directory StoreError Store}
    (blank : Blank d) (returns : ∀ s d', Blank d' → d'.present = true → post.returns s m d')
    (fails : Shaky allowed →
      ∀ reason d', Blank d' → (d.present = true → d'.present = true) → post.fails reason m d')
    (dies : Shaky allowed →
      ∀ d', Blank d' → (d.present = true → d'.present = true) → post.dies d') :
    Meets allowed (openStore config) m d post := by
  have made : Blank { d with present := true } := blank
  have noTemps : ∀ base, FileName.indexTmp base ∉ d.files.keys := by
    intro base member
    obtain ⟨file, found⟩ := Option.ne_none_iff_exists'.mp (mem_keys_iff.mp member)
    rcases (blank _ file found).1 with other | other <;> cases other
  have opened : ∀ inner : Post μ Directory StoreError Segment,
      (∀ seg d', seg.size = 0 →
        seg.indexSize = 0 → Blank d' → d'.present = true → inner.returns seg m d') →
      (Shaky allowed → ∀ reason d', Blank d' → d'.present = true → inner.fails reason m d') →
      (Shaky allowed → ∀ d', Blank d' → d'.present = true → inner.dies d') →
      Meets allowed (newSegment 0 true) m { d with present := true } inner := by
    intro inner returns' fails' dies'
    refine meets_newSegment ?_ (fun shaky operation d' touched => ?_) (fun shaky d' touched => ?_)
    · intro log index foundLog foundIndex
      obtain ⟨after, present⟩ := made.touched .both
      refine returns' _ _ ?_ ?_ after present
      · rw [openedSegment, (after _ log foundLog).2]
        rfl
      · rw [openedSegment, (after _ index foundIndex).2]
        rfl
    · obtain ⟨after, present⟩ := made.touched touched
      exact fails' shaky _ d' after present
    · obtain ⟨after, present⟩ := made.touched touched
      exact dies' shaky d' after present
  unfold openStore
  apply Meets.bind
  refine meets_mkdirAll ?_ (fun shaky => fails shaky _ d blank id)
    (fun shaky => dies shaky d blank id)
  apply Meets.bind
  refine meets_readDir ?_ (fun shaky => fails shaky _ _ made fun _ => rfl)
    (fun shaky => dies shaky _ made fun _ => rfl)
  apply Meets.bind
  refine meets_removeNone noTemps ?_
  dsimp only
  rcases blank.bases with nothing | first
  · rw [nothing]
    apply Meets.bind
    exact opened _ (fun seg d' _ _ after present => Meets.pure (returns _ d' after present))
      (fun shaky reason d' after present => fails shaky reason d' after fun _ => present)
      (fun shaky d' after present => dies shaky d' after fun _ => present)
  · rw [first]
    apply Meets.bind
    rw [loadSegments, if_neg (by simp)]
    apply Meets.bind
    apply Meets.onError
    refine opened _ ?_
      (fun shaky reason d' after present =>
        Meets.pure (fails shaky reason d' after fun _ => present))
      (fun shaky d' after present => dies shaky d' after fun _ => present)
    intro seg d' size index after present
    apply Meets.bind
    apply Meets.onError
    exact meets_recoverEmpty size index
      fun recovered => Meets.pure (Meets.pure (returns _ d' after present))

end Opening

end MessageBroker.Storage
