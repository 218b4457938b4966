import MessageBroker.Storage.IndexParse
import MessageBroker.Storage.SegmentRules

namespace MessageBroker.Storage

open Faulty BigEndian

/-! ## Directories a crash may leave and directories it may not -/

def IndexFile (e : Extent) (data : Bytes) : Prop := ∃ entries, IndexHolds e entries data

/-- A process may die at any point: a torn tail and a partly written index are possible. -/
def crashPolicy (limit : Int) : Policy where
  limit := limit
  tail := fun _ => Torn limit
  index := IndexFile
  tail_nil := fun _ => torn_nil limit
  tail_torn := fun _ _ torn => torn
  index_holds := fun _ entries _ _ holds => ⟨entries, holds⟩
  index_trusted := fun _ _ _ valid ⟨_, holds⟩ parsed accepted => holds.trusted valid parsed accepted

/-- Nothing fails and nobody dies: no tail is torn. -/
def quietPolicy (limit : Int) : Policy where
  limit := limit
  tail := fun _ left => left = []
  index := IndexFile
  tail_nil := fun _ => rfl
  tail_torn := fun _ _ nothing => by rw [nothing]; exact torn_nil limit
  index_holds := fun _ entries _ _ holds => ⟨entries, holds⟩
  index_trusted := fun _ _ _ valid ⟨_, holds⟩ parsed accepted => holds.trusted valid parsed accepted

/-! ## The active segment -/

section Active

variable {s : Store} {init : List Segment} {seg : Segment}

theorem Store.active_last (split : s.segments = init ++ [seg])
    (place : s.activeSegment = init.length) :
    s.active = seg := by
  simp [Store.active, split, place]

theorem Store.setActive_last (replacement : Segment) (split : s.segments = init ++ [seg])
    (place : s.activeSegment = init.length) :
    s.setActive replacement = { s with segments := init ++ [replacement] } := by
  simp [Store.setActive, split, place]

end Active

section Represents

variable {limit : Int} {J : Journal} {s : Store} {d d' : Directory}

theorem Journal.split_last {relation : Extent → Segment → Prop} {segments : List Segment}
    (related : List.Forall₂ relation J.extents segments) :
    ∃ init seg, segments = init ++ [seg] ∧ J.closed.length = init.length ∧
      List.Forall₂ relation J.closedExtents init ∧ relation J.activeExtent seg := by
  have front := List.forall₂_take J.closedExtents.length related
  have back := List.forall₂_drop J.closedExtents.length related
  rw [Journal.extents, List.take_left] at front
  rw [Journal.extents, List.drop_left] at back
  obtain ⟨seg, rest, active, nothing, last⟩ := List.forall₂_cons_left_iff.mp back
  rw [List.forall₂_nil_left_iff.mp nothing] at last
  refine ⟨_, seg, ?_, ?_, front, active⟩
  · rw [← last, List.take_append_drop]
  · rw [← front.length_eq, Journal.closedExtents, extentsFrom_length]

theorem Represents.split (represents : Represents limit J s d) :
    ∃ init seg, s.segments = init ++ [seg] ∧ s.activeSegment = init.length ∧
      List.Forall₂ (fun e seg => Mirrors e seg d) J.closedExtents init ∧
        Mirrors J.activeExtent seg d := by
  rw [represents.activeSegment]
  exact J.split_last represents.segments

theorem Represents.join {init : List Segment} {seg : Segment} (valid : J.Valid)
    (small : ∀ b ∈ J.batches, (b.size : Int) ≤ limit) (segments : s.segments = init ++ [seg])
    (place : s.activeSegment = init.length)
    (closed : List.Forall₂ (fun e seg => Mirrors e seg d) J.closedExtents init)
    (active : Mirrors J.activeExtent seg d) (logEnd : s.logEndOffset = J.logEnd)
    (earliest : s.earliestOffset = J.floor)
    (only : ∀ base, d.file? (.log base) ≠ none → ∃ e ∈ J.extents, e.base = base)
    (above : ∀ base, J.activeBase < base → d.file? (.index base) = none) :
    Represents limit J s d := by
  refine ⟨valid, small, ?_, ?_, logEnd, earliest, only, above⟩
  · rw [segments]
    exact List.rel_append closed (.cons active .nil)
  · rw [place, ← closed.length_eq, Journal.closedExtents, extentsFrom_length]

theorem mirrors_all {extents : List Extent} {segments : List Segment}
    (mirrors : List.Forall₂ (fun e seg => Mirrors e seg d) extents segments)
    (change : ∀ e ∈ extents, ∀ seg, Mirrors e seg d → Mirrors e seg d') :
    List.Forall₂ (fun e seg => Mirrors e seg d') extents segments := by
  induction mirrors with
  | nil => exact .nil
  | cons head _ ih =>
    exact .cons (change _ List.mem_cons_self _ head)
      (ih fun e member => change e (List.mem_cons_of_mem _ member))

theorem mem_mirrored {extents : List Extent} {segments : List Segment}
    (mirrors : List.Forall₂ (fun e seg => Mirrors e seg d) extents segments) {e : Extent}
    (member : e ∈ extents) :
    ∃ seg ∈ segments, Mirrors e seg d := by
  induction mirrors with
  | nil => cases member
  | cons head _ ih =>
    rcases List.mem_cons.mp member with rfl | member
    · exact ⟨_, List.mem_cons_self, head⟩
    · obtain ⟨seg, present, mirrors⟩ := ih member
      exact ⟨seg, List.mem_cons_of_mem _ present, mirrors⟩

/-- An open store's directory holds its journal, without a torn tail. -/
theorem Represents.laid {P : Policy} (represents : Represents limit J s d) (le : limit ≤ P.limit) :
    Laid P J d := by
  have onDisk : ∀ e ∈ J.extents, ∀ tail : Bytes → Prop, tail [] → OnDisk P.index tail e d := by
    intro e member tail nothing
    obtain ⟨seg, _, mirrors⟩ := mem_mirrored represents.segments member
    exact mirrors.onDisk (represents.valid.extents e member) nothing
  refine ⟨represents.valid, ?_, ?_, onDisk _ J.active_mem _ (P.tail_nil _), represents.only,
    represents.above⟩
  · intro b member
    have small := represents.limit b member
    omega
  · exact fun e member => onDisk e (List.mem_append_left _ member) _ rfl

theorem Represents.sameSegments (represents : Represents limit J s d) (same : SameSegments d d') :
    Represents limit J s d' := by
  refine { represents with
    segments := mirrors_all represents.segments fun _ _ _ mirrors => mirrors.sameSegments same
    only := fun base found => represents.only base (mt (none_of_same (same base).1).mpr found)
    above := fun base beyond => (none_of_same (same base).2).mpr (represents.above base beyond) }

end Represents

/-! ## Writing to a segment -/

section Writing

variable {μ : Type} {allowed : Fault → Prop} {m : μ} {d : Directory} {seg : Segment} {e : Extent}

theorem meets_segmentAppend {file : File} {data : Bytes}
    {post : Post μ Directory StoreError (Segment × Nat)} (found : d.file? seg.path = some file)
    (size : seg.size = file.data.length)
    (returns : post.returns ({ seg with size := seg.size + data.length }, seg.size) m
      (d.put seg.path { file with data := file.data ++ data }))
    (fails : Shaky allowed → ∀ written, written ≤ data.length - 1 → post.fails (.io .writeAt) m
      (d.put seg.path { file with data := file.data ++ data.take written }))
    (dies : Shaky allowed →
      ∀ written, post.dies (d.put seg.path { file with data := file.data ++ data.take written })) :
    Meets allowed (seg.append data) m d post := by
  apply Meets.bind
  rw [size] at returns ⊢
  refine meets_writeAt found ?_ ?_ ?_
  · rw [overwrite_end]
    exact Meets.pure returns
  · intro shaky written short
    rw [overwrite_end]
    exact fails shaky written short
  · intro shaky written
    rw [overwrite_end]
    exact dies shaky written

/-- Writing an entry over what an earlier interrupted write left keeps the index file in shape. -/
theorem IndexHolds.write {entries : List IndexEntry} {data : Bytes} {entry : IndexEntry}
    (holds : IndexHolds e entries data) (boundary : e.Boundary entry) (written : Nat) :
    IndexHolds e (if 12 ≤ written then entries ++ [entry] else entries)
      (overwrite data (entries.length * 12) (entry.encode.take written)) := by
  obtain ⟨junk, rfl, short, known⟩ := holds
  have position : entries.length * 12 = (encodeEntries entries).length := by
    rw [encodeEntries_length]
  have content :
      overwrite (encodeEntries entries ++ junk) (entries.length * 12) (entry.encode.take written) =
      encodeEntries entries ++ (entry.encode.take written ++ junk.drop (min written 12)) := by
    rw [overwrite_inside (by rw [position, List.length_append]; omega), position, List.take_left,
      List.append_assoc, List.length_take, IndexEntry.encode_length, ← List.drop_drop,
      List.drop_left]
  rw [content]
  by_cases whole : 12 ≤ written
  · rw [if_pos whole]
    refine ⟨[], ?_, by decide, ?_⟩
    · rw [encodeEntries_append, List.append_nil, List.take_of_length_le (by simpa using whole),
        List.drop_eq_nil_of_le (by omega)]
      simp [encodeEntries]
    · intro other member
      rcases List.mem_append.mp member with member | member
      · exact known other member
      · rw [List.mem_singleton.mp member]
        exact boundary
  · rw [if_neg whole]
    refine ⟨_, rfl, ?_, known⟩
    rw [List.length_append, List.length_take, List.length_drop, IndexEntry.encode_length]
    omega

theorem meets_appendIndexEntry {index : File} {entries : List IndexEntry} {entry : IndexEntry}
    {post : Post μ Directory StoreError Segment} (found : d.file? seg.indexPath = some index)
    (holds : IndexHolds e entries index.data) (size : seg.indexSize = entries.length * 12)
    (boundary : e.Boundary entry)
    (returns : ∀ indexSize index' entries',
      IndexHolds e entries' index'.data → indexSize = entries'.length * 12 →
      post.returns { seg with
        indexEntries := seg.indexEntries ++ [entry]
        lastIndexedPosition := entry.position
        indexDirty := true
        indexSize := indexSize } m (d.put seg.indexPath index'))
    (dies : Shaky allowed →
      ∀ index', IndexFile e index'.data → post.dies (d.put seg.indexPath index')) :
    Meets allowed (seg.appendIndexEntry entry) m d post := by
  have complete : entry.encode.take 12 = entry.encode := List.take_of_length_le (by simp)
  unfold Segment.appendIndexEntry
  apply Meets.bind
  apply Meets.attempt
  refine meets_writeAt found ?_ ?_ ?_
  · have after := holds.write boundary 12
    rw [complete, ← size] at after
    refine Meets.pure (returns (seg.indexSize + 12) _ _ after ?_)
    rw [if_pos (le_refl 12), List.length_append, size, List.length_singleton]
    omega
  · intro _ written short
    have after := holds.write boundary written
    rw [IndexEntry.encode_length] at short
    rw [if_neg (by omega), ← size] at after
    exact Meets.pure (returns seg.indexSize _ _ after size)
  · intro shaky written
    have after := holds.write boundary written
    rw [← size] at after
    exact dies shaky _ ⟨_, after⟩

/-- The directory after some of its files were flushed: a flush changes what a power loss would
    leave, and nothing else. -/
structure Flushed (d d' : Directory) : Prop where
  present : d'.present = d.present
  names : d'.durableNames = d.durableNames
  missing : ∀ name, d.file? name = none → d'.file? name = none
  files : ∀ name file, d.file? name = some file →
    ∃ file', d'.file? name = some file' ∧ file'.data = file.data ∧
      (file'.synced = file.synced ∨ file'.synced = file.data)

theorem Flushed.refl (d : Directory) : Flushed d d :=
  ⟨rfl, rfl, fun _ nothing => nothing, fun _ file found => ⟨file, found, rfl, Or.inl rfl⟩⟩

theorem Flushed.trans {d d' d'' : Directory} (first : Flushed d d') (second : Flushed d' d'') :
    Flushed d d'' := by
  refine ⟨second.present.trans first.present, second.names.trans first.names,
    fun name nothing => second.missing name (first.missing name nothing), ?_⟩
  intro name file found
  obtain ⟨file', found', data', synced'⟩ := first.files name file found
  obtain ⟨file'', found'', data'', synced''⟩ := second.files name file' found'
  refine ⟨file'', found'', data''.trans data', ?_⟩
  rcases synced'' with same | whole
  · rw [same]
    exact synced'
  · exact Or.inr (whole.trans data')

theorem Flushed.sameData {d d' : Directory} (flushed : Flushed d d') (name : FileName) :
    (d'.file? name).map File.data = (d.file? name).map File.data := by
  cases found : d.file? name with
  | none => rw [flushed.missing name found]
  | some file =>
    obtain ⟨file', found', data, _⟩ := flushed.files name file found
    rw [found', Option.map_some, Option.map_some, data]

theorem Flushed.sameSegments {d d' : Directory} (flushed : Flushed d d') : SameSegments d d' :=
  fun _ => ⟨flushed.sameData _, flushed.sameData _⟩

theorem flushed_put {name : FileName} {file : File} (found : d.file? name = some file) :
    Flushed d (d.put name { file with synced := file.data }) := by
  refine ⟨rfl, rfl, ?_, ?_⟩
  · intro other nothing
    by_cases same : other = name
    · rw [same, found] at nothing
      cases nothing
    · rw [file?_put_other same, nothing]
  · intro other file' found'
    by_cases same : other = name
    · rw [same, found, Option.some.injEq] at found'
      subst found'
      exact ⟨{ file with synced := file.data }, by rw [same, file?_put_self], rfl, Or.inr rfl⟩
    · exact ⟨file', by rw [file?_put_other same, found'], rfl, Or.inl rfl⟩

theorem meets_sync_any {name : FileName} {post : Post μ Directory StoreError Unit}
    (returns : ∀ file,
      d.file? name = some file → post.returns () m (d.put name { file with synced := file.data }))
    (fails : ∀ reason, Shaky allowed ∧ reason = .io .sync ∨ d.file? name = none →
      post.fails reason m d)
    (dies : Shaky allowed → post.dies d) : Meets allowed (sync name) m d post := by
  refine meets_unitary ?_ (fun shaky => fails _ (Or.inl ⟨shaky, rfl⟩)) dies
  cases found : d.file? name with
  | none => exact fails _ (Or.inr found)
  | some file => exact returns file found

theorem meets_segmentFlush {post : Post μ Directory StoreError Segment}
    (returns : ∀ dirty d', Flushed d d' →
      (∃ log, d'.file? seg.path = some log ∧ log.synced = log.data) →
        post.returns { seg with indexDirty := dirty } m d')
    (fails : ∀ reason d',
      Shaky allowed ∧ reason = .io .sync ∨ d.file? seg.path = none ∨ d.file? seg.indexPath = none →
      Flushed d d' → post.fails reason m d')
    (dies : Shaky allowed → ∀ d', Flushed d d' → post.dies d') :
    Meets allowed seg.flush m d post := by
  unfold Segment.flush
  apply Meets.bind
  refine meets_sync_any ?_
    (fun reason cause => fails reason d (cause.imp id Or.inl) (Flushed.refl d))
    (fun shaky => dies shaky d (Flushed.refl d))
  intro log found
  have first := flushed_put found
  unfold Segment.flushIndex
  split
  · apply Meets.bind
    refine meets_sync_any ?_ ?_ (fun shaky => dies shaky _ first)
    · intro index found'
      refine Meets.pure
        (returns false _ (first.trans (flushed_put found')) ⟨{ log with synced := log.data }, ?_,
          rfl⟩)
      rw [file?_put_other (by simp [Segment.path, Segment.indexPath]), file?_put_self]
    · intro reason cause
      refine fails reason _ (cause.imp id fun nothing => Or.inr ?_) first
      rwa [file?_put_other (by simp [Segment.path, Segment.indexPath])] at nothing
  · exact Meets.pure (returns seg.indexDirty _ first ⟨_, file?_put_self, rfl⟩)

end Writing

end MessageBroker.Storage
