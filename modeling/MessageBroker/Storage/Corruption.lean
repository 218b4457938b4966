import MessageBroker.Storage.Changed
import MessageBroker.Storage.Refinement

namespace MessageBroker.Storage

open Faulty BigEndian Runs

/-! ## Index files of logs that were longer -/

def StaleIndex (e : Extent) (data : Bytes) : Prop :=
  ∃ lost, (⟨e.base, e.batches ++ lost⟩ : Extent).Valid ∧ IndexFile ⟨e.base, e.batches ++ lost⟩ data

theorem Extent.Boundary.shorten {e : Extent} {lost : List Batch} {entry : IndexEntry}
    (boundary : (⟨e.base, e.batches ++ lost⟩ : Extent).Boundary entry)
    (inside : entry.position < e.bytes.length) :
    e.Boundary entry := by
  obtain ⟨before, b, after, split, rfl⟩ := boundary
  have beyond : ∀ more, before ≠ e.batches ++ more := by
    rintro more rfl
    rw [Extent.bytes, layout, spread_append, List.length_append] at inside
    dsimp only at inside
    omega
  rcases List.append_eq_append_iff.mp split with ⟨more, same, _⟩ | ⟨rest, same, tail⟩
  · exact absurd same (beyond more)
  · cases rest with
    | nil => exact absurd (by rw [same]; simp) (beyond [])
    | cons next rest =>
      obtain ⟨rfl, _⟩ := List.cons.inj tail
      exact ⟨before, b, rest, same, rfl⟩

theorem entryMatches_inside {log : Bytes} {base : Nat} {entries : List IndexEntry}
    (accepted : indexAccepted log base entries = true) {entry : IndexEntry}
    (member : entry ∈ entries) :
    entry.position < log.length := by
  cases entries with
  | nil => cases member
  | cons first rest =>
    simp only [indexAccepted, Bool.and_eq_true, List.all_eq_true] at accepted
    have matched := accepted.2 entry member
    simp only [entryMatches, Bool.and_eq_true, decide_eq_true_eq] at matched
    omega

/-- Recovery drops index entries of lost batches. -/
def stalePolicy (limit : Int) : Policy where
  limit := limit
  tail := fun _ => Torn limit
  index := StaleIndex
  tail_nil := fun _ => torn_nil limit
  tail_torn := fun _ _ torn => torn
  index_holds := fun e entries data valid holds =>
    ⟨[], by simpa using valid, entries, by simpa using holds⟩
  index_trusted := by
    rintro e data entries valid ⟨lost, longer, known, holds⟩ parsed accepted
    obtain ⟨first, rising, boundary⟩ := holds.parsed longer parsed
    refine ⟨accepted_covers valid accepted, first, rising, ?_⟩
    exact fun entry member => (boundary entry member).shorten (entryMatches_inside accepted member)

/-! ## Opening a log with a changed byte -/

theorem layout_position {base position : Nat} {batches : List Batch}
    (valid : ValidFrom base batches) (inside : position < (layout base batches).length) :
    ∃ before b after i,
      batches = before ++ b :: after ∧ i < b.size ∧ position = (layout base before).length + i := by
  induction batches generalizing base position with
  | nil => cases inside
  | cons b batches ih =>
    have length := b.bytes_length valid.1
    by_cases here : position < b.size
    · exact ⟨[], b, batches, position, rfl, here, by simp [layout, spread]⟩
    · rw [layout, spread, List.length_append, length] at inside
      obtain ⟨before, found, after, i, rfl, small, place⟩ :=
        ih valid.2 (show position - b.size < _ by unfold layout; omega)
      refine ⟨b :: before, found, after, i, rfl, small, ?_⟩
      rw [layout, spread, List.length_append, length]
      rw [layout] at place
      omega

theorem changed_split {base i : Nat} {value : UInt8} {before after : List Batch} {b : Batch}
    (valid : ValidFrom base (before ++ b :: after)) (inside : i < b.size) :
    (layout base (before ++ b :: after)).set ((layout base before).length + i) value =
      layout base before ++ changedTail b (base + span before) i value
        (layout (base + span before + b.records.length) after) := by
  have length := b.bytes_length valid.middle
  rw [layout, spread_append, List.set_append_right _ _ (Nat.le_add_right _ _),
    Nat.add_sub_cancel_left, spread, List.set_append_left _ _ (by omega)]
  rfl

theorem layout_entry {base i : Nat} {before after : List Batch} {b : Batch}
    (valid : ValidFrom base (before ++ b :: after)) (inside : i < b.size) :
    (layout base (before ++ b :: after))[(layout base before).length + i]? =
      (b.bytes (base + span before))[i]? := by
  have length := b.bytes_length valid.middle
  rw [layout, spread_append, List.getElem?_append_right (Nat.le_add_right _ _),
    Nat.add_sub_cancel_left, spread, List.getElem?_append_left (by omega)]

section Wrong

variable {J : Journal} {config : Config} {before : List Batch} {tail : Bytes}

/-- The journal's closed segments, and a log of the active one that goes wrong behind some
    batches. -/
structure WrongFrom (J : Journal) (before : List Batch) (tail : Bytes) (d : Directory) : Prop where
  closed : ∀ e ∈ J.closedExtents, OnDisk IndexFile (· = []) e d
  active : ∃ file, d.file? (.log J.activeBase) = some file ∧
    file.data = layout J.activeBase before ++ tail

theorem WrongFrom.sameSegments {d d' : Directory} (wrong : WrongFrom J before tail d)
    (same : SameSegments d d') :
    WrongFrom J before tail d' := by
  refine ⟨fun e member => (wrong.closed e member).sameSegments same, ?_⟩
  obtain ⟨file, found, content⟩ := wrong.active
  obtain ⟨file', found', data⟩ := found_of_same (same J.activeBase).1 found
  exact ⟨file', found', by rw [data, content]⟩

theorem WrongFrom.change {e : Extent} {d d' : Directory} (valid : J.Valid)
    (member : e ∈ J.closedExtents) (wrong : WrongFrom J before tail d)
    (onDisk : OnDisk IndexFile (· = []) e d') (frame : Frame e.base d d') :
    WrongFrom J before tail d' := by
  refine ⟨?_, ?_⟩
  · intro other present
    by_cases same : other.base = e.base
    · rw [valid.same (List.mem_append_left _ present) (List.mem_append_left _ member) same]
      exact onDisk
    · exact (wrong.closed other present).frame frame same
  · rw [(frame J.activeBase (Nat.ne_of_gt (valid.closed_lt member))).1]
    exact wrong.active

/-- Recovery decodes the batch before it comes to the active segment's batches behind `before`. -/
def Earlier (J : Journal) (before : List Batch) (b : Batch) : Prop :=
  b ∈ before ∨ ∃ e ∈ J.closedExtents, b ∈ e.batches

/-- Opening such a directory fails, or dies where the round behind the batches does. -/
theorem meets_openWrong {d : Directory} {round : Round} (valid : J.Valid) (named : Named J d)
    (front : ValidFrom J.activeBase before)
    (limit : ∀ b, Earlier J before b → (b.size : Int) ≤ config.maxBatchBytes)
    (wrong : WrongFrom J before tail d)
    (here : scanRound config.maxBatchBytes (layout J.activeBase before ++ tail)
      (layout J.activeBase before).length (J.activeBase + span before) = round)
    (ends : (∀ b, Earlier J before b → b.Readable) →
      (∃ reason, round = .rejected reason) ∨ round = .panicked) :
    Meets never (openStore config) () d
      ⟨fun _ _ _ => False,
       fun _ _ _ => (∃ b, Earlier J before b ∧ ¬ b.Readable) ∨ round ≠ .panicked,
       fun _ => (∀ b, Earlier J before b → b.Readable) ∧ round = .panicked⟩ := by
  have healthy : ¬ Shaky never := not_shaky_never
  refine meets_openSegments valid.rising named ?_ (fun shaky => absurd shaky healthy)
    (fun shaky => absurd shaky healthy)
  intro d' same
  rw [show J.extents.map Extent.base = J.closedExtents.map Extent.base ++ [J.activeBase] by
    rw [Journal.extents, List.map_append]; rfl]
  refine meets_loadClosed (P := quietPolicy config.maxBatchBytes) (WrongFrom J before tail)
    [] J.closed valid (fun e member b inside => limit b (Or.inr ⟨e, member, inside⟩))
    (wrong.sameSegments same) (fun _ kept => kept.closed)
    (fun _ member _ _ kept => kept.change valid member) rfl .nil (by simp [extentsFrom]) ?_ ?_
    (fun shaky => absurd shaky healthy)
  · intro readableClosed segments d' kept _
    obtain ⟨file, found, content⟩ := kept.active
    have untouched : d'.touch (.log J.activeBase) = d' := touch_found found
    rw [loadSegments, if_neg (by simp)]
    apply Meets.bind
    apply Meets.onError
    refine meets_newSegment ?_ (fun shaky => absurd shaky healthy)
      (fun shaky => absurd shaky healthy)
    intro log index foundLog _
    have same : file = log := by
      rw [untouched, file?_touch_other (by simp), found, Option.some.injEq] at foundLog
      exact foundLog
    subst same
    apply Meets.bind
    apply Meets.onError
    unfold recoverSegment
    apply Meets.bind
    refine meets_scan_through before [] tail foundLog rfl (by rw [content]; rfl) front
      (fun b member => limit b (Or.inl member)) ?_ ?_ (fun shaky => absurd shaky healthy)
      (fun shaky => absurd shaky healthy)
    · intro readableBefore
      have readable : ∀ b, Earlier J before b → b.Readable := by
        rintro b (member | ⟨e, member, inside⟩)
        · exact readableBefore b member
        · exact readableClosed e member b inside
      rw [List.nil_append]
      refine meets_scan_round foundLog rfl
        (by rw [content, List.length_append]; exact Nat.le_add_right _ _) ?_
        (fun shaky => absurd shaky healthy) (fun shaky => absurd shaky healthy)
      rw [content]
      simp only [openedSegment, here]
      rcases ends readable with ⟨reason, rfl⟩ | rfl
      · exact meets_closeAllOpenSegments (Or.inr (by simp)) (fun shaky => absurd shaky healthy)
      · exact ⟨readable, rfl⟩
    · rintro ⟨b, member, bad⟩
      exact meets_closeAllOpenSegments (Or.inl ⟨b, Or.inl member, bad⟩)
        (fun shaky => absurd shaky healthy)
  · rintro (shaky | ⟨e, member, b, inside, bad⟩)
    · exact absurd shaky healthy
    · exact fun _ _ _ => Or.inl ⟨b, Or.inr ⟨e, member, inside⟩, bad⟩

end Wrong

/-! ## Reported and hidden changes -/

def Directory.change (d : Directory) (name : FileName) (position : Nat) (value : UInt8) :
    Directory :=
  match d.file? name with
  | none => d
  | some file => d.put name { file with data := file.data.set position value }

/-- The process that opened the partition was given an error or the journal's log. -/
def Reported (J : Journal) (reopened : Outcome × Partition) : Prop :=
  (∃ reason, reopened.1 = .failed reason) ∨
    reopened.1 = .opened ∧
    ∃ s, reopened.2.store = some s ∧ s.logEndOffset = J.logEnd ∧ s.earliestOffset = J.floor ∧
      ∀ offset maxBytes, J.floor ≤ offset → offset ≤ J.logEnd → 0 < maxBytes →
        (reopened.2.perform ⟨.read offset maxBytes, []⟩).1 =
          .found (greedy maxBytes (J.records.drop (offset - J.floor)))

theorem Reported.logEnd {J : Journal} {reopened : Outcome × Partition}
    (reported : Reported J reopened) (opened : reopened.1 = .opened) :
    reopened.2.store.map Store.logEndOffset = some J.logEnd := by
  rcases reported with ⟨_, failed⟩ | ⟨_, s, isOpen, logEnd, _⟩
  · rw [opened] at failed
    cases failed
  · rw [isOpen, Option.map_some, logEnd]

/-- The byte is one of a batch's length field, recovery gets as far as that batch, and what the
    field now says leads it past the end of the log or the decoder past the end of the batch. -/
def Hidden (limit : Int) (J : Journal) (position : Nat) (value : UInt8) : Prop :=
  ∃ before b after i,
    J.active = before ++ b :: after ∧ position = (layout J.activeBase before).length + i ∧
    5 ≤ i ∧ i < 9 ∧ (∀ earlier, Earlier J before earlier → earlier.Readable) ∧
    Escapes limit (changedTail b (J.activeBase + span before) i value
      (layout (J.activeBase + span before + b.records.length) after))

section Change

variable {J : Journal} {d : Directory} {config : Config} {value : UInt8} {before after : List Batch}
  {b : Batch} {i : Nat}

theorem change_found {name : FileName} {file : File} {position : Nat}
    (found : d.file? name = some file) :
    d.change name position value =
      d.put name { file with data := file.data.set position value } := by
  rw [Directory.change, found]

theorem Laid.wrongFrom (value : UInt8) (laid : Laid (quietPolicy config.maxBatchBytes) J d)
    (split : J.active = before ++ b :: after) (inside : i < b.size) :
    WrongFrom J before
      (changedTail b (J.activeBase + span before) i value
        (layout (J.activeBase + span before + b.records.length) after))
      (d.change (.log J.activeBase) ((layout J.activeBase before).length + i) value) := by
  obtain ⟨file, left, found, content, rfl⟩ := laid.active.log
  have valid := (laid.valid.extents _ J.active_mem).batches
  rw [show J.activeExtent.batches = _ from split] at valid
  rw [change_found (show d.file? (.log J.activeBase) = some file from found)]
  refine ⟨?_, ⟨_, file?_put_self, ?_⟩⟩
  · intro e member
    have frame : Frame J.activeBase d (d.put (.log J.activeBase)
        { file with data := file.data.set ((layout J.activeBase before).length + i) value }) :=
      fun other differs => ⟨file?_put_other (by simpa using differs), file?_put_other (by simp)⟩
    exact (laid.closed e member).frame frame (Nat.ne_of_lt (laid.valid.closed_lt member))
  · dsimp only
    rw [content, List.append_nil, Extent.bytes, show J.activeExtent.batches = _ from split]
    exact changed_split valid inside

theorem Laid.named_change {P : Policy} {position : Nat} (laid : Laid P J d) :
    Named J (d.change (.log J.activeBase) position value) := by
  obtain ⟨file, left, found, _, _⟩ := laid.active.log
  intro base
  rw [change_found (show d.file? (.log J.activeBase) = some file from found)]
  by_cases same : base = J.activeBase
  · rw [same, file?_put_self]
    exact iff_of_true (by simp) ⟨_, J.active_mem, rfl⟩
  · rw [file?_put_other (by simpa using same)]
    exact laid.named base

theorem Journal.Valid.shorten (valid : J.Valid) (split : J.active = before ++ after) :
    (⟨J.floor, J.closed, before⟩ : Journal).Valid := by
  refine ⟨?_, valid.closed⟩
  intro e member
  rcases List.mem_append.mp member with member | member
  · exact valid.extents e (List.mem_append_left _ member)
  · rw [List.mem_singleton.mp member]
    exact (valid.extents _ J.active_mem).front split

/-- To recovery a torn change is the journal without the changed batch and those behind it. -/
theorem Laid.torn_change (laid : Laid (quietPolicy config.maxBatchBytes) J d)
    (split : J.active = before ++ b :: after) (inside : i < b.size)
    (torn : Torn config.maxBatchBytes (changedTail b (J.activeBase + span before) i value
      (layout (J.activeBase + span before + b.records.length) after))) :
    Laid (stalePolicy config.maxBatchBytes) ⟨J.floor, J.closed, before⟩
      (d.change (.log J.activeBase) ((layout J.activeBase before).length + i) value) := by
  have wrong := laid.wrongFrom value split inside
  obtain ⟨file, _, found, _, _⟩ := laid.active.log
  have stale : ∀ e : Extent, e.Valid → ∀ data, IndexFile e data → StaleIndex e data := by
    intro e valid data index
    exact ⟨[], by simpa using valid, by simpa using index⟩
  have active := laid.valid.extents _ J.active_mem
  refine ⟨laid.valid.shorten split, ?_, ?_, ?_, ?_, ?_⟩
  · intro other member
    refine laid.limit other ?_
    rcases List.mem_append.mp member with member | member
    · exact List.mem_append_left _ member
    · exact List.mem_append_right _ (by rw [split]; exact List.mem_append_left _ member)
  · intro e member
    exact ⟨(wrong.closed e member).log, fun index placed =>
      stale e (laid.valid.extents e (List.mem_append_left _ member)) _
        ((wrong.closed e member).index index placed)⟩
  · obtain ⟨file', found', content⟩ := wrong.active
    refine ⟨⟨file', _, found', content, torn⟩, ?_⟩
    intro index placed
    rw [change_found (show d.file? (.log J.activeBase) = some file from found)] at placed
    have old := laid.active.index index (by rw [← placed]; exact (file?_put_other (by simp)).symm)
    have whole : J.activeExtent = ⟨J.activeBase, before ++ b :: after⟩ := by
      rw [Journal.activeExtent, split]
    rw [whole] at active old
    exact ⟨b :: after, active, old⟩
  · intro base present
    obtain ⟨e, member, base⟩ := (laid.named_change base).mp present
    rcases List.mem_append.mp member with member | member
    · exact ⟨e, List.mem_append_left _ member, base⟩
    · rw [List.mem_singleton.mp member] at base
      exact ⟨_, Journal.active_mem _, base⟩
  · intro base above
    rw [change_found (show d.file? (.log J.activeBase) = some file from found),
      file?_put_other (by simp)]
    exact laid.above base above

theorem Laid.earlier_small {P : Policy} (laid : Laid P J d)
    (split : J.active = before ++ b :: after) {other : Batch}
    (earlier : Earlier J before other) : (other.size : Int) ≤ P.limit := by
  refine laid.limit other ?_
  rcases earlier with member | ⟨e, member, inside⟩
  · exact List.mem_append_right _ (by rw [split]; exact List.mem_append_left _ member)
  · exact J.mem_batches (List.mem_append_left _ member) inside

theorem Laid.torn_unreported (laid : Laid (quietPolicy config.maxBatchBytes) J d)
    (split : J.active = before ++ b :: after) (inside : i < b.size)
    (readable : ∀ earlier, Earlier J before earlier → earlier.Readable)
    (torn : Torn config.maxBatchBytes (changedTail b (J.activeBase + span before) i value
      (layout (J.activeBase + span before + b.records.length) after))) :
    ¬ Reported J (settleOpen (openStore config
      ⟨(), d.change (.log J.activeBase) ((layout J.activeBase before).length + i) value, []⟩)) := by
  have valid := (laid.valid.extents _ J.active_mem).batches
  rw [show J.activeExtent.batches = _ from split] at valid
  have nonempty : 0 < b.records.length := List.length_pos_iff.mpr valid.middle.someRecord
  obtain ⟨s, d', opened, represents, _⟩ :=
    @Holds.opens _ _ (stalePolicy config.maxBatchBytes) config
      (Or.inl (laid.torn_change split inside torn)) (le_refl _) (by
        intro other member
        refine readable other ?_
        rcases List.mem_append.mp member with member | member
        · obtain ⟨batches, present, here⟩ := List.mem_flatten.mp member
          obtain ⟨front, rest, pieces⟩ := List.append_of_mem present
          refine Or.inr ⟨⟨J.floor + span front.flatten, batches⟩, ?_, here⟩
          rw [Journal.closedExtents, show J.closed = _ from pieces, extentsFrom_append]
          simp [extentsFrom]
        · exact Or.inl member)
  rw [opened]
  rintro (⟨reason, failed⟩ | ⟨_, s', isOpen, logEnd, _⟩)
  · cases failed
  · cases isOpen
    rw [represents.logEndOffset, Journal.logEnd, Journal.logEnd, Journal.batches, Journal.batches,
      split] at logEnd
    simp only [span_append, span_cons] at logEnd
    omega

/-- A changed byte of the active log is reported unless it is hidden in a length field. -/
theorem corruption_reported {position : Nat} (laid : Laid (quietPolicy config.maxBatchBytes) J d)
    (inside : position < J.activeExtent.bytes.length)
    (differs : J.activeExtent.bytes[position]? ≠ some value) :
    Reported J (Partition.perform ⟨none, d.change (.log J.activeBase) position value⟩
      ⟨.openStore config, []⟩) ↔
      ¬ Hidden config.maxBatchBytes J position value := by
  show Reported J
    (settleOpen (openStore config ⟨(), d.change (.log J.activeBase) position value, []⟩)) ↔ _
  have all := (laid.valid.extents _ J.active_mem).batches
  constructor
  · rintro reported ⟨before, b, after, i, split, rfl, low, high, readable, escapes⟩
    rw [show J.activeExtent.batches = _ from split] at all
    have size := b.size_ge all.middle
    rcases @escapes_cases _ _ _ _ _ _ (J.activeBase + span before) (layout J.activeBase before)
      all.middle ⟨low, high⟩ escapes with
      torn | panicked
    · exact laid.torn_unreported split (by omega) readable torn reported
    · have dies :=
        @meets_openWrong J config _ _ _ _ laid.valid laid.named_change
          ((validFrom_append _ _ _).mp all).1
        (fun other earlier => laid.earlier_small split earlier)
        (laid.wrongFrom value split (by omega)) panicked (fun _ => Or.inr rfl)
      have ran := dies [] (by simp)
      revert ran reported
      rcases openStore config
        ⟨(), d.change (.log J.activeBase) ((layout J.activeBase before).length + i) value, []⟩ with
        ⟨_ | _ | _, after⟩
      · exact fun _ ran => ran.1
      · rintro _ ⟨⟨other, earlier, bad⟩ | live, _⟩
        · exact bad (readable other earlier)
        · exact live rfl
      · rintro (⟨_, failed⟩ | ⟨opened, _⟩) _
        · cases failed
        · cases opened
  · intro exposed
    obtain ⟨before, b, after, i, split, small, place⟩ :
        ∃ before b after i,
          J.active = before ++ b :: after ∧
            i < b.size ∧ position = (layout J.activeBase before).length + i :=
      layout_position all inside
    subst place
    rw [show J.activeExtent.batches = _ from split] at all
    have entry : (b.bytes (J.activeBase + span before))[i]? ≠ some value := by
      rw [← layout_entry (show ValidFrom J.activeBase _ from all) small, ← split]
      exact differs
    have ends : (∀ earlier, Earlier J before earlier → earlier.Readable) →
        ∃ reason, scanRound config.maxBatchBytes
          (layout J.activeBase before ++ changedTail b (J.activeBase + span before) i
          value (layout (J.activeBase + span before + b.records.length) after))
          (layout J.activeBase before).length (J.activeBase + span before) = .rejected reason := by
      intro readable
      refine scanRound_reports (layout J.activeBase before) all.middle small entry
        fun escapes => exposed ?_
      obtain ⟨low, high⟩ := escapes_lengthByte all.middle small entry escapes
      exact ⟨before, b, after, i, split, rfl, low, high, readable, escapes⟩
    have fails := @meets_openWrong J config _ _ _ _ laid.valid laid.named_change
      ((validFrom_append _ _ _).mp all).1 (fun other earlier => laid.earlier_small split earlier)
      (laid.wrongFrom value split small) rfl (fun readable => Or.inl (ends readable))
    have ran := fails [] (by simp)
    revert ran
    rcases openStore config
      ⟨(), d.change (.log J.activeBase) ((layout J.activeBase before).length + i) value, []⟩ with
      ⟨_ | reason | _, after⟩
    · exact fun ran => absurd ran.1 id
    · exact fun _ => Or.inl ⟨reason, rfl⟩
    · rintro ⟨readable, panicked⟩
      obtain ⟨reason, rejected⟩ := ends readable
      rw [rejected] at panicked
      cases panicked

theorem laid_log {P : Policy} {b : Batch} (valid : b.Valid 0) (limit : (b.size : Int) ≤ P.limit)
    (synced : Bytes) :
    Laid P ⟨0, [], [b]⟩ (Directory.empty.put (.log 0) ⟨layout 0 [b], synced⟩) := by
  refine ⟨⟨?_, by simp⟩, ?_, ?_, ⟨⟨_, [], file?_put_self, ?_, P.tail_nil _⟩, ?_⟩, ?_, ?_⟩
  · intro e member
    rw [List.mem_singleton.mp member]
    refine ⟨show 0 < 2 ^ 64 by decide, ⟨valid, trivial⟩, ?_⟩
    rintro (_ | _) other after split
    · decide
    · simp [Journal.activeExtent] at split
  · intro other member
    rw [List.mem_singleton.mp member]
    exact limit
  · exact fun e member => absurd member List.not_mem_nil
  · rw [List.append_nil]
    rfl
  · intro file found
    rw [file?_put_other (by simp)] at found
    cases found
  · intro base found
    refine ⟨_, Journal.active_mem _, ?_⟩
    by_contra other
    rw [file?_put_other (by simpa using show base ≠ 0 from Ne.symm other)] at found
    exact found rfl
  · intro base _
    rw [file?_put_other (by simp)]
    rfl

/-- A byte of the magic number. -/
theorem corruption_reported_magic :
    let b : Batch := ⟨5, [⟨none, some [97], [], 0⟩]⟩
    ¬ Hidden 1000 ⟨0, [], [b]⟩ 0 0 ∧
      Reported ⟨0, [], [b]⟩
        (Partition.perform
          ⟨none, (Directory.empty.put (.log 0) ⟨layout 0 [b], []⟩).change (.log 0) 0 0⟩
        ⟨.openStore ⟨1000, 1000, 10, .sync⟩, []⟩) := by
  intro b
  have exposed : ¬ Hidden 1000 ⟨0, [], [b]⟩ 0 0 := by
    rintro ⟨before, other, after, i, _, place, low, _⟩
    omega
  have valid : b.Valid 0 := ⟨by simp [b], by decide, by decide, by decide +kernel⟩
  exact ⟨exposed, (corruption_reported (laid_log valid (by decide +kernel) [])
    (by decide +kernel) (by decide +kernel)).mpr exposed⟩

/-- Two batches, and the second's length field made to say more than the log has: one record of the
    two is left, and nothing is reported. -/
theorem corruption_hidden :
    let config : Config := ⟨1000, 1000, 10, .sync⟩
    let history := execute Partition.perform [] Partition.new
      [⟨.openStore config, []⟩, ⟨.append 5000000 [⟨none, some [97], [], 0⟩], []⟩,
       ⟨.append 6000000 [⟨none, some [98], [], 0⟩], []⟩, ⟨.closeStore, []⟩]
    let J : Journal := ⟨0, [], [⟨5, [⟨none, some [97], [], 0⟩]⟩, ⟨6, [⟨none, some [98], [], 0⟩]⟩]⟩
    let reopened :=
      Partition.perform ⟨none, history.2.directory.change (.log 0) 65 1⟩ ⟨.openStore config, []⟩
    acknowledged history.1 = J.records ∧
      (history.2.directory.file? (.log 0)).map File.data = some J.activeExtent.bytes ∧
      J.activeExtent.bytes[65]? ≠ some 1 ∧ reopened.1 = .opened ∧
      reopened.2.store.map Store.logEndOffset = some 1 ∧ ¬ Reported J reopened :=
  ⟨by decide +kernel, by decide +kernel, by decide +kernel, by decide +kernel, by decide +kernel,
    fun reported => absurd (reported.logEnd (by decide +kernel)) (by decide +kernel)⟩

end Change

end MessageBroker.Storage
