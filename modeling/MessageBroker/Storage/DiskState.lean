import Mathlib.Order.Bounds.Defs
import MessageBroker.Storage.Journal

namespace MessageBroker.Storage

open BigEndian Faulty

/-! ## Index files -/

def encodeEntries (entries : List IndexEntry) : Bytes := entries.flatMap IndexEntry.encode

@[simp] theorem IndexEntry.encode_length (entry : IndexEntry) : entry.encode.length = 12 := by
  simp [IndexEntry.encode]

@[simp] theorem encodeEntries_length (entries : List IndexEntry) :
    (encodeEntries entries).length = entries.length * 12 := by
  induction entries with
  | nil => rfl
  | cons entry entries ih =>
    rw [encodeEntries, List.flatMap_cons, List.length_append, IndexEntry.encode_length,
      List.length_cons]
    rw [encodeEntries] at ih
    omega

theorem encodeEntries_append (left right : List IndexEntry) :
    encodeEntries (left ++ right) = encodeEntries left ++ encodeEntries right := by
  simp [encodeEntries]

/-- True entries and at the end what an interrupted write left. -/
def IndexHolds (e : Extent) (entries : List IndexEntry) (data : Bytes) : Prop :=
  ∃ junk, data = encodeEntries entries ++ junk ∧
    junk.length < 12 ∧ ∀ entry ∈ entries, e.Boundary entry

theorem indexHolds_nil (e : Extent) : IndexHolds e [] [] := ⟨[], rfl, by decide, by simp⟩

theorem Extent.Sound.indexHolds {e : Extent} {entries : List IndexEntry} (sound : e.Sound entries) :
    IndexHolds e entries (encodeEntries entries) :=
  ⟨[], by simp, by decide, sound.boundary⟩

theorem IndexHolds.extend {e : Extent} {entries : List IndexEntry} {data : Bytes}
    (holds : IndexHolds e entries data) (b : Batch) : IndexHolds (e.extend b) entries data := by
  obtain ⟨junk, content, short, boundary⟩ := holds
  exact ⟨junk, content, short, fun entry member => (boundary entry member).extend⟩

def parseIndex (data : Bytes) : Except StoreError (List IndexEntry) :=
  if data.length = 0 then .ok []
  else if data.length % 12 ≠ 0 then .error (.indexSizeNotMultiple data.length)
  else if 64 * 1024 * 1024 < data.length then .error (.indexTooLarge data.length)
  else readEntries data (data.length / 12) 0 0 0

def entryMatches (log : Bytes) (base : Nat) (entry : IndexEntry) : Bool :=
  decide (entry.position + 33 ≤ log.length) &&
    decide ((log.drop entry.position).take 4 = magicBytes) &&
    decide (get (((log.drop entry.position).drop 13).take 8) = uint64 (base + entry.relativeOffset))

def indexAccepted (log : Bytes) (base : Nat) (entries : List IndexEntry) : Bool :=
  match entries with
  | [] => log.length == 0
  | first :: _ => decide (first = ⟨0, 0⟩) && entries.all (entryMatches log base)

/-! ## Segments on disk -/

/-- What recovery takes for the start of a batch that was not written to its end. -/
def Torn (limit : Int) (tail : Bytes) : Prop :=
  tail.length < 9 ∨ (tail.take 4 = magicBytes ∧ (tail.drop 4).take 1 = [formatVersion1] ∧
    minimumBatchRemainder ≤ get ((tail.drop 5).take 4) ∧
    (9 + get ((tail.drop 5).take 4) : Nat) ≤ limit ∧
    tail.length < 9 + get ((tail.drop 5).take 4))

theorem torn_nil (limit : Int) : Torn limit [] := Or.inl (by simp)

theorem torn_take {limit : Int} {b : Batch} {base written : Nat} (valid : b.Valid base)
    (small : (b.size : Int) ≤ limit) (short : written < b.size) :
    Torn limit ((b.bytes base).take written) := by
  have length := b.bytes_length valid
  have bound := b.size_ge valid
  have remainder : minimumBatchRemainder = 24 := rfl
  by_cases header : written < 9
  · left
    rw [List.length_take]
    omega
  · right
    obtain ⟨magic, version, _⟩ := b.prefix_fields valid.placed valid.fits
    have batchLength := b.length_field valid.placed valid.fits (not_lt.mp header)
    rw [List.take_take, Nat.min_eq_left (by omega)] at magic
    rw [List.drop_take, List.take_take, Nat.min_eq_left (by omega)] at version
    refine ⟨?_, ?_, by omega, by omega, ?_⟩
    · rw [List.take_take, Nat.min_eq_left (by omega), magic]
    · rw [List.drop_take, List.take_take, Nat.min_eq_left (by omega), version]
    · rw [batchLength, List.length_take]
      omega

/-- What a directory may hold besides its logs' complete batches: torn tails and index files. -/
structure Policy where
  limit : Int
  tail : Extent → Bytes → Prop
  index : Extent → Bytes → Prop
  tail_nil : ∀ e, tail e []
  tail_torn : ∀ e bytes, tail e bytes → Torn limit bytes
  index_holds : ∀ e entries data, e.Valid → IndexHolds e entries data → index e data
  index_trusted : ∀ e data entries, e.Valid → index e data → parseIndex data = .ok entries →
    indexAccepted e.bytes e.base entries = true → e.Sound entries

/-- The files of one segment. A missing index file is as good as any. -/
structure OnDisk (index : Extent → Bytes → Prop) (tail : Bytes → Prop) (e : Extent)
    (d : Directory) : Prop where
  log : ∃ file left, d.file? (.log e.base) = some file ∧ file.data = e.bytes ++ left ∧ tail left
  index : ∀ file, d.file? (.index e.base) = some file → index e file.data

/-- The two directories hold the same files for every base offset but one. -/
def Frame (base : Nat) (d d' : Directory) : Prop :=
  ∀ other, other ≠ base → d'.file? (.log other) = d.file? (.log other) ∧
    d'.file? (.index other) = d.file? (.index other)

theorem Frame.refl (base : Nat) (d : Directory) : Frame base d d := fun _ _ => ⟨rfl, rfl⟩

theorem Frame.trans {base : Nat} {d d' d'' : Directory} (first : Frame base d d')
    (second : Frame base d' d'') :
    Frame base d d'' := fun other differs =>
  ⟨(second other differs).1.trans (first other differs).1,
    (second other differs).2.trans (first other differs).2⟩

theorem OnDisk.frame {index : Extent → Bytes → Prop} {tail : Bytes → Prop} {e : Extent}
    {d d' : Directory} {base : Nat} (onDisk : OnDisk index tail e d) (frame : Frame base d d')
    (differs : e.base ≠ base) : OnDisk index tail e d' := by
  obtain ⟨sameLog, sameIndex⟩ := frame e.base differs
  refine ⟨?_, ?_⟩
  · rw [sameLog]
    exact onDisk.log
  · rw [sameIndex]
    exact onDisk.index

/-! ## Segments in memory -/

/-- An open segment that stands for the extent, with its files. -/
structure Mirrors (e : Extent) (seg : Segment) (d : Directory) : Prop where
  base : seg.baseOffset = e.base
  next : seg.nextOffset = e.next
  size : seg.size = e.bytes.length
  sound : e.Sound seg.indexEntries
  maxTimestamp : seg.maxTimestamp = e.maxTimestamp
  log : ∃ file, d.file? (.log e.base) = some file ∧ file.data = e.bytes
  index : ∃ file entries, d.file? (.index e.base) = some file ∧ IndexHolds e entries file.data ∧
    seg.indexSize = entries.length * 12

theorem Mirrors.frame {e : Extent} {seg : Segment} {d d' : Directory} {base : Nat}
    (mirrors : Mirrors e seg d) (frame : Frame base d d') (differs : e.base ≠ base) :
    Mirrors e seg d' := by
  obtain ⟨sameLog, sameIndex⟩ := frame e.base differs
  exact { mirrors with
    log := by rw [sameLog]; exact mirrors.log
    index := by rw [sameIndex]; exact mirrors.index }

theorem Mirrors.onDisk {e : Extent} {seg : Segment} {d : Directory} {P : Policy}
    {tail : Bytes → Prop} (mirrors : Mirrors e seg d) (valid : e.Valid) (nothing : tail []) :
    OnDisk P.index tail e d := by
  obtain ⟨file, found, content⟩ := mirrors.log
  obtain ⟨index, entries, foundIndex, holds, _⟩ := mirrors.index
  refine ⟨⟨file, [], found, by rw [content, List.append_nil], nothing⟩, ?_⟩
  intro other same
  rw [foundIndex, Option.some.injEq] at same
  rw [← same]
  exact P.index_holds e entries index.data valid holds

/-! ## The whole directory -/

/-- A directory without a segment. An empty index file may be left from one. -/
def Fresh (d : Directory) : Prop := ∀ base, d.file? (.log base) = none ∧
  ∀ file, d.file? (.index base) = some file → base = 0 ∧ file.data = []

theorem fresh_empty : Fresh Directory.empty := fun _ => ⟨rfl, fun _ found => by cases found⟩

/-- The directory holds the journal's segments and no other logs. -/
structure Laid (P : Policy) (J : Journal) (d : Directory) : Prop where
  valid : J.Valid
  limit : ∀ b ∈ J.batches, (b.size : Int) ≤ P.limit
  closed : ∀ e ∈ J.closedExtents, OnDisk P.index (· = []) e d
  active : OnDisk P.index (P.tail J.activeExtent) J.activeExtent d
  only : ∀ base, d.file? (.log base) ≠ none → ∃ e ∈ J.extents, e.base = base
  above : ∀ base, J.activeBase < base → d.file? (.index base) = none

section Laid

variable {P : Policy} {J : Journal} {d d' : Directory}

theorem Laid.change {base : Nat} (laid : Laid P J d) (frame : Frame base d d')
    (known : ∃ e ∈ J.extents, e.base = base)
    (closed : ∀ e ∈ J.closedExtents, e.base = base → OnDisk P.index (· = []) e d')
    (active : J.activeBase = base → OnDisk P.index (P.tail J.activeExtent) J.activeExtent d') :
    Laid P J d' := by
  have below : base ≤ J.activeBase := by
    obtain ⟨e, member, rfl⟩ := known
    exact J.base_le laid.valid.rising member
  refine ⟨laid.valid, laid.limit, ?_, ?_, ?_, ?_⟩
  · intro e member
    by_cases same : e.base = base
    · exact closed e member same
    · exact (laid.closed e member).frame frame same
  · by_cases same : J.activeBase = base
    · exact active same
    · exact laid.active.frame frame same
  · intro other found
    by_cases same : other = base
    · rw [same]
      exact known
    · rw [(frame other same).1] at found
      exact laid.only other found
  · intro other beyond
    rw [(frame other (by omega)).2]
    exact laid.above other beyond

theorem Laid.changeClosed {e : Extent} (laid : Laid P J d) (member : e ∈ J.closedExtents)
    (onDisk : OnDisk P.index (· = []) e d') (frame : Frame e.base d d') : Laid P J d' := by
  refine laid.change frame ⟨e, List.mem_append_left _ member, rfl⟩ ?_ ?_
  · intro other present base
    rw [laid.valid.same (List.mem_append_left _ present) (List.mem_append_left _ member) base]
    exact onDisk
  · intro base
    have less := laid.valid.closed_lt member
    omega

theorem Laid.changeActive (laid : Laid P J d)
    (onDisk : OnDisk P.index (P.tail J.activeExtent) J.activeExtent d')
    (frame : Frame J.activeBase d d') :
    Laid P J d' := by
  refine laid.change frame ⟨J.activeExtent, List.mem_append_right _ (List.mem_singleton_self _),
    rfl⟩ ?_ fun _ => onDisk
  intro other present base
  have less := laid.valid.closed_lt present
  omega

def SameSegments (d d' : Directory) : Prop := ∀ base,
  (d'.file? (.log base)).map File.data = (d.file? (.log base)).map File.data ∧
    (d'.file? (.index base)).map File.data = (d.file? (.index base)).map File.data

theorem SameSegments.refl (d : Directory) : SameSegments d d := fun _ => ⟨rfl, rfl⟩

theorem SameSegments.trans {d'' : Directory} (first : SameSegments d d')
    (second : SameSegments d' d'') :
    SameSegments d d'' := fun base =>
  ⟨(second base).1.trans (first base).1, (second base).2.trans (first base).2⟩

theorem found_of_same {name : FileName} {file : File}
    (same : (d'.file? name).map File.data = (d.file? name).map File.data)
    (found : d.file? name = some file) :
    ∃ file', d'.file? name = some file' ∧ file'.data = file.data := by
  rw [found, Option.map_some, Option.map_eq_some_iff] at same
  exact same

theorem OnDisk.sameSegments {index : Extent → Bytes → Prop} {tail : Bytes → Prop} {e : Extent}
    (onDisk : OnDisk index tail e d) (same : SameSegments d d') : OnDisk index tail e d' := by
  obtain ⟨file, left, found, content, rest⟩ := onDisk.log
  obtain ⟨file', found', data⟩ := found_of_same (same e.base).1 found
  refine ⟨⟨file', left, found', by rw [data, content], rest⟩, ?_⟩
  intro other placed
  obtain ⟨before, earlier, bytes⟩ := found_of_same (same e.base).2.symm placed
  rw [← bytes]
  exact onDisk.index before earlier

theorem Mirrors.sameSegments {e : Extent} {seg : Segment} (mirrors : Mirrors e seg d)
    (same : SameSegments d d') :
    Mirrors e seg d' := by
  obtain ⟨file, found, content⟩ := mirrors.log
  obtain ⟨file', found', data⟩ := found_of_same (same e.base).1 found
  obtain ⟨index, entries, foundIndex, holds, size⟩ := mirrors.index
  obtain ⟨index', foundIndex', indexData⟩ := found_of_same (same e.base).2 foundIndex
  exact { mirrors with
    log := ⟨file', found', by rw [data, content]⟩
    index := ⟨index', entries, foundIndex', by rw [indexData]; exact holds, size⟩ }

theorem none_of_same {name : FileName}
    (same : (d'.file? name).map File.data = (d.file? name).map File.data) :
    d'.file? name = none ↔ d.file? name = none := by
  rw [← Option.map_eq_none_iff (f := File.data), same, Option.map_eq_none_iff]

theorem Laid.sameSegments (laid : Laid P J d) (same : SameSegments d d') : Laid P J d' := by
  refine ⟨laid.valid, laid.limit, fun e member => (laid.closed e member).sameSegments same,
    laid.active.sameSegments same, ?_, ?_⟩
  · intro base found
    exact laid.only base (mt (none_of_same (same base).1).mpr found)
  · intro base beyond
    exact (none_of_same (same base).2).mpr (laid.above base beyond)

theorem Fresh.sameSegments (fresh : Fresh d) (same : SameSegments d d') : Fresh d' := by
  intro base
  refine ⟨(none_of_same (same base).1).mpr (fresh base).1, ?_⟩
  intro file found
  obtain ⟨before, earlier, bytes⟩ := found_of_same (same base).2.symm found
  rw [← bytes]
  exact (fresh base).2 before earlier

end Laid

/-- The open store and its directory stand for the journal. -/
structure Represents (limit : Int) (J : Journal) (s : Store) (d : Directory) : Prop where
  valid : J.Valid
  limit : ∀ b ∈ J.batches, (b.size : Int) ≤ limit
  segments : List.Forall₂ (fun e seg => Mirrors e seg d) J.extents s.segments
  activeSegment : s.activeSegment = J.closed.length
  logEndOffset : s.logEndOffset = J.logEnd
  earliestOffset : s.earliestOffset = J.floor
  only : ∀ base, d.file? (.log base) ≠ none → ∃ e ∈ J.extents, e.base = base
  above : ∀ base, J.activeBase < base → d.file? (.index base) = none

/-- A directory before its first segment, or one that holds the journal. -/
def Holds (P : Policy) (J : Journal) (d : Directory) : Prop :=
  Laid P J d ∨ J = Journal.initial ∧ Fresh d

theorem Holds.sameSegments {P : Policy} {J : Journal} {d d' : Directory} (holds : Holds P J d)
    (same : SameSegments d d') : Holds P J d' :=
  holds.imp (fun laid => laid.sameSegments same)
    fun ⟨first, fresh⟩ => ⟨first, fresh.sameSegments same⟩

/-! ## The first log file -/

section FirstLog

variable {P : Policy} {J : Journal} {d : Directory}

theorem Journal.extents_head (J : Journal) :
    ∃ batches rest, J.extents = ⟨J.floor, batches⟩ :: rest := by
  rw [J.extents_eq]
  cases pieces : J.closed ++ [J.active] with
  | nil => simp at pieces
  | cons batches rest => exact ⟨batches, _, rfl⟩

theorem Journal.floor_le (J : Journal) {e : Extent} (member : e ∈ J.extents) :
    J.floor ≤ e.base := by
  rw [J.extents_eq] at member
  obtain ⟨_, _, _, start⟩ := mem_extentsFrom member
  omega

theorem Laid.log_present (laid : Laid P J d) {e : Extent} (member : e ∈ J.extents) :
    d.file? (.log e.base) ≠ none := by
  rcases List.mem_append.mp member with member | member
  · obtain ⟨file, _, found, _⟩ := (laid.closed e member).log
    rw [found]
    simp
  · obtain ⟨file, _, found, _⟩ := laid.active.log
    rw [List.mem_singleton.mp member, found]
    simp

theorem Laid.least (laid : Laid P J d) : IsLeast {base | d.file? (.log base) ≠ none} J.floor := by
  refine ⟨?_, ?_⟩
  · obtain ⟨batches, rest, split⟩ := J.extents_head
    exact laid.log_present (e := ⟨J.floor, batches⟩) (by rw [split]; exact List.mem_cons_self)
  · intro base present
    obtain ⟨e, member, rfl⟩ := laid.only base present
    exact J.floor_le member

/-- The log begins with its first file, and at zero as long as there is none. -/
def Directory.FirstLog (d : Directory) (start : Nat) : Prop :=
  IsLeast {base | d.file? (.log base) ≠ none} start ∨
    (∀ base, d.file? (.log base) = none) ∧ start = 0

theorem Holds.firstLog (holds : Holds P J d) : d.FirstLog J.floor := by
  rcases holds with laid | ⟨rfl, fresh⟩
  · exact Or.inl laid.least
  · exact Or.inr ⟨fun base => (fresh base).1, rfl⟩

end FirstLog

end MessageBroker.Storage
