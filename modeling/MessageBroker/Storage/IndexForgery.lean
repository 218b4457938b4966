import MessageBroker.Storage.Corruption
import MessageBroker.Storage.Sampling
import MessageBroker.Storage.RetentionPolicy

namespace MessageBroker.Storage

open Faulty Runs BigEndian

/-! ## Logs with any index files -/

/-- The directory's logs are those of the journal. Its index files may hold any bytes, or be
    missing. -/
structure LogsOf (J : Journal) (d : Directory) : Prop where
  logs : ∀ e ∈ J.extents, ∃ file, d.file? (.log e.base) = some file ∧ file.data = e.bytes
  only : ∀ base, d.file? (.log base) ≠ none → ∃ e ∈ J.extents, e.base = base
  above : ∀ base, J.activeBase < base → d.file? (.index base) = none

def FileName.isIndex : FileName → Bool
  | .index _ => true
  | _ => false

def Directory.deleteIndexes (d : Directory) : Directory :=
  (d.files.keys.filter FileName.isIndex).foldl Directory.erase d

theorem file?_foldl_erase (names : List FileName) (d : Directory) (name : FileName) :
    (names.foldl Directory.erase d).file? name = if name ∈ names then none else d.file? name := by
  induction names generalizing d with
  | nil => simp
  | cons first names ih =>
    rw [List.foldl_cons, ih]
    by_cases later : name ∈ names
    · rw [if_pos later, if_pos (List.mem_cons_of_mem _ later)]
    by_cases here : name = first
    · rw [if_neg later, here, file?_erase_self, if_pos List.mem_cons_self]
    · rw [if_neg later, file?_erase_other here, if_neg (by simp [here, later])]

theorem file?_deleteIndexes_log (d : Directory) (base : Nat) :
    d.deleteIndexes.file? (.log base) = d.file? (.log base) := by
  rw [Directory.deleteIndexes, file?_foldl_erase, if_neg (by simp [FileName.isIndex])]

theorem file?_deleteIndexes_index (d : Directory) (base : Nat) :
    d.deleteIndexes.file? (.index base) = none := by
  rw [Directory.deleteIndexes, file?_foldl_erase]
  by_cases present : d.file? (.index base) = none
  · rw [present, ite_self]
  · exact if_pos (List.mem_filter.mpr ⟨mem_keys_iff.mpr present, rfl⟩)

def reopened (config : Config) (d : Directory) : Outcome × Partition :=
  Partition.perform ⟨none, d⟩ ⟨.openStore config, []⟩

/-- The index only speeds reads up: whatever stands in the index files, the partition opens, reads
    answer as they do without these files, and entries that pass validation are the batches they say
    they are. -/
structure IndexHarmless (config : Config) (J : Journal) : Prop where
  opens : ∀ d, LogsOf J d → (reopened config d).1 = .opened
  reads : ∀ d, LogsOf J d → ∀ offset maxBytes,
    ((reopened config d).2.perform ⟨.read offset maxBytes, []⟩).1 =
      ((reopened config d.deleteIndexes).2.perform ⟨.read offset maxBytes, []⟩).1
  kept : ∀ d, LogsOf J d → ∀ e ∈ J.extents, ∀ log index active entries,
    d.file? (.log e.base) = some log → d.file? (.index e.base) = some index →
    ((openedSegment e.base active log index).readIndexEntries ⟨(), d, []⟩).1 = .ok entries →
    (validateIndexEntries (openedSegment e.base active log index) entries log.data.length
      ⟨(), d, []⟩).1 = .ok true →
    ∀ entry ∈ entries, e.Boundary entry

/-- Some place of the log looks to validation like the header of a batch that does not start there:
    it has the magic bytes and, where a header has the base offset, an offset behind the segment's
    first. -/
def Extent.Imitated (e : Extent) : Prop :=
  ∃ relative position, 0 < relative ∧ relative ≤ maxUint32 ∧ position + 33 ≤ e.bytes.length ∧
    (e.bytes.drop position).take 4 = magicBytes ∧
    get (((e.bytes.drop position).drop 13).take 8) = uint64 (e.base + relative) ∧
      ¬ e.Boundary ⟨relative, position⟩

/-! ## Without imitations -/

section Genuine

variable {e : Extent} {entries : List IndexEntry} {data : Bytes}

theorem entryMatches_iff {log : Bytes} {base relative position : Nat} :
    entryMatches log base ⟨relative, position⟩ = true ↔
      position + 33 ≤ log.length ∧ (log.drop position).take 4 = magicBytes ∧
        get (((log.drop position).drop 13).take 8) = uint64 (base + relative) := by
  rw [entryMatches, Bool.and_eq_true, Bool.and_eq_true, decide_eq_true_eq, decide_eq_true_eq,
    decide_eq_true_eq, and_assoc]

theorem Extent.boundary_zero (nonempty : e.batches ≠ []) : e.Boundary ⟨0, 0⟩ := by
  obtain ⟨b, rest, batches⟩ := List.exists_cons_of_ne_nil nonempty
  exact ⟨[], b, rest, batches, rfl⟩

/-- Entries that pass validation are boundaries when nothing in the log imitates a header. -/
theorem Extent.trusted (valid : e.Valid) (genuine : ¬ e.Imitated)
    (parsed : parseIndex data = .ok entries)
    (accepted : indexAccepted e.bytes e.base entries = true) : e.Sound entries := by
  obtain ⟨_, fits, first, rising⟩ := parseIndex_ok parsed
  refine ⟨accepted_covers valid accepted, first, rising, ?_⟩
  cases entries with
  | nil => simp
  | cons head rest =>
    have zero : head = ⟨0, 0⟩ := first head rfl
    simp only [indexAccepted, Bool.and_eq_true, List.all_eq_true] at accepted
    have matched := fun entry member => entryMatches_iff.mp (accepted.2 entry member)
    intro entry member
    obtain ⟨inside, magic, offset⟩ := matched entry member
    rcases List.mem_cons.mp member with rfl | later
    · rw [zero]
      refine Extent.boundary_zero fun empty => ?_
      rw [(Extent.bytes_nil_iff valid.filled).mpr empty, List.length_nil] at inside
      omega
    · have above := ((List.pairwise_cons.mp rising).1 entry later).1
      have small := (fits entry member).1
      by_contra forged
      exact genuine ⟨entry.relativeOffset, entry.position, by omega, by unfold maxUint32; omega,
        inside, magic, offset, forged⟩

end Genuine

/-- Any index file that validation sees through is as good as none. -/
def checkedPolicy (limit : Int) : Policy :=
  { quietPolicy limit with
    index := fun e data => ∀ entries, parseIndex data = .ok entries →
      indexAccepted e.bytes e.base entries = true → e.Sound entries
    index_holds := fun _ _ _ valid holds _ parsed accepted => holds.trusted valid parsed accepted
    index_trusted := fun _ _ entries _ checked parsed accepted => checked entries parsed accepted }

section Harmless

variable {config : Config} {J : Journal} {d : Directory} {e : Extent}

theorem LogsOf.deleteIndexes (logs : LogsOf J d) : LogsOf J d.deleteIndexes := by
  refine ⟨?_, ?_, fun base _ => file?_deleteIndexes_index d base⟩
  · intro e member
    rw [file?_deleteIndexes_log]
    exact logs.logs e member
  · intro base
    rw [file?_deleteIndexes_log]
    exact logs.only base

theorem LogsOf.laid {P : Policy} (logs : LogsOf J d) (valid : J.Valid)
    (limit : ∀ b ∈ J.batches, (b.size : Int) ≤ P.limit)
    (index : ∀ e ∈ J.extents, ∀ file, d.file? (.index e.base) = some file → P.index e file.data) :
    Laid P J d := by
  have onDisk : ∀ e ∈ J.extents, ∀ tail : Bytes → Prop, tail [] → OnDisk P.index tail e d := by
    intro e member tail nothing
    obtain ⟨file, found, content⟩ := logs.logs e member
    exact ⟨⟨file, [], found, by rw [content, List.append_nil], nothing⟩, index e member⟩
  exact ⟨valid, limit, fun e member => onDisk e (List.mem_append_left _ member) _ rfl,
    onDisk _ J.active_mem _ (P.tail_nil _), logs.only, logs.above⟩

/-- Two stores that stand for one journal answer every read alike. -/
theorem Represents.reads_alike {limit limit' : Int} {s s' : Store} {d' : Directory}
    (left : Represents limit J s d) (right : Represents limit' J s' d')
    (running : s.closed = false ∧ s.writeFailed = false)
    (running' : s'.closed = false ∧ s'.writeFailed = false) (readable : ∀ b ∈ J.batches, b.Readable)
    (offset : Nat) (maxBytes : Int) :
    (Partition.perform ⟨some s, d⟩ ⟨.read offset maxBytes, []⟩).1 =
      (Partition.perform ⟨some s', d'⟩ ⟨.read offset maxBytes, []⟩).1 := by
  by_cases nothing : maxBytes ≤ 0
  · rw [read_nonpositive rfl nothing, read_nonpositive rfl nothing]
  by_cases inside : J.floor ≤ offset ∧ offset ≤ J.logEnd
  · rw [left.read_finds running readable (by omega) inside.1 inside.2,
      right.read_finds running' readable (by omega) inside.1 inside.2]
  · rw [left.read_outside running readable (by omega) (by omega),
      right.read_outside running' readable (by omega) (by omega)]

theorem LogsOf.opens (logs : LogsOf J d) (valid : J.Valid)
    (limit : ∀ b ∈ J.batches, (b.size : Int) ≤ config.maxBatchBytes)
    (readable : ∀ b ∈ J.batches, b.Readable) (genuine : ∀ e ∈ J.extents, ¬ e.Imitated) :
    ∃ s d', reopened config d = (.opened, ⟨some s, d'⟩) ∧ Represents config.maxBatchBytes J s d' ∧
      s.closed = false ∧ s.writeFailed = false := by
  have laid : Laid (checkedPolicy config.maxBatchBytes) J d :=
    logs.laid valid limit
      fun e member _ _ _ => Extent.trusted (valid.extents e member) (genuine e member)
  obtain ⟨s, d', opened, represents, _, running⟩ := Holds.opens (Or.inl laid) (le_refl _) readable
  exact ⟨s, d', opened, represents, running⟩

theorem kept_accepted {log index : File} {active : Bool} {entries : List IndexEntry} {base : Nat}
    (foundLog : d.file? (.log base) = some log) (foundIndex : d.file? (.index base) = some index)
    (read : ((openedSegment base active log index).readIndexEntries ⟨(), d, []⟩).1 = .ok entries)
    (validated : (validateIndexEntries (openedSegment base active log index) entries log.data.length
      ⟨(), d, []⟩).1 = .ok true) :
    parseIndex index.data = .ok entries ∧ indexAccepted log.data base entries = true := by
  have parses : Meets never (openedSegment base active log index).readIndexEntries () d
      ⟨fun entries _ _ => parseIndex index.data = .ok entries, fun _ _ _ => True, fun _ => True⟩ :=
    meets_readIndexEntries foundIndex rfl (fun _ parsed => parsed) (fun _ _ => trivial)
      (fun _ => trivial)
  have parsed : parseIndex index.data = .ok entries :=
    parses.returned (by simp) (Prod.ext read rfl)
  have checks : Meets never
      (validateIndexEntries (openedSegment base active log index) entries log.data.length) () d
      ⟨fun kept _ _ => Verdict never (indexAccepted log.data base entries) kept, fun _ _ _ => True,
        fun _ => True⟩ :=
    meets_validateIndexEntries foundLog (parseIndex_ok parsed).2.2.2 (fun _ verdict => verdict)
      (fun _ => trivial)
  have verdict : Verdict never (indexAccepted log.data base entries) true :=
    checks.returned (by simp) (Prod.ext validated rfl)
  exact ⟨parsed, verdict.1 rfl⟩

/-- Without imitations and unreadable batches the index files do not matter. -/
theorem harmless_of_genuine (valid : J.Valid)
    (limit : ∀ b ∈ J.batches, (b.size : Int) ≤ config.maxBatchBytes)
    (readable : ∀ b ∈ J.batches, b.Readable) (genuine : ∀ e ∈ J.extents, ¬ e.Imitated) :
    IndexHarmless config J := by
  refine ⟨?_, ?_, ?_⟩
  · intro d logs
    obtain ⟨s, d', opened, _⟩ := logs.opens valid limit readable genuine
    rw [opened]
  · intro d logs offset maxBytes
    obtain ⟨s, d', opened, represents, running⟩ := logs.opens valid limit readable genuine
    obtain ⟨s', d'', opened', represents', running'⟩ :=
      logs.deleteIndexes.opens valid limit readable genuine
    rw [opened, opened']
    exact represents.reads_alike represents' running running' readable offset maxBytes
  · intro d logs e member log index active entries foundLog foundIndex read validated
    obtain ⟨parsed, accepted⟩ := kept_accepted foundLog foundIndex read validated
    obtain ⟨file, found, content⟩ := logs.logs e member
    rw [foundLog, Option.some.injEq] at found
    rw [found, content] at accepted
    exact (Extent.trusted (valid.extents e member) (genuine e member) parsed accepted).boundary

/-! ## With them -/

def layLogs (extents : List Extent) : Directory :=
  extents.foldr (fun e d => d.put (.log e.base) ⟨e.bytes, e.bytes⟩) ⟨true, ∅, []⟩

theorem file?_layLogs_log (extents : List Extent) (base : Nat) :
    (layLogs extents).file? (.log base) =
    (extents.find? fun e => e.base = base).map fun e => ⟨e.bytes, e.bytes⟩ := by
  induction extents with
  | nil => rfl
  | cons e extents ih =>
    show ((layLogs extents).put (.log e.base) ⟨e.bytes, e.bytes⟩).file? (.log base) = _
    by_cases here : e.base = base
    · rw [here, file?_put_self, List.find?_cons_of_pos (by simpa using here), Option.map_some]
    · rw [file?_put_other (by simpa using Ne.symm here), ih,
        List.find?_cons_of_neg (by simpa using here)]

theorem file?_layLogs_index (extents : List Extent) (base : Nat) :
    (layLogs extents).file? (.index base) = none := by
  induction extents with
  | nil => rfl
  | cons e extents ih => exact (file?_put_other (by simp)).trans ih

theorem logsOf_layLogs (valid : J.Valid) : LogsOf J (layLogs J.extents) := by
  refine ⟨?_, ?_, fun base _ => file?_layLogs_index _ base⟩
  · intro e member
    rw [file?_layLogs_log]
    obtain ⟨other, found⟩ := Option.isSome_iff_exists.mp
      (List.find?_isSome (p := fun other : Extent => decide (other.base = e.base)) |>.mpr ⟨e,
        member, by simp⟩)
    have same : other = e :=
      valid.same (List.mem_of_find?_eq_some found) member (by simpa using List.find?_some found)
    exact ⟨_, by rw [found, Option.map_some], by rw [same]⟩
  · intro base found
    rw [file?_layLogs_log, ne_eq, Option.map_eq_none_iff] at found
    obtain ⟨e, there⟩ := Option.ne_none_iff_exists'.mp found
    exact ⟨e, List.mem_of_find?_eq_some there, by simpa using List.find?_some there⟩

theorem LogsOf.putIndex {file : File} (logs : LogsOf J d) (valid : J.Valid)
    (member : e ∈ J.extents) :
    LogsOf J (d.put (.index e.base) file) := by
  refine ⟨?_, ?_, ?_⟩
  · intro other present
    rw [file?_put_other (by simp)]
    exact logs.logs other present
  · intro base
    rw [file?_put_other (by simp)]
    exact logs.only base
  · intro base above
    have below := J.base_le valid.rising member
    rw [file?_put_other (by simp; omega)]
    exact logs.above base above

theorem Extent.Valid.length_le (valid : e.Valid) : e.bytes.length ≤ maxInt64 := by
  rcases List.eq_nil_or_concat e.batches with empty | ⟨front, last, batches⟩
  · rw [(Extent.bytes_nil_iff valid.filled).mpr empty]
    exact Nat.zero_le _
  · have all := valid.batches
    rw [batches, List.concat_eq_append] at all
    have bytes := layout_length_le ((validFrom_append _ _ _).mp all).1
    have relative := valid.relative front last [] (by rw [batches, List.concat_eq_append])
    have small := all.middle.small
    have bound : span front * (2 ^ 31 - 1) ≤ (2 ^ 32 - 1) * (2 ^ 31 - 1) :=
      Nat.mul_le_mul_right _ relative
    rw [Extent.bytes, batches, List.concat_eq_append, layout, spread_append, List.length_append,
      spread, spread, List.append_nil, last.bytes_length all.middle]
    unfold layout at bytes
    unfold maxInt64
    omega

theorem Extent.Valid.first_matches (valid : e.Valid) (nonempty : e.batches ≠ []) :
    entryMatches e.bytes e.base ⟨0, 0⟩ = true := by
  obtain ⟨b, rest, batches⟩ := List.exists_cons_of_ne_nil nonempty
  have here : b.Valid e.base := by
    have all := valid.batches
    rw [batches] at all
    exact all.1
  have length := b.bytes_length here
  have size := b.size_ge here
  obtain ⟨magic, _⟩ := b.prefix_fields here.placed here.fits
  obtain ⟨_, batchBase, _⟩ := b.header_fields here.placed here.fits
  rw [List.drop_take, List.take_take] at batchBase
  have split : e.bytes = b.bytes e.base ++ spread Batch.bytes (e.base + b.records.length) rest := by
    rw [Extent.bytes, batches, layout, spread]
  rw [entryMatches_iff, split, List.drop_zero, List.length_append]
  refine ⟨by omega, ?_, ?_⟩
  · rw [List.take_append_of_le_length (by omega), ← magic, List.take_take]
    rfl
  · rw [List.drop_append_of_le_length (by omega),
      List.take_append_of_le_length (by rw [List.length_drop]; omega),
      show uint64 (e.base + (0 : Nat)) = e.base from uint64_of_nat valid.start]
    exact batchBase

/-- An index that leads to an imitated header passes every test. -/
theorem forged_kept {log index : File} {relative position : Nat} (valid : e.Valid)
    (foundLog : d.file? (.log e.base) = some log) (content : log.data = e.bytes)
    (foundIndex : d.file? (.index e.base) = some index)
    (forged : index.data = encodeEntries [⟨0, 0⟩, ⟨relative, position⟩]) (positive : 0 < relative)
    (small : relative ≤ maxUint32)
    (matched : entryMatches e.bytes e.base ⟨relative, position⟩ = true) :
    ((openedSegment e.base true log index).readIndexEntries ⟨(), d, []⟩).1 =
      .ok [⟨0, 0⟩, ⟨relative, position⟩] ∧
      (validateIndexEntries (openedSegment e.base true log index) [⟨0, 0⟩, ⟨relative, position⟩]
        log.data.length ⟨(), d, []⟩).1 = .ok true := by
  obtain ⟨inside, _, offset⟩ := entryMatches_iff.mp matched
  have nonempty : e.batches ≠ [] := by
    intro empty
    rw [(Extent.bytes_nil_iff valid.filled).mpr empty, List.length_nil] at inside
    omega
  have first := valid.first_matches nonempty
  -- no other offset than the segment's own stands in the first header
  have later : 0 < position := by
    rw [Nat.pos_iff_ne_zero]
    rintro rfl
    rw [(entryMatches_iff.mp first).2.2] at offset
    have start := valid.start
    unfold uint64 at offset
    unfold maxUint32 at small
    omega
  have rising : [(⟨0, 0⟩ : IndexEntry), ⟨relative, position⟩].Pairwise IndexEntry.Before := by
    simpa [IndexEntry.Before] using ⟨positive, later⟩
  have parsed : parseIndex index.data = .ok [⟨0, 0⟩, ⟨relative, position⟩] := by
    have length := valid.length_le
    have entries := @readEntries_encode [] [⟨0, 0⟩, ⟨relative, position⟩] 0 0 0 rfl
      (by
        unfold maxUint32 at small
        simp only [List.mem_cons, List.not_mem_nil, or_false, forall_eq_or_imp, forall_eq,
          IndexEntry.Fits]
        omega)
      (by simp) (by simp) rising
    unfold parseIndex
    rw [forged, show (encodeEntries [⟨0, 0⟩, ⟨relative, position⟩]).length = 24
      from encodeEntries_length _,
      if_neg (by decide), if_neg (by decide), if_neg (by decide)]
    exact entries
  have accepted : indexAccepted log.data e.base [⟨0, 0⟩, ⟨relative, position⟩] = true := by
    rw [content]
    simp [indexAccepted, first, matched]
  have reads : Meets never (openedSegment e.base true log index).readIndexEntries () d
      ⟨fun entries _ _ => entries = [⟨0, 0⟩, ⟨relative, position⟩], fun _ _ _ => False,
        fun _ => False⟩ := by
    refine meets_readIndexEntries foundIndex rfl ?_ ?_ (fun shaky => absurd shaky not_shaky_never)
    · intro entries same
      rw [parsed] at same
      exact (Except.ok.inj same).symm
    · exact fun _ shaky => absurd (shaky _ parsed) not_shaky_never
  have validates : Meets never (validateIndexEntries (openedSegment e.base true log index)
      [⟨0, 0⟩, ⟨relative, position⟩] log.data.length) () d
      ⟨fun kept _ _ => kept = true, fun _ _ _ => False, fun _ => False⟩ :=
    meets_validateIndexEntries foundLog rising
      (fun _ verdict => (verdict.2 not_shaky_never).trans accepted)
      (fun shaky => absurd shaky not_shaky_never)
  obtain ⟨_, _, _, ranRead, rfl⟩ :=
    reads.succeeds (fun _ _ _ impossible => impossible) (fun _ impossible => impossible)
  obtain ⟨_, _, _, ranValidate, rfl⟩ :=
    validates.succeeds (fun _ _ _ impossible => impossible) (fun _ impossible => impossible)
  exact ⟨by rw [ranRead], by rw [ranValidate]⟩

theorem Laid.readable {P : Policy} (laid : Laid P J d) (limit : P.limit ≤ config.maxBatchBytes)
    (opened : (reopened config d).1 = .opened) : ∀ b ∈ J.batches, b.Readable := by
  have loads : Meets never (openStore config) () d
      ⟨fun _ _ _ => ∀ e ∈ J.extents, ∀ b ∈ e.batches, b.Readable, fun _ _ _ => True,
        fun _ => True⟩ := by
    refine meets_openSegments laid.valid.rising laid.named ?_ (fun _ _ _ _ => trivial)
      (fun _ _ _ => trivial)
    intro d' same
    exact meets_loadSegments (laid.sameSegments same) limit (fun readable _ _ _ _ => readable)
      (fun _ _ _ _ => trivial) (fun _ _ _ => trivial)
  have quiet : ∀ fault ∈ ([] : List Fault), never fault := by simp
  have readable :=
    settledOpen (fun outcome _ => outcome = .opened → ∀ e ∈ J.extents, ∀ b ∈ e.batches, b.Readable)
    quiet (loads.mono (fun _ _ _ readable _ => readable) (fun _ _ _ _ other => by cases other)
      (fun _ _ other => by cases other)) opened
  intro b member
  rw [show J.batches = (J.closed ++ [J.active]).flatten by simp [Journal.batches]] at member
  obtain ⟨batches, piece, inside⟩ := List.mem_flatten.mp member
  obtain ⟨e, present, rfl⟩ := @mem_extents_of_piece J.floor _ _ piece
  rw [← J.extents_eq] at present
  exact readable e present b inside

/-- The index is only an accelerator exactly for logs of readable batches in which nothing imitates
    a header. -/
theorem index_harmless (valid : J.Valid)
    (limit : ∀ b ∈ J.batches, (b.size : Int) ≤ config.maxBatchBytes) :
    IndexHarmless config J ↔ (∀ b ∈ J.batches, b.Readable) ∧ ∀ e ∈ J.extents, ¬ e.Imitated := by
  have logs := logsOf_layLogs valid
  constructor
  · intro harmless
    refine ⟨?_, ?_⟩
    · have laid : Laid (quietPolicy config.maxBatchBytes) J (layLogs J.extents) :=
        logs.laid valid limit
          fun e _ file found => by rw [file?_layLogs_index] at found; cases found
      exact laid.readable (le_refl _) (harmless.opens _ logs)
    · rintro e member ⟨relative, position, positive, small, inside, magic, offset, forged⟩
      obtain ⟨log, foundLog, content⟩ := logs.logs e member
      have foundLog' : ((layLogs J.extents).put (.index e.base)
          ⟨encodeEntries [⟨0, 0⟩, ⟨relative, position⟩], []⟩).file? (.log e.base) = some log := by
        rw [file?_put_other (by simp), foundLog]
      obtain ⟨read, validated⟩ :=
        forged_kept (valid.extents e member) foundLog' content file?_put_self rfl positive small
        (entryMatches_iff.mpr ⟨inside, magic, offset⟩)
      exact forged (harmless.kept _ (logs.putIndex valid member) e member log _ true _ foundLog'
        file?_put_self read validated ⟨relative, position⟩ (by simp))
  · rintro ⟨readable, genuine⟩
    exact harmless_of_genuine valid limit readable genuine

/-- A log of one short batch has no room for an imitation. -/
theorem index_harmless_short :
    IndexHarmless ⟨1000, 1000, 10, .sync⟩ ⟨0, [], [⟨5, [⟨none, some [97], [], 0⟩]⟩]⟩ := by
  have valid : Batch.Valid ⟨5, [⟨none, some [97], [], 0⟩]⟩ 0 :=
    ⟨by simp, by decide, by decide, by decide +kernel⟩
  have laid := laid_log (P := quietPolicy 1000) valid (by decide +kernel) []
  refine (index_harmless laid.valid laid.limit).mpr ⟨by decide, ?_⟩
  intro e member
  rw [List.mem_singleton.mp member]
  rintro ⟨relative, position, positive, small, inside, magic, offset, _⟩
  have first : ∀ position < 30,
      ((layout 0 [⟨5, [⟨none, some [97], [], 0⟩]⟩]).drop position).take 4 = magicBytes →
        position = 0 := by
    decide +kernel
  have length : (layout 0 [⟨5, [⟨none, some [97], [], 0⟩]⟩]).length = 58 := by decide +kernel
  have start : get ((((layout 0 [⟨5, [⟨none, some [97], [], 0⟩]⟩]).drop 0).drop 13).take 8) =
      0 := by decide +kernel
  replace inside : position + 33 ≤ (layout 0 [⟨5, [⟨none, some [97], [], 0⟩]⟩]).length := inside
  rw [length] at inside
  have zero := first position (by omega) magic
  subst zero
  have wrapped : 0 = uint64 ((0 : Nat) + relative) := start.symm.trans offset
  unfold uint64 at wrapped
  unfold maxUint32 at small
  omega

/-- The first record's value has the shape of a header of offset 1, and the index points into it: a
    read of offset 1 fails with that index file, and finds the record without it. -/
theorem forged_index_misleads :
    let config : Config := ⟨1000, 1000, 10, .sync⟩
    let imitation : Bytes :=
      magicBytes ++ [1, 255, 255, 255, 255, 0, 0, 0, 0] ++ put 8 1 ++ List.replicate 12 0
    let history := execute Partition.perform [] Partition.new
      [⟨.openStore config, []⟩, ⟨.append 5000000 [⟨none, some imitation, [], 0⟩], []⟩,
       ⟨.append 6000000 [⟨none, some [98], [], 0⟩], []⟩, ⟨.closeStore, []⟩]
    let d := history.2.directory.put (.index 0) ⟨encodeEntries [⟨0, 0⟩, ⟨1, 53⟩], []⟩
    acknowledged history.1 = [⟨0, 5, none, some imitation, []⟩, ⟨1, 6, none, some [98], []⟩] ∧
      (reopened config d).1 = .opened ∧
      ((reopened config d).2.perform ⟨.read 1 1000, []⟩).1 = .failed (.truncatedPayload 53) ∧
      (reopened config d.deleteIndexes).1 = .opened ∧
      ((reopened config d.deleteIndexes).2.perform ⟨.read 1 1000, []⟩).1 =
        .found [⟨1, 6, none, some [98], []⟩] :=
  ⟨by decide +kernel, by decide +kernel, by decide +kernel, by decide +kernel, by decide +kernel⟩

end Harmless

end MessageBroker.Storage
