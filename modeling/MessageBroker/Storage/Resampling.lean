import MessageBroker.Storage.DecodeSound
import MessageBroker.Storage.Opening
import MessageBroker.Storage.Sampling

namespace MessageBroker.Storage

open Faulty BigEndian

/-! ## What the disk may hold of a sampled segment -/

def Unfinished (left : Bytes) : Prop :=
  left = [] ∨ ∃ (b : Batch) (base written : Nat),
    b.Placed base ∧ b.size < 2 ^ 32 + 9 ∧ written < b.size ∧
    left = (b.bytes base).take written

def SampledFile (interval : Int) (e : Extent) (data : Bytes) : Prop :=
  data = [] ∨ data = encodeEntries (e.sampled interval).1

/-- A segment in memory whose entries, in memory and on disk, are the sampled ones. -/
structure Indexed (interval : Int) (tail : Bytes → Prop) (e : Extent) (seg : Segment)
    (d : Directory) : Prop where
  base : seg.baseOffset = e.base
  size : seg.size = e.bytes.length
  sampled : (seg.indexEntries, seg.lastIndexedPosition) = e.sampled interval
  indexSize : seg.indexSize = seg.indexEntries.length * 12
  log : ∃ file left, d.file? (.log e.base) = some file ∧ file.data = e.bytes ++ left ∧ tail left
  index : ∃ file, d.file? (.index e.base) = some file ∧ file.data = encodeEntries seg.indexEntries

section Indexed

variable {interval : Int} {tail : Bytes → Prop} {e : Extent} {seg : Segment} {d d' : Directory}

theorem Indexed.entries (indexed : Indexed interval tail e seg d) :
    seg.indexEntries = (e.sampled interval).1 :=
  congrArg Prod.fst indexed.sampled

theorem Indexed.sameSegments (indexed : Indexed interval tail e seg d) (same : SameSegments d d') :
    Indexed interval tail e seg d' := by
  obtain ⟨file, left, found, content, rest⟩ := indexed.log
  obtain ⟨file', found', data⟩ := found_of_same (same e.base).1 found
  obtain ⟨index, foundIndex, entries⟩ := indexed.index
  obtain ⟨index', foundIndex', indexData⟩ := found_of_same (same e.base).2 foundIndex
  exact { indexed with
    log := ⟨file', left, found', by rw [data, content], rest⟩
    index := ⟨index', foundIndex', by rw [indexData, entries]⟩ }

theorem Indexed.frame (indexed : Indexed interval tail e seg d)
    (same : d'.file? (.log e.base) = d.file? (.log e.base) ∧
      d'.file? (.index e.base) = d.file? (.index e.base)) :
    Indexed interval tail e seg d' := by
  obtain ⟨sameLog, sameIndex⟩ := same
  exact { indexed with
    log := by rw [sameLog]; exact indexed.log
    index := by rw [sameIndex]; exact indexed.index }

theorem indexed_created {base : Nat} (active : Bool) {log index : File}
    (noLog : d.file? (.log base) = none)
    (emptyIndex : ∀ file, d.file? (.index base) = some file → file.data = [])
    (foundLog : ((d.touch (.log base)).touch (.index base)).file? (.log base) = some log)
    (foundIndex : ((d.touch (.log base)).touch (.index base)).file? (.index base) = some index) :
    Indexed interval (· = []) ⟨base, []⟩ (openedSegment base active log index)
      ((d.touch (.log base)).touch (.index base)) := by
  obtain ⟨rfl, nothing⟩ := created_empty noLog emptyIndex foundLog foundIndex
  exact ⟨rfl, rfl, rfl, congrArg List.length nothing, ⟨_, [], foundLog, rfl, rfl⟩, _, foundIndex,
    nothing⟩

theorem OnDisk.weaken {index : Extent → Bytes → Prop} {weaker : Bytes → Prop}
    (onDisk : OnDisk index tail e d) (implies : ∀ left, tail left → weaker left) :
    OnDisk index weaker e d := by
  obtain ⟨file, left, found, content, rest⟩ := onDisk.log
  exact ⟨⟨file, left, found, content, implies left rest⟩, onDisk.index⟩

theorem Indexed.onDisk (indexed : Indexed interval tail e seg d) :
    OnDisk (SampledFile interval) tail e d := by
  refine ⟨indexed.log, ?_⟩
  intro file found
  obtain ⟨index, foundIndex, entries⟩ := indexed.index
  rw [found, Option.some.injEq] at foundIndex
  rw [foundIndex, entries, indexed.entries]
  exact .inr rfl

end Indexed

/-! ## Recovering one segment -/

/-- A program that ends well ends so, and one that does not leaves the disk so. -/
def leaving {μ σ ε α : Type} (holds : α → μ → σ → Prop) (kept : σ → Prop) : Post μ σ ε α :=
  ⟨holds, fun _ _ => kept, kept⟩

section Recovery

variable {μ : Type} {m : μ} {d : Directory} {seg : Segment} {file : File} {interval : Int}
  {e : Extent}

theorem decoded_count {b : Batch} {base : Nat} {records : List StoredRecord}
    (measured : b.Measured base) (decoded : decodeBatch (b.bytes base) = .ok records) :
    records.length = b.records.length := by
  rw [(b.decode_bytes measured.placed measured.size).1] at decoded
  obtain ⟨⟨parsed, finish⟩, inner, decoded⟩ := bind_ok decoded
  have size := measured.size_ge
  have length := measured.length
  have count := (decodeRecords_ok inner (by rw [length, batchHeaderSize]; omega)).1
  rw [b.stored_length] at count
  dsimp only at decoded
  split_ifs at decoded
  cases decoded
  exact count

theorem acceptedBatch_cases (data : Bytes) (expected totalBatchSize : Nat) :
    (∃ reason, acceptedBatch data expected totalBatchSize = .rejected reason) ∨
      acceptedBatch data expected totalBatchSize = .panicked ∨
      ∃ records, decodeBatch data = .ok records ∧
        acceptedBatch data expected totalBatchSize = .batch records totalBatchSize := by
  unfold acceptedBatch
  split
  · exact .inr (.inl rfl)
  · exact .inl ⟨_, rfl⟩
  · rename_i records decoded
    split
    · exact .inl ⟨_, rfl⟩
    · exact .inr (.inr ⟨records, decoded, rfl⟩)

theorem scanRound_unfinished {done left : Bytes} {maxBatchBytes : Int} {expected : Nat}
    (cut : Unfinished left) (nonempty : left ≠ []) :
    (∃ closedError, scanRound maxBatchBytes (done ++ left) done.length expected =
      .torn closedError) ∨
      ∃ reason, scanRound maxBatchBytes (done ++ left) done.length expected = .rejected reason := by
  obtain ⟨b, base, written, placed, small, short, rfl⟩ := cut.resolve_left nonempty
  have length := (b.encode_stored base placed.someRecord).2
  have size : ((b.bytes base).take written).length = written := by
    rw [List.length_take]
    omega
  have positive : 0 < written := by
    rw [← size]
    exact List.length_pos_iff.mpr nonempty
  by_cases header : written < 9
  · left
    unfold scanRound
    rw [List.length_append, size, if_pos (by omega), if_pos (by omega)]
    exact ⟨_, rfl⟩
  · have front :
      ((done ++ (b.bytes base).take written).drop done.length).take 9 = (b.bytes base).take 9 := by
      rw [List.drop_left, List.take_take, Nat.min_eq_left (by omega)]
    rw [scanRound_header front (by rw [List.length_append, size]; omega) placed small,
      List.length_append, size]
    split_ifs
    · exact .inr ⟨_, rfl⟩
    · exact .inl ⟨_, rfl⟩
    · omega

/-- A scan that ends well has gone through the batches and cut off what is behind them. -/
theorem meets_scan_measured {left : Bytes} {active : Bool} {maxBatchBytes : Int}
    {holds : Segment × Nat × Nat → μ → Directory → Prop} {kept : Directory → Prop} (still : kept d)
    (done rest : List Batch) (measured : e.Measured) (split : e.batches = done ++ rest)
    (found : d.file? seg.path = some file) (size : seg.size = file.data.length)
    (content : file.data = e.bytes ++ left) (cut : Unfinished left)
    (returns : ∀ maxTimestamp d', d'.file? seg.path = some { file with data := e.bytes } →
      SameBut seg.path d d' →
      holds ({ seg with size := e.bytes.length, maxTimestamp := maxTimestamp }, e.next,
        e.bytes.length) m d') :
    Meets (fun _ => False)
      (scanBatches maxBatchBytes active seg (layout e.base done).length (e.base + span done)
      (layout e.base done).length) m d (leaving holds kept) := by
  have bounded : (layout e.base done).length ≤ file.data.length := by
    rw [content, Extent.bytes, split, layout, spread_append, List.length_append, List.length_append]
    omega
  induction rest generalizing done seg with
  | nil =>
    have whole : e.bytes = layout e.base done := by rw [Extent.bytes, split, List.append_nil]
    have next : e.next = e.base + span done := by rw [Extent.next, split, List.append_nil]
    rw [whole] at content returns
    rw [next] at returns
    apply meets_scan_round found size bounded _ unshaken unshaken
    by_cases nothing : left = []
    · rw [nothing, List.append_nil] at content
      have finished :
          scanRound maxBatchBytes file.data (layout e.base done).length (e.base + span done) =
            .finished := by
        rw [scanRound, content, if_neg (by simp)]
      have same := returns seg.maxTimestamp d (by rw [found, ← content]) (SameBut.refl _ _)
      rw [finished]
      rw [← content, ← size] at same ⊢
      exact same
    · have variants :=
        @scanRound_unfinished (layout e.base done) left maxBatchBytes (e.base + span done) cut
          nothing
      rw [← content] at variants
      rcases variants with ⟨closedError, round⟩ | ⟨reason, round⟩
      · rw [round]
        refine ⟨fun _ => ?_, fun _ => still⟩
        rw [content, List.take_left]
        exact returns seg.maxTimestamp _ file?_put_self sameBut_put
      · rw [round]
        exact still
  | cons b rest ih =>
    have here : b.Measured (e.base + span done) := by
      have all := measured.batches
      rw [split] at all
      exact all.middle
    have least := here.size_ge
    have length := here.length
    have occurs : Occurs file.data (layout e.base done).length (b.bytes (e.base + span done)) := by
      rw [content, Extent.bytes, split, layout, spread_append, spread, List.append_assoc,
        List.append_assoc]
      exact ⟨_, _, rfl, rfl⟩
    have inside := occurs.bound
    have whole := occurs.extract
    rw [length] at inside whole
    apply meets_scan_round found size bounded _ unshaken unshaken
    rw [scanRound_header (occurs.take_front (by omega)) (by omega) here.placed here.size, whole]
    by_cases large : maxBatchBytes < b.size
    · rw [if_pos large]
      exact still
    rw [if_neg large, if_neg (by omega)]
    rcases acceptedBatch_cases (b.bytes (e.base + span done)) (e.base + span done) b.size with
      ⟨reason, round⟩ | round | ⟨records, decoded, round⟩
    · rw [round]
      exact still
    · rw [round]
      exact still
    · have count := decoded_count here decoded
      have next : uint64 ((e.base + span done : Nat) + records.length) =
          e.base + span (done ++ [b]) := by
        have offsets := here.offsets
        rw [count, span_append, span_cons, span_nil, Nat.add_zero, ← Nat.add_assoc]
        exact uint64_of_nat offsets
      have position :
          (layout e.base done).length + b.size = (layout e.base (done ++ [b])).length := by
        rw [layout, spread_append, List.length_append, spread, spread, List.append_nil, length]
      rw [round]
      dsimp only
      rw [next, position]
      refine @ih { seg with maxTimestamp := raiseTimestamp seg.maxTimestamp records } (done ++ [b])
        (by rw [split]; simp) found size returns ?_
      omega

/-- Whichever of its two ways recovery takes, the index it ends with is the sampled one. -/
theorem meets_recoverIndex_sampled {index : File} {post : Post μ Directory StoreError Segment}
    (measured : e.Measured) (base : seg.baseOffset = e.base) (size : seg.size = e.bytes.length)
    (last : seg.lastIndexedPosition = -1) (found : d.file? (.log e.base) = some file)
    (content : file.data = e.bytes) (foundIndex : d.file? (.index e.base) = some index)
    (indexSize : seg.indexSize = index.data.length) (sampled : SampledFile interval e index.data)
    (returns : ∀ seg' d',
      Indexed interval (· = []) e seg' d' → Frame e.base d d' → post.returns seg' m d') :
    Meets (fun _ => False) (recoverIndex interval seg e.bytes.length) m d post := by
  have path : seg.path = .log e.base := by rw [Segment.path, base]
  have indexPath : seg.indexPath = .index e.base := by rw [Segment.indexPath, base]
  have rebuild : Meets (fun _ => False) (rebuildIndex interval seg e.bytes.length) m d post := by
    refine meets_rebuildIndex_sampled measured base (by rw [path, found])
      (by rw [content, List.append_nil]) ?_
    intro maxTimestamp d' reindexed
    refine returns _ d' ⟨base, size, rfl, rfl, ⟨file, [], ?_, by rw [content, List.append_nil],
      rfl⟩, reindexed.index⟩
      reindexed.frame
    rw [reindexed.log, found]
  unfold recoverIndex
  apply Meets.bind
  apply Meets.attempt
  refine meets_readIndexEntries (by rw [indexPath, foundIndex]) indexSize ?_ (fun _ _ => rebuild)
    unshaken
  intro entries parsed
  obtain ⟨bytes, fits, _, rising⟩ := parseIndex_ok parsed
  dsimp only
  apply Meets.bind
  rw [← content]
  refine meets_validateIndexEntries (by rw [path, found]) rising ?_ unshaken
  intro kept verdict
  cases kept with
  | false =>
    rw [content]
    exact rebuild
  | true =>
    have accepted := verdict.1 rfl
    have same : entries = (e.sampled interval).1 := by
      rcases sampled with empty | whole
      · -- an empty index is kept for an empty log only
        have absent : entries = [] := by
          rw [empty] at bytes
          have lengths := congrArg List.length bytes
          rw [encodeEntries_length, List.length_nil] at lengths
          exact List.length_eq_zero_iff.mp (by omega)
        rw [absent, content] at accepted
        have nothing : e.bytes = [] :=
          List.length_eq_zero_iff.mp (by simpa [indexAccepted] using accepted)
        rw [absent, Extent.sampled, (Extent.bytes_nil_iff measured.batches.filled).mp nothing]
        rfl
      · exact encodeEntries_injective fits (measured.sampled_fits interval) (bytes.symm.trans whole)
    apply Meets.pure
    refine returns _ d ⟨base, size, ?_, ?_, ⟨file, [], found, by rw [content, List.append_nil],
      rfl⟩, index, foundIndex, bytes⟩
      (Frame.refl _ _)
    · rw [same, last]
      exact Prod.ext rfl (e.sampled_last interval).symm
    · show seg.indexSize = entries.length * 12
      rw [indexSize, bytes, encodeEntries_length]

theorem meets_recoverSegment_sampled {config : Config} {active : Bool} {index : File} {left : Bytes}
    {holds : Segment × Nat → μ → Directory → Prop} {kept : Directory → Prop} (still : kept d)
    (measured : e.Measured) (setting : config.indexIntervalBytes = interval)
    (base : seg.baseOffset = e.base) (size : seg.size = file.data.length)
    (last : seg.lastIndexedPosition = -1) (found : d.file? (.log e.base) = some file)
    (content : file.data = e.bytes ++ left) (unfinished : Unfinished left)
    (foundIndex : d.file? (.index e.base) = some index)
    (indexSize : seg.indexSize = index.data.length) (sampled : SampledFile interval e index.data)
    (returns : ∀ seg' d',
      Indexed interval (· = []) e seg' d' → Frame e.base d d' → holds (seg', e.next) m d') :
    Meets (fun _ => False) (recoverSegment config seg active) m d (leaving holds kept) := by
  have path : seg.path = .log e.base := by rw [Segment.path, base]
  unfold recoverSegment
  rw [base]
  apply Meets.bind
  refine meets_scan_measured still [] e.batches measured rfl (by rw [path, found]) size content
    unfinished ?_
  intro maxTimestamp d' log others
  rw [path] at log others
  have scanned : Frame e.base d d' := fun other differs =>
    ⟨others _ (by simpa using differs), others _ (by simp)⟩
  apply Meets.bind
  rw [setting]
  refine meets_recoverIndex_sampled measured base rfl last log rfl
    (by rw [others _ (by simp), foundIndex]) indexSize sampled ?_
  exact fun seg' d'' indexed frame => Meets.pure (returns seg' d'' indexed (scanned.trans frame))

end Recovery

/-! ## Recovering all segments -/

structure Journal.Measured (J : Journal) : Prop where
  extents : ∀ e ∈ J.extents, e.Measured
  closed : ∀ batches ∈ J.closed, batches ≠ []

theorem Journal.Measured.rising {J : Journal} (measured : J.Measured) :
    J.extents.Pairwise fun a b => a.base < b.base :=
  J.rising measured.closed
    (Journal.filled fun e member => (measured.extents e member).batches.filled)

/-- The directory holds the journal's segments with their sampled index files and no other logs. -/
structure Shelved (interval : Int) (J : Journal) (d : Directory) : Prop where
  measured : J.Measured
  onDisk : ∀ e ∈ J.extents, OnDisk (SampledFile interval) Unfinished e d
  only : ∀ base, d.file? (.log base) ≠ none → ∃ e ∈ J.extents, e.base = base
  above : ∀ base, J.activeBase < base → d.file? (.index base) = none

section Shelved

variable {interval : Int} {J : Journal} {d d' : Directory}

theorem Shelved.named (shelved : Shelved interval J d) : Named J d := by
  refine fun base => ⟨shelved.only base, ?_⟩
  rintro ⟨e, member, rfl⟩
  obtain ⟨_, _, found, _⟩ := (shelved.onDisk e member).log
  simp [found]

theorem Shelved.sameSegments (shelved : Shelved interval J d) (same : SameSegments d d') :
    Shelved interval J d' :=
  ⟨shelved.measured, fun e member => (shelved.onDisk e member).sameSegments same,
    fun base found => shelved.only base (mt (none_of_same (same base).1).mpr found),
    fun base beyond => (none_of_same (same base).2).mpr (shelved.above base beyond)⟩

theorem Shelved.change {e : Extent} (shelved : Shelved interval J d) (member : e ∈ J.extents)
    (onDisk : OnDisk (SampledFile interval) Unfinished e d') (frame : Frame e.base d d') :
    Shelved interval J d' := by
  have ordered := shelved.measured.rising
  refine ⟨shelved.measured, ?_, ?_, ?_⟩
  · intro other present
    by_cases same : other.base = e.base
    · rw [J.same_base ordered present member same]
      exact onDisk
    · exact (shelved.onDisk other present).frame frame same
  · intro base found
    by_cases same : base = e.base
    · exact ⟨e, member, same.symm⟩
    · rw [(frame base same).1] at found
      exact shelved.only base found
  · intro base beyond
    have below := J.base_le ordered member
    rw [(frame base (by omega)).2]
    exact shelved.above base beyond

theorem indexed_all {tail tail' : Bytes → Prop} {extents : List Extent} {segments : List Segment}
    (indexed : List.Forall₂ (fun e seg => Indexed interval tail e seg d) extents segments)
    (change : ∀ e ∈ extents,
      ∀ seg, Indexed interval tail e seg d → Indexed interval tail' e seg d') :
    List.Forall₂ (fun e seg => Indexed interval tail' e seg d') extents segments := by
  have known := (List.forall₂_and_left (p := (· ∈ extents)) _ _).mpr ⟨fun _ member => member,
    indexed⟩
  exact known.imp fun e seg ⟨member, here⟩ => change e member seg here

end Shelved

section Loading

variable {μ : Type} {m : μ} {d : Directory} {interval : Int} {J : Journal} {config : Config}

theorem meets_loadSegments_sampled {segments : List Segment}
    {holds : List Segment × Nat → μ → Directory → Prop}
    (setting : config.indexIntervalBytes = interval) (done rest : List (List Batch))
    (shelved : Shelved interval J d) (split : J.closed ++ [J.active] = done ++ rest)
    (loaded : List.Forall₂ (fun e seg => Indexed interval (· = []) e seg d)
      (extentsFrom J.floor done) segments)
    (returns : ∀ segments' d', Shelved interval J d' →
      List.Forall₂ (fun e seg => Indexed interval (· = []) e seg d') J.extents segments' →
        holds (segments', J.logEnd) m d') :
    Meets (fun _ => False)
      (loadSegments config ((extentsFrom (J.floor + span done.flatten) rest).map Extent.base)
      (J.floor + span done.flatten) segments) m d (leaving holds (Shelved interval J)) := by
  induction rest generalizing done segments d with
  | nil =>
    rw [List.append_nil] at split
    have finish := returns segments d shelved (by rw [J.extents_eq, split]; exact loaded)
    rw [show J.logEnd = J.floor + span done.flatten by
      rw [← split]; simp [Journal.logEnd, Journal.batches]] at finish
    exact Meets.pure finish
  | cons batches rest ih =>
    obtain ⟨e, here⟩ : ∃ e : Extent, e = ⟨J.floor + span done.flatten, batches⟩ := ⟨_, rfl⟩
    have start : e.base = J.floor + span done.flatten := by rw [here]
    have next : e.next = J.floor + span (done ++ [batches]).flatten := by
      rw [here, Extent.next, List.flatten_append, span_append]
      simp [Nat.add_assoc]
    have parts : J.extents = extentsFrom J.floor done ++ e :: extentsFrom e.next rest := by
      rw [J.extents_eq, split, extentsFrom_append, here]
      rfl
    have member : e ∈ J.extents := by
      rw [parts]
      simp
    have others : ∀ other ∈ extentsFrom J.floor done, other.base ≠ e.base := by
      have ordered := shelved.measured.rising
      rw [parts] at ordered
      exact fun other earlier =>
        Nat.ne_of_lt ((List.pairwise_append.mp ordered).2.2 other earlier _ List.mem_cons_self)
    have opened := (shelved.onDisk e member).touched (.inl rfl) (.both (d := d))
    have touched : Frame e.base d ((d.touch (.log e.base)).touch (.index e.base)) :=
      Touched.both.frame
    have shelved' := shelved.change member opened touched
    rw [show extentsFrom (J.floor + span done.flatten) (batches :: rest) =
      e :: extentsFrom e.next rest by rw [here]; rfl,
      List.map_cons, loadSegments, if_neg (by rw [start]; simp)]
    apply Meets.bind
    apply Meets.onError
    refine meets_newSegment ?_ unshaken unshaken
    intro log index foundLog foundIndex
    obtain ⟨file, left, found, content, unfinished⟩ := opened.log
    rw [foundLog, Option.some.injEq] at found
    subst found
    apply Meets.bind
    apply Meets.onError
    refine (meets_recoverSegment_sampled (e := e) shelved' (shelved.measured.extents e member)
      setting rfl rfl rfl foundLog content unfinished foundIndex rfl (opened.index index foundIndex)
      ?_).mono (fun _ _ _ returned => returned) ?_
      (fun _ died => died)
    · intro seg d' indexed frame
      have framed := touched.trans frame
      have indexed' : Indexed interval (· = []) e { seg with nextOffset := e.next } d' :=
        { indexed with }
      have longer : List.Forall₂ (fun e seg => Indexed interval (· = []) e seg d')
          (extentsFrom J.floor (done ++ [batches]))
          (segments ++ [{ seg with nextOffset := e.next }]) := by
        rw [extentsFrom_append]
        refine List.rel_append
          (indexed_all loaded
            fun other earlier _ known => known.frame (framed _ (others other earlier))) ?_
        rw [here] at indexed' ⊢
        exact .cons indexed' .nil
      have later := ih (done ++ [batches])
        (shelved.change member (indexed.onDisk.weaken fun _ nothing => Or.inl nothing) framed)
        (by rw [split]; simp) longer
      rw [← next] at later
      exact later
    · exact fun _ _ _ kept => meets_closeAllOpenSegments kept unshaken

/-- An open store whose segments all have their sampled index, in memory and on disk. -/
structure Ready (interval : Int) (J : Journal) (s : Store) (d : Directory) : Prop where
  setting : s.config.indexIntervalBytes = interval
  limit : s.config.segmentMaxBytes ≤ maxInt64
  measured : J.Measured
  segments : List.Forall₂ (fun e seg => Indexed interval (· = []) e seg d) J.extents s.segments
  activeSegment : s.activeSegment = J.closed.length
  logEndOffset : s.logEndOffset = J.logEnd
  only : ∀ base, d.file? (.log base) ≠ none → ∃ e ∈ J.extents, e.base = base
  above : ∀ base, J.activeBase < base → d.file? (.index base) = none

def Shelf (interval : Int) (d : Directory) : Prop := Fresh d ∨ ∃ J, Shelved interval J d

theorem Shelf.sameSegments {d' : Directory} (shelf : Shelf interval d) (same : SameSegments d d') :
    Shelf interval d' :=
  shelf.imp (fun fresh => fresh.sameSegments same)
    fun ⟨J, shelved⟩ => ⟨J, shelved.sameSegments same⟩

theorem Journal.initial_measured : Journal.initial.Measured :=
  ⟨fun e member => by rw [List.mem_singleton.mp member]; exact Extent.measured_nil (by decide),
    fun _ member => by cases member⟩

theorem meets_openStore_sampled {holds : Store → μ → Directory → Prop} (shelf : Shelf interval d)
    (setting : config.indexIntervalBytes = interval) (limit : config.segmentMaxBytes ≤ maxInt64)
    (returns : ∀ J s d', Ready interval J s d' → holds s m d') :
    Meets (fun _ => False) (openStore config) m d (leaving holds (Shelf interval)) := by
  rcases shelf with fresh | ⟨J, shelved⟩
  · refine meets_openFresh fresh ?_ unshaken unshaken
    intro d' same
    have fresh' := fresh.sameSegments same
    refine meets_newSegment ?_ unshaken unshaken
    intro log index foundLog foundIndex
    have frame : Frame 0 d' ((d'.touch (.log 0)).touch (.index 0)) := Touched.both.frame
    have indexed :=
      @indexed_created interval _ _ true _ _ (fresh' 0).1
        (fun file found => ((fresh' 0).2 file found).2)
      foundLog foundIndex
    refine returns Journal.initial _ _ ⟨setting, limit, Journal.initial_measured,
      .cons indexed .nil, rfl, rfl, ?_, ?_⟩
    · intro base found
      by_cases zero : base = 0
      · exact ⟨_, List.mem_singleton_self _, zero.symm⟩
      · rw [(frame base zero).1] at found
        exact absurd (fresh' base).1 found
    · intro base above
      rw [(frame base (Nat.ne_of_gt above)).2]
      by_contra found
      obtain ⟨file, there⟩ := Option.ne_none_iff_exists'.mp found
      exact absurd ((fresh' base).2 file there).1 (Nat.ne_of_gt above)
  · refine meets_openSegments shelved.measured.rising shelved.named ?_ unshaken unshaken
    intro d' same
    have load := @meets_loadSegments_sampled _ m d' interval J config []
      (fun loaded m' d'' =>
        holds ⟨config, false, false, loaded.1, loaded.1.length - 1, loaded.2, J.floor⟩ m' d'')
      setting [] (J.closed ++ [J.active]) (shelved.sameSegments same) rfl .nil ?_
    · rw [List.flatten_nil, span_nil, Nat.add_zero, ← J.extents_eq] at load
      exact load.mono (fun _ _ _ returned => returned) (fun _ _ _ kept => Or.inr ⟨J, kept⟩)
        fun _ kept => Or.inr ⟨J, kept⟩
    · intro segments d'' kept indexed
      have length : segments.length - 1 = J.closed.length := by
        rw [← indexed.length_eq, J.extents_eq, extentsFrom_length]
        simp
      exact returns J _ d'' ⟨setting, limit, kept.measured, indexed, length, rfl, kept.only,
        kept.above⟩

end Loading

end MessageBroker.Storage
