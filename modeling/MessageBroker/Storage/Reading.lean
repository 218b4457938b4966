import MessageBroker.Storage.Represent

namespace MessageBroker.Storage

open Faulty Program BigEndian

/-! ## The records of a journal -/

def Journal.records (J : Journal) : List StoredRecord := storedFrom J.floor J.batches

def Consecutive (start : Nat) (records : List StoredRecord) : Prop :=
  ∀ i r, records[i]? = some r → r.offset = start + i

section Records

variable {start : Nat} {r : StoredRecord} {records left right : List StoredRecord}
  {batches : List Batch} {J : Journal}

theorem Consecutive.head (consecutive : Consecutive start (r :: records)) : r.offset = start :=
  consecutive 0 r rfl

theorem Consecutive.tail (consecutive : Consecutive start (r :: records)) :
    Consecutive (start + 1) records := by
  intro i other found
  have offset := consecutive (i + 1) other found
  omega

theorem Consecutive.append (first : Consecutive start left)
    (second : Consecutive (start + left.length) right) :
    Consecutive start (left ++ right) := by
  intro i r found
  by_cases inside : i < left.length
  · rw [List.getElem?_append_left inside] at found
    exact first i r found
  · rw [List.getElem?_append_right (by omega)] at found
    have offset := second _ r found
    omega

theorem Consecutive.drop (consecutive : Consecutive start records) (count : Nat) :
    Consecutive (start + count) (records.drop count) := by
  intro i r found
  rw [List.getElem?_drop] at found
  have offset := consecutive _ r found
  omega

theorem Consecutive.mem_lt (consecutive : Consecutive start records) (member : r ∈ records) :
    start ≤ r.offset ∧ r.offset < start + records.length := by
  obtain ⟨i, inside, found⟩ := List.getElem_of_mem member
  have offset := consecutive i r (by rw [List.getElem?_eq_getElem inside, found])
  omega

theorem Batch.stored_consecutive {b : Batch} {base : Nat} (valid : b.Valid base) :
    Consecutive base (b.stored base) := by
  intro i r found
  have inside : i < b.records.length := by
    rw [← b.stored_length base]
    exact (List.getElem?_eq_some_iff.mp found).1
  have offsets := valid.offsets
  rw [Batch.stored_get (List.getElem?_eq_getElem inside), Option.some.injEq] at found
  rw [← found]
  exact uint64_of_nat (by omega)

theorem storedFrom_length (base : Nat) (batches : List Batch) :
    (storedFrom base batches).length = span batches := by
  induction batches generalizing base with
  | nil => rfl
  | cons b rest ih =>
    rw [storedFrom, spread, List.length_append, Batch.stored_length, ← storedFrom, ih, span_cons]

theorem storedFrom_consecutive (valid : ValidFrom start batches) :
    Consecutive start (storedFrom start batches) := by
  induction batches generalizing start with
  | nil => exact fun i r found => by simp [storedFrom, spread] at found
  | cons b rest ih =>
    refine (b.stored_consecutive valid.1).append ?_
    rw [Batch.stored_length]
    exact ih valid.2

theorem Journal.records_length (J : Journal) : J.floor + J.records.length = J.logEnd := by
  rw [Journal.records, storedFrom_length, Journal.logEnd]

theorem extentsFrom_records (base : Nat) (pieces : List (List Batch)) :
    (extentsFrom base pieces).flatMap Extent.records = storedFrom base pieces.flatten := by
  induction pieces generalizing base with
  | nil => rfl
  | cons batches pieces ih =>
    rw [extentsFrom, List.flatMap_cons, ih, List.flatten_cons, storedFrom, spread_append]
    rfl

theorem Journal.records_eq (J : Journal) : J.records = J.extents.flatMap Extent.records := by
  rw [J.extents_eq, extentsFrom_records]
  simp [Journal.records, Journal.batches]

theorem Journal.Valid.validFrom (valid : J.Valid) : ValidFrom J.floor J.batches := by
  have pieces : ∀ (pieces : List (List Batch)) (base : Nat),
      (∀ e ∈ extentsFrom base pieces, e.Valid) →
      ValidFrom base pieces.flatten := by
    intro pieces
    induction pieces with
    | nil => exact fun _ _ => trivial
    | cons batches pieces ih =>
      intro base all
      rw [List.flatten_cons, validFrom_append]
      exact ⟨(all ⟨base, batches⟩ List.mem_cons_self).batches,
        ih _ fun e member => all e (List.mem_cons_of_mem _ member)⟩
  have whole := pieces (J.closed ++ [J.active]) J.floor
    (by rw [← J.extents_eq]; exact valid.extents)
  simpa [Journal.batches] using whole

theorem Journal.Valid.consecutive (valid : J.Valid) : Consecutive J.floor J.records :=
  storedFrom_consecutive valid.validFrom

end Records

/-! ## What a read gives -/

def fitting (maxBytes : Int) : Nat → List StoredRecord → List StoredRecord
  | _, [] => []
  | used, r :: rest =>
    if maxBytes < used + recordSize r then [] else r :: fitting maxBytes (used + recordSize r) rest

/-- The first record whatever its size, and after it the longest prefix that fits. -/
def greedy (maxBytes : Int) : List StoredRecord → List StoredRecord
  | [] => []
  | r :: rest => r :: fitting maxBytes (recordSize r) rest

section Greedy

variable {maxBytes : Int} {left right records : List StoredRecord} {cursor : ReadCursor}

theorem takeRecords_append_true {stopped : ReadCursor}
    (whole : takeRecords maxBytes left cursor = (stopped, true)) :
    takeRecords maxBytes (left ++ right) cursor = (stopped, true) := by
  induction left generalizing cursor with
  | nil => cases whole
  | cons r left ih =>
    rw [List.cons_append]
    unfold takeRecords at whole ⊢
    split_ifs at whole ⊢
    · exact ih whole
    · exact whole
    · exact ih whole

theorem takeRecords_append_false {after : ReadCursor}
    (whole : takeRecords maxBytes left cursor = (after, false)) :
    takeRecords maxBytes (left ++ right) cursor = takeRecords maxBytes right after := by
  induction left generalizing cursor with
  | nil =>
    cases whole
    rfl
  | cons r left ih =>
    rw [List.cons_append]
    unfold takeRecords at whole
    rw [takeRecords]
    split_ifs at whole ⊢
    · exact ih whole
    · cases whole
    · exact ih whole

theorem takeRecords_skip (below : ∀ r ∈ left, r.offset < cursor.currOffset) :
    takeRecords maxBytes (left ++ right) cursor = takeRecords maxBytes right cursor := by
  induction left with
  | nil => rfl
  | cons r left ih =>
    rw [List.cons_append, takeRecords, if_pos (below r List.mem_cons_self)]
    exact ih fun other member => below other (List.mem_cons_of_mem _ member)

theorem takeRecords_fitting (consecutive : Consecutive cursor.currOffset records)
    (room : cursor.currOffset + records.length < 2 ^ 64) (nonempty : cursor.result ≠ []) :
    (takeRecords maxBytes records cursor).1.result =
      cursor.result ++ fitting maxBytes cursor.accumulatedBytes records := by
  induction records generalizing cursor with
  | nil => simp [takeRecords, fitting]
  | cons r rest ih =>
    have offset := consecutive.head
    rw [List.length_cons] at room
    rw [takeRecords, if_neg (by omega), fitting]
    by_cases full : maxBytes < cursor.accumulatedBytes + recordSize r
    · rw [if_pos ⟨nonempty, by exact_mod_cast full⟩, if_pos (by exact_mod_cast full),
        List.append_nil]
    · have next : uint64 (r.offset + 1) = cursor.currOffset + 1 := by
        rw [offset, ← Nat.cast_succ, uint64_of_nat (by omega)]
      rw [if_neg fun both => full (by exact_mod_cast both.2), if_neg (by exact_mod_cast full), next,
        ih]
      · simp
      · exact consecutive.tail
      · show cursor.currOffset + 1 + rest.length < 2 ^ 64
        omega
      · simp

theorem takeRecords_greedy {offset : Nat} (consecutive : Consecutive offset records)
    (room : offset + records.length < 2 ^ 64) :
    (takeRecords maxBytes records ⟨[], 0, offset⟩).1.result = greedy maxBytes records := by
  cases records with
  | nil => rfl
  | cons r rest =>
    have start := consecutive.head
    rw [List.length_cons] at room
    have next : uint64 (r.offset + 1) = offset + 1 := by
      rw [start, ← Nat.cast_succ, uint64_of_nat (by omega)]
    rw [takeRecords, if_neg (by show ¬ r.offset < offset; omega), if_neg (by simp), next,
      takeRecords_fitting]
    · simp [greedy]
    · exact consecutive.tail
    · show offset + 1 + rest.length < 2 ^ 64
      omega
    · simp

end Greedy

/-! ## Reading a segment -/

section Segment

variable {e : Extent} {seg : Segment} {d : Directory}

theorem Mirrors.startPosition (mirrors : Mirrors e seg d) (valid : e.Valid) (offset : Nat) :
    ∃ before rest,
      e.batches = before ++ rest ∧ seg.startPosition offset = (layout e.base before).length ∧
      (before = [] ∨ e.base + span before ≤ offset) := by
  have entry : ∀ j,
      j < seg.indexEntries.length → seg.indexEntries.getD j ⟨0, 0⟩ ∈ seg.indexEntries := by
    intro j inside
    rw [List.getD_eq_getElem _ _ inside]
    exact List.getElem_mem inside
  have plain : ∀ j, j < seg.indexEntries.length →
      uint64 (seg.baseOffset + (seg.indexEntries.getD j ⟨0, 0⟩).relativeOffset) =
        e.base + (seg.indexEntries.getD j ⟨0, 0⟩).relativeOffset := by
    intro j inside
    have bound := (Extent.Boundary.position_lt valid.filled
      (mirrors.sound.boundary _ (entry j inside))).1
    have top := valid.next_lt
    rw [Extent.next] at top
    rw [mirrors.base, ← Nat.cast_add, uint64_of_nat (by omega)]
  have rising : BinarySearch.Rising seg.indexEntries.length fun j =>
      decide (offset <
        uint64 (seg.baseOffset + (seg.indexEntries.getD j ⟨0, 0⟩).relativeOffset)) := by
    intro i j order inside test
    rw [decide_eq_true_eq, plain i (by omega), List.getD_eq_getElem _ _ (by omega)] at test
    rw [decide_eq_true_eq, plain j inside, List.getD_eq_getElem _ _ inside]
    rcases Nat.eq_or_lt_of_le order with rfl | less
    · exact test
    · have step := (List.pairwise_iff_getElem.mp mirrors.sound.rising i j (by omega) inside less).1
      omega
  obtain ⟨bound, below, _⟩ := BinarySearch.search_spec rising
  unfold Segment.startPosition
  dsimp only
  split_ifs with positive
  · have test := below _ (Nat.sub_lt positive Nat.one_pos)
    rw [decide_eq_false_iff_not, plain _ (by omega)] at test
    obtain ⟨before, b, after, batches, position⟩ :=
      mirrors.sound.boundary _ (entry _ (Nat.lt_of_lt_of_le
      (Nat.sub_lt positive Nat.one_pos) bound))
    rw [position] at test
    exact ⟨before, b :: after, batches, congrArg IndexEntry.position position,
      Or.inr (Nat.not_lt.mp test)⟩
  · exact ⟨[], e.batches, rfl, rfl, Or.inl rfl⟩

variable {μ : Type} {allowed : Fault → Prop} {m : μ} {maxBytes : Int}

theorem meets_readBatches {before : List Batch} (rest : List Batch) {cursor : ReadCursor}
    {post : Post μ Directory StoreError (ReadCursor × Bool)} (mirrors : Mirrors e seg d)
    (valid : e.Valid) (split : e.batches = before ++ rest)
    (returns : post.returns (takeRecords maxBytes (storedFrom (e.base + span before) rest) cursor) m
      d)
    (fails : Shaky allowed ∨ (∃ b ∈ rest, ¬ b.Readable) → ∀ reason, post.fails reason m d)
    (dies : Shaky allowed → post.dies d) :
    Meets allowed (readBatches maxBytes seg (layout e.base before).length cursor) m d post := by
  obtain ⟨log, found, content⟩ := mirrors.log
  induction rest generalizing before cursor with
  | nil =>
    have finished : ¬ (layout e.base before).length < seg.size := by
      rw [mirrors.size, Extent.bytes, split, List.append_nil]
      exact Nat.lt_irrefl _
    unfold readBatches
    rw [dif_neg finished]
    exact Meets.pure returns
  | cons b rest ih =>
    have all := valid.batches
    rw [split] at all
    have here := all.middle
    have length := b.bytes_length here
    have large := b.size_ge here
    have shape : e.bytes = layout e.base before ++ (b.bytes (e.base + span before) ++
        layout (e.base + span before + b.records.length) rest) := by
      rw [Extent.bytes, split, layout, spread_append, spread]
    have room : (layout e.base before).length + b.size ≤ seg.size := by
      rw [mirrors.size, shape, List.length_append, List.length_append, length]
      omega
    have whole : log.data.length = seg.size := by rw [content, mirrors.size]
    have piece : ∀ count, count ≤ b.size →
        (log.data.drop (layout e.base before).length).take count =
          (b.bytes (e.base + span before)).take count := by
      intro count few
      rw [content, shape, List.drop_left, List.take_append_of_le_length (by omega)]
    have batch : 9 + get ((((b.bytes (e.base + span before)).take 9).drop 5).take 4) = b.size := by
      rw [b.length_field here.placed here.fits (le_refl 9)]
      omega
    have next : (layout e.base before).length + b.size =
        (layout e.base (before ++ [b])).length := by
      rw [layout, spread_append, List.length_append, spread, spread, List.append_nil, length]
    unfold readBatches
    rw [dif_pos (by omega), if_neg (by omega), Segment.readAt, Segment.path, mirrors.base]
    apply Meets.bind
    refine meets_readAt found (by omega) ?_ (fun shaky => fails (Or.inl shaky) _) dies
    rw [piece 9 (by omega)]
    dsimp only
    rw [batch, if_neg (by omega), Segment.readAt, Segment.path, mirrors.base]
    apply Meets.bind
    refine meets_readAt found (by omega) ?_ (fun shaky => fails (Or.inl shaky) _) dies
    rw [piece b.size (le_refl _), List.take_of_length_le (by omega)]
    apply Meets.bind
    unfold decoded
    by_cases readable : b.Readable
    case neg =>
      rw [b.decode_unreadable here readable]
      exact Meets.throw (fails (Or.inr ⟨b, List.mem_cons_self, readable⟩) _)
    rw [b.decode_readable here readable]
    apply Meets.pure
    rw [storedFrom, spread] at returns
    dsimp only
    rcases taken : takeRecords maxBytes (b.stored (e.base + span before)) cursor
      with ⟨after, stopped⟩
    cases stopped with
    | true =>
      rw [takeRecords_append_true taken] at returns
      exact Meets.pure returns
    | false =>
      rw [takeRecords_append_false taken, Nat.add_assoc] at returns
      rw [next]
      refine ih (by rw [split, List.append_assoc]; rfl) ?_ ?_
      · rw [span_append, span_cons, span_nil, Nat.add_zero]
        exact returns
      · rintro (shaky | ⟨other, member, bad⟩)
        · exact fails (Or.inl shaky)
        · exact fails (Or.inr ⟨other, List.mem_cons_of_mem _ member, bad⟩)

theorem meets_readSegments {extents : List Extent} {segments : List Segment} {cursor : ReadCursor}
    {post : Post μ Directory StoreError (List StoredRecord)}
    (mirrors : List.Forall₂ (fun e seg => Mirrors e seg d) extents segments)
    (valid : ∀ e ∈ extents, e.Valid)
    (returns : post.returns (takeRecords maxBytes (extents.flatMap Extent.records) cursor).1.result
      m d)
    (fails : Shaky allowed ∨ (∃ e ∈ extents, ∃ b ∈ e.batches, ¬ b.Readable) →
      ∀ reason, post.fails reason m d)
    (dies : Shaky allowed → post.dies d) :
    Meets allowed (readSegments maxBytes segments cursor) m d post := by
  induction mirrors generalizing cursor with
  | nil => exact Meets.pure returns
  | @cons e seg extents segments head _ ih =>
    have here := valid e List.mem_cons_self
    obtain ⟨before, rest, split, position, start⟩ := head.startPosition here cursor.currOffset
    have all := here.batches
    rw [split, validFrom_append] at all
    have skipped : ∀ r ∈ storedFrom e.base before, r.offset < cursor.currOffset := by
      intro r member
      rcases start with rfl | low
      · cases member
      · have bound := ((storedFrom_consecutive all.1).mem_lt member).2
        rw [storedFrom_length] at bound
        omega
    have records :
        e.records = storedFrom e.base before ++ storedFrom (e.base + span before) rest := by
      rw [Extent.records, split, storedFrom, spread_append]
    rw [List.flatMap_cons, records, List.append_assoc, takeRecords_skip skipped] at returns
    unfold readSegments
    apply Meets.bind
    rw [position]
    refine meets_readBatches rest head here split ?_ ?_ dies
    · dsimp only
      rcases taken : takeRecords maxBytes (storedFrom (e.base + span before) rest) cursor
        with ⟨after, stopped⟩
      cases stopped with
      | true =>
        rw [takeRecords_append_true taken] at returns
        exact Meets.pure returns
      | false =>
        rw [takeRecords_append_false taken] at returns
        refine ih (fun other member => valid other (List.mem_cons_of_mem _ member)) returns ?_
        rintro (shaky | ⟨other, member, bad⟩)
        · exact fails (Or.inl shaky)
        · exact fails (Or.inr ⟨other, List.mem_cons_of_mem _ member, bad⟩)
    · rintro (shaky | ⟨b, member, bad⟩)
      · exact fails (Or.inl shaky)
      · refine fails (Or.inr ⟨e, List.mem_cons_self, b, ?_, bad⟩)
        rw [split]
        exact List.mem_append_right _ member

end Segment

/-! ## Reading a store -/

inductive ReadRefused (s : Store) (offset : Nat) (maxBytes : Int) : StoreError → Prop where
  | limit : maxBytes ≤ 0 → ReadRefused s offset maxBytes (.maxBytesNotPositive maxBytes)
  | closed : s.closed = true → ReadRefused s offset maxBytes .storeClosed
  | poisoned : s.writeFailed = true → ReadRefused s offset maxBytes .storeCorrupt
  | outOfRange : offset < s.earliestOffset ∨ s.logEndOffset < offset →
    ReadRefused s offset maxBytes .offsetOutOfRange

section Read

variable {limit : Int} {J : Journal} {s : Store} {d : Directory} {allowed : Fault → Prop}
  {offset : Nat} {maxBytes : Int}

theorem extentsFrom_ordered (base : Nat) (pieces : List (List Batch)) :
    (extentsFrom base pieces).Pairwise fun a b => a.next ≤ b.base := by
  induction pieces generalizing base with
  | nil => exact List.Pairwise.nil
  | cons batches pieces ih =>
    refine List.pairwise_cons.mpr ⟨?_, ih _⟩
    intro e member
    obtain ⟨_, _, _, start⟩ := mem_extentsFrom member
    rw [start, Extent.next]
    exact Nat.le_add_right _ _

theorem Journal.Valid.taken (valid : J.Valid) (low : J.floor ≤ offset) (high : offset ≤ J.logEnd) :
    (takeRecords maxBytes J.records ⟨[], 0, offset⟩).1.result =
      greedy maxBytes (J.records.drop (offset - J.floor)) := by
  have whole := J.records_length
  have top := valid.logEnd_lt
  have front : ∀ r ∈ J.records.take (offset - J.floor),
      r.offset < (⟨[], 0, offset⟩ : ReadCursor).currOffset := by
    intro r member
    obtain ⟨i, inside, found⟩ := List.getElem_of_mem member
    rw [List.length_take] at inside
    have place := valid.consecutive i r
      (by rw [← found, List.getElem_take, List.getElem?_eq_getElem])
    show r.offset < offset
    omega
  have rest := valid.consecutive.drop (offset - J.floor)
  rw [Nat.add_sub_cancel' low] at rest
  rw [← takeRecords_greedy rest (by rw [List.length_drop]; omega)]
  conv_lhs => rw [← List.take_append_drop (offset - J.floor) J.records]
  rw [takeRecords_skip front]

theorem Represents.located (represents : Represents limit J s d) (below : offset < J.logEnd) :
    ∃ segIdx, BinarySearch.search s.segments.length
        (fun i => decide (offset < (s.segments.getD i default).nextOffset)) = segIdx ∧
        segIdx < s.segments.length ∧
      ∀ r ∈ (J.extents.take segIdx).flatMap Extent.records, r.offset < offset := by
  have count : J.extents.length = s.segments.length := represents.segments.length_eq
  have nexts : ∀ i (inside : i < J.extents.length),
      (s.segments.getD i default).nextOffset = J.extents[i].next := by
    intro i inside
    rw [List.getD_eq_getElem _ _ (by omega)]
    exact (represents.segments.get inside (by omega)).next
  have rising : BinarySearch.Rising s.segments.length
      fun i => decide (offset < (s.segments.getD i default).nextOffset) := by
    intro i j order inside test
    rw [decide_eq_true_eq, nexts i (by omega)] at test
    rw [decide_eq_true_eq, nexts j (by omega)]
    rcases Nat.eq_or_lt_of_le order with rfl | less
    · exact test
    · have ordered := extentsFrom_ordered J.floor (J.closed ++ [J.active])
      rw [← J.extents_eq] at ordered
      have step := List.pairwise_iff_getElem.mp ordered i j (by omega) (by omega) less
      have grows : J.extents[j].base ≤ J.extents[j].next := Nat.le_add_right _ _
      omega
  obtain ⟨bound, earlier, _⟩ := BinarySearch.search_spec rising
  refine ⟨_, rfl, ?_, ?_⟩
  · -- the active segment ends at the log's end, above the offset
    by_contra nothing
    have size : J.extents.length = J.closedExtents.length + 1 := List.length_append
    have test := earlier (s.segments.length - 1) (by omega)
    rw [decide_eq_false_iff_not, nexts _ (by omega)] at test
    have final : J.extents[s.segments.length - 1] = J.activeExtent := by
      have place : s.segments.length - 1 = J.closedExtents.length := by omega
      simp [Journal.extents, place]
    rw [final, ← J.logEnd_eq] at test
    exact test below
  · intro r member
    obtain ⟨e, taken, inside⟩ := List.mem_flatMap.mp member
    obtain ⟨i, small, found⟩ := List.getElem_of_mem taken
    rw [List.length_take] at small
    rw [List.getElem_take] at found
    have test := earlier i (by omega)
    rw [decide_eq_false_iff_not, nexts i (by omega), found] at test
    have here := represents.valid.extents e (by rw [← found]; exact List.getElem_mem _)
    have upper := ((storedFrom_consecutive here.batches).mem_lt inside).2
    rw [storedFrom_length, ← Extent.next] at upper
    omega

/-- A read gives the records from its offset on, as many as fit. -/
theorem meets_read {post : Post Store Directory StoreError (List StoredRecord)}
    (represents : Represents limit J s d)
    (refused : ∀ reason, ReadRefused s offset maxBytes reason → post.fails reason s d)
    (returns : 0 < maxBytes →
      s.closed = false → s.writeFailed = false → J.floor ≤ offset → offset ≤ J.logEnd →
      post.returns (greedy maxBytes (J.records.drop (offset - J.floor))) s d)
    (fails : Shaky allowed ∨ (∃ b ∈ J.batches, ¬ b.Readable) → ∀ reason, post.fails reason s d)
    (dies : Shaky allowed → post.dies d) :
    Meets allowed (read offset maxBytes) s d post := by
  unfold read
  split_ifs with tooSmall
  · exact Meets.throw (refused _ (.limit tooSmall))
  apply Meets.bind
  apply Meets.memory
  dsimp only
  split_ifs with closed poisoned outside last nothing
  · exact Meets.throw (refused _ (.closed closed))
  · exact Meets.throw (refused _ (.poisoned poisoned))
  · exact Meets.throw (refused _ (.outOfRange outside))
  all_goals
    rw [represents.earliestOffset, represents.logEndOffset] at outside
    rw [represents.logEndOffset] at last
    have range : J.floor ≤ offset ∧ offset ≤ J.logEnd := by omega
    have given := returns (not_le.mp tooSmall) (by simpa using closed) (by simpa using poisoned)
      range.1 range.2
  · have whole := J.records_length
    rw [List.drop_eq_nil_of_le (by omega)] at given
    exact Meets.pure given
  all_goals obtain ⟨segIdx, located, inside, early⟩ :=
    represents.located (Nat.lt_of_le_of_ne range.2 last)
  · rw [located] at nothing
    omega
  · rw [← represents.valid.taken range.1 range.2, J.records_eq,
      ← List.take_append_drop segIdx J.extents, List.flatMap_append, takeRecords_skip early]
      at given
    rw [located]
    refine meets_readSegments (List.forall₂_drop segIdx represents.segments) ?_ given ?_ dies
    · exact fun e member => represents.valid.extents e (List.mem_of_mem_drop member)
    · rintro (shaky | ⟨e, member, b, inside, bad⟩)
      · exact fails (Or.inl shaky)
      · exact fails (Or.inr ⟨b, J.mem_batches (List.mem_of_mem_drop member) inside, bad⟩)

end Read

end MessageBroker.Storage
