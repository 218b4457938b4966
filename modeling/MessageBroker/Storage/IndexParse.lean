import MessageBroker.Storage.DiskState

namespace MessageBroker.Storage

open BigEndian

/-! ## Entries and their bytes -/

def IndexEntry.Fits (entry : IndexEntry) : Prop :=
  entry.relativeOffset < 2 ^ 32 ∧ entry.position ≤ maxInt64

theorem IndexEntry.encode_injective {a b : IndexEntry} (left : a.Fits) (right : b.Fits)
    (same : a.encode = b.encode) : a = b := by
  unfold IndexEntry.Fits maxInt64 at left right
  obtain ⟨relatives, positions⟩ := List.append_inj same (by rw [put_length, put_length])
  have relative := congrArg get relatives
  have position := congrArg get positions
  rw [get_put_four left.1, get_put_four right.1] at relative
  rw [get_put_eight (by omega), get_put_eight (by omega)] at position
  cases a
  cases b
  simp_all

theorem encodeEntries_injective {left right : List IndexEntry}
    (leftFits : ∀ entry ∈ left, entry.Fits) (rightFits : ∀ entry ∈ right, entry.Fits)
    (same : encodeEntries left = encodeEntries right) : left = right := by
  induction left generalizing right with
  | nil =>
    have lengths := congrArg List.length same
    simp only [encodeEntries_length, List.length_nil] at lengths
    exact (List.length_eq_zero_iff.mp (by omega)).symm
  | cons a left ih =>
    cases right with
    | nil =>
      have lengths := congrArg List.length same
      simp only [encodeEntries_length, List.length_nil, List.length_cons] at lengths
      omega
    | cons b right =>
      obtain ⟨head, tail⟩ :=
        List.append_inj
          (show a.encode ++ encodeEntries left = b.encode ++ encodeEntries right from same)
        (by simp)
      rw [IndexEntry.encode_injective (leftFits a List.mem_cons_self)
        (rightFits b List.mem_cons_self) head,
        ih (fun entry member => leftFits entry (List.mem_cons_of_mem _ member))
          (fun entry member => rightFits entry (List.mem_cons_of_mem _ member)) tail]

/-! ## The entry loop -/

theorem field_length {data : Bytes} {offset width : Nat} (inside : offset + width ≤ data.length) :
    ((data.drop offset).take width).length = width := by
  rw [List.length_take, List.length_drop]
  omega

theorem put_field {data : Bytes} {offset width : Nat} (inside : offset + width ≤ data.length) :
    put width (get ((data.drop offset).take width)) = (data.drop offset).take width := by
  have whole := put_get_self ((data.drop offset).take width)
  rwa [field_length inside] at whole

def IndexEntry.Before (a b : IndexEntry) : Prop :=
  a.relativeOffset < b.relativeOffset ∧ a.position < b.position

theorem readEntries_step {buffer : Bytes} {remaining i lastRel lastPos : Nat}
    {entries : List IndexEntry}
    (parsed : readEntries buffer (remaining + 1) i lastRel lastPos = .ok entries) :
    ∃ entry rest, entries = entry :: rest ∧
      entry = ⟨get ((buffer.drop (i * 12)).take 4), get ((buffer.drop (i * 12 + 4)).take 8)⟩ ∧
      (0 < i → IndexEntry.Before ⟨lastRel, lastPos⟩ entry) ∧ (i = 0 → entry = ⟨0, 0⟩) ∧
      entry.position ≤ maxInt64 ∧
      readEntries buffer remaining (i + 1) entry.relativeOffset entry.position = .ok rest := by
  rw [readEntries] at parsed
  split at parsed
  · cases parsed
  · rename_i offsetRises
    split at parsed
    · cases parsed
    · rename_i positionRises
      split at parsed
      · cases parsed
      · rename_i firstZero
        split at parsed
        · cases parsed
        · rename_i small
          cases tail : readEntries buffer remaining (i + 1) (get ((buffer.drop (i * 12)).take 4))
              (get ((buffer.drop (i * 12 + 4)).take 8)) with
          | error reason => rw [tail] at parsed; cases parsed
          | ok rest =>
            rw [tail] at parsed
            refine ⟨_, rest, (Except.ok.inj parsed).symm, rfl, ?_, ?_, not_lt.mp small, tail⟩
            · intro later
              exact ⟨by dsimp only; omega, by dsimp only; omega⟩
            · intro first
              rw [IndexEntry.mk.injEq]
              exact ⟨by omega, by omega⟩

/-- The entries the loop returns are the buffer's bytes and come in rising order. -/
theorem readEntries_ok {buffer : Bytes} {remaining i lastRel lastPos : Nat}
    {entries : List IndexEntry}
    (parsed : readEntries buffer remaining i lastRel lastPos = .ok entries)
    (inside : (i + remaining) * 12 ≤ buffer.length) :
    (buffer.drop (i * 12)).take (remaining * 12) = encodeEntries entries ∧
      (∀ entry ∈ entries, entry.Fits) ∧
      (0 < i → ∀ entry ∈ entries, IndexEntry.Before ⟨lastRel, lastPos⟩ entry) ∧
      (i = 0 → ∀ entry ∈ entries.head?, entry = ⟨0, 0⟩) ∧ entries.Pairwise IndexEntry.Before := by
  induction remaining generalizing i lastRel lastPos entries with
  | zero =>
    cases parsed
    simp [encodeEntries]
  | succ remaining ih =>
    obtain ⟨entry, rest, rfl, fields, later, first, small, tail⟩ := readEntries_step parsed
    obtain ⟨bytes, fits, above, _, rising⟩ := ih tail (by omega)
    have relative : put 4 entry.relativeOffset = (buffer.drop (i * 12)).take 4 := by
      rw [fields]
      exact put_field (by omega)
    have position : put 8 entry.position = (buffer.drop (i * 12 + 4)).take 8 := by
      rw [fields]
      exact put_field (by omega)
    have bound : entry.relativeOffset < 2 ^ 32 := by
      rw [fields]
      have below := get_lt ((buffer.drop (i * 12)).take 4)
      rw [field_length (by omega)] at below
      exact below
    refine ⟨?_, ?_, ?_, ?_, ?_⟩
    · rw [encodeEntries, List.flatMap_cons, IndexEntry.encode, relative, position]
      rw [encodeEntries] at bytes
      rw [← bytes, show (remaining + 1) * 12 = 4 + (8 + remaining * 12) by omega, List.take_add,
        List.take_add, List.drop_drop, List.drop_drop, List.append_assoc,
        show i * 12 + 4 + 8 = (i + 1) * 12 by omega]
    · intro other member
      rcases List.mem_cons.mp member with rfl | member
      · exact ⟨bound, small⟩
      · exact fits other member
    · intro positive other member
      rcases List.mem_cons.mp member with rfl | member
      · exact later positive
      · have head := later positive
        have step := above (by omega) other member
        exact ⟨lt_trans head.1 step.1, lt_trans head.2 step.2⟩
    · intro zero other member
      rw [List.head?_cons, Option.mem_some_iff] at member
      rw [← member]
      exact first zero
    · exact List.pairwise_cons.mpr ⟨above (by omega), rising⟩

theorem parseIndex_ok {data : Bytes} {entries : List IndexEntry}
    (parsed : parseIndex data = .ok entries) :
    data = encodeEntries entries ∧ (∀ entry ∈ entries, entry.Fits) ∧
      (∀ entry ∈ entries.head?, entry = ⟨0, 0⟩) ∧ entries.Pairwise IndexEntry.Before := by
  unfold parseIndex at parsed
  split at parsed
  · rename_i empty
    cases parsed
    rw [List.length_eq_zero_iff] at empty
    simp [empty, encodeEntries]
  · split at parsed
    · cases parsed
    · rename_i whole
      split at parsed
      · cases parsed
      · have precise : data.length / 12 * 12 = data.length := by omega
        obtain ⟨bytes, fits, _, first, rising⟩ := readEntries_ok parsed (by omega)
        rw [Nat.zero_mul, List.drop_zero, precise, List.take_length] at bytes
        exact ⟨bytes, fits, first rfl, rising⟩

/-! ## Boundaries -/

theorem layout_length_le {base : Nat} {batches : List Batch} (valid : ValidFrom base batches) :
    (layout base batches).length ≤ span batches * (2 ^ 31 - 1) := by
  induction batches generalizing base with
  | nil => simp [layout, spread]
  | cons b batches ih =>
    have tail := ih valid.2
    have nonempty : 0 < b.records.length := List.length_pos_iff.mpr valid.1.someRecord
    have small := valid.1.small
    unfold layout at tail ⊢
    rw [spread, List.length_append, b.bytes_length valid.1, span_cons, Nat.add_mul]
    have step : 2 ^ 31 - 1 ≤ b.records.length * (2 ^ 31 - 1) := Nat.le_mul_of_pos_left _ nonempty
    omega

theorem Extent.Boundary.fits {e : Extent} {entry : IndexEntry} (valid : e.Valid)
    (boundary : e.Boundary entry) :
    entry.Fits := by
  obtain ⟨before, b, after, split, rfl⟩ := boundary
  have all := valid.batches
  rw [split, validFrom_append] at all
  have bytes := layout_length_le all.1
  have relative := valid.relative before b after split
  unfold maxUint32 at relative
  have bound : span before * (2 ^ 31 - 1) ≤ (2 ^ 32 - 1) * (2 ^ 31 - 1) :=
    Nat.mul_le_mul_right _ relative
  refine ⟨?_, ?_⟩
  · dsimp only
    omega
  · unfold maxInt64
    dsimp only
    omega

theorem IndexHolds.parsed {e : Extent} {known entries : List IndexEntry} {data : Bytes}
    (valid : e.Valid) (holds : IndexHolds e known data) (parsed : parseIndex data = .ok entries) :
    (∀ entry ∈ entries.head?, entry = ⟨0, 0⟩) ∧
      entries.Pairwise (fun a b => a.relativeOffset < b.relativeOffset ∧ a.position < b.position) ∧
      ∀ entry ∈ entries, e.Boundary entry := by
  obtain ⟨junk, bytes, short, boundary⟩ := holds
  obtain ⟨whole, fits, first, rising⟩ := parseIndex_ok parsed
  have noJunk : junk = [] := by
    have lengths := congrArg List.length (bytes.symm.trans whole)
    rw [List.length_append, encodeEntries_length, encodeEntries_length] at lengths
    exact List.length_eq_zero_iff.mp (by omega)
  rw [noJunk, List.append_nil, whole] at bytes
  have same := encodeEntries_injective fits (fun entry member => (boundary entry member).fits valid)
    bytes
  subst same
  exact ⟨first, rising, boundary⟩

/-- No entries are accepted for an empty log only. -/
theorem accepted_covers {e : Extent} {entries : List IndexEntry} (valid : e.Valid)
    (accepted : indexAccepted e.bytes e.base entries = true) (empty : entries = []) :
    e.batches = [] := by
  rw [empty] at accepted
  exact (Extent.bytes_nil_iff valid.filled).mp
    (List.length_eq_zero_iff.mp (by simpa [indexAccepted] using accepted))

/-- A parsed and accepted index whose bytes are boundaries is one a read may start from. -/
theorem IndexHolds.trusted {e : Extent} {known entries : List IndexEntry} {data : Bytes}
    (valid : e.Valid) (holds : IndexHolds e known data) (parsed : parseIndex data = .ok entries)
    (accepted : indexAccepted e.bytes e.base entries = true) : e.Sound entries := by
  obtain ⟨first, rising, boundary⟩ := holds.parsed valid parsed
  exact ⟨accepted_covers valid accepted, first, rising, boundary⟩

end MessageBroker.Storage
