import Mathlib.Data.List.Basic

variable {α : Type}

/-- `piece` stands in `data` from position `offset` on. -/
def Occurs (data : List α) (offset : Nat) (piece : List α) : Prop :=
  ∃ before after, data = before ++ (piece ++ after) ∧ before.length = offset

namespace Occurs

variable {data left right piece : List α} {offset : Nat}

theorem middle (before piece after : List α) :
    Occurs (before ++ (piece ++ after)) before.length piece :=
  ⟨before, after, rfl, rfl⟩

theorem nothing (inside : offset ≤ data.length) : Occurs data offset [] :=
  ⟨data.take offset, data.drop offset, by simp, by rw [List.length_take, Nat.min_eq_left inside]⟩

theorem left_part (occurs : Occurs data offset (left ++ right)) : Occurs data offset left := by
  obtain ⟨before, after, rfl, rfl⟩ := occurs
  exact ⟨before, right ++ after, by simp, rfl⟩

theorem right_part (occurs : Occurs data offset (left ++ right)) :
    Occurs data (offset + left.length) right := by
  obtain ⟨before, after, rfl, rfl⟩ := occurs
  exact ⟨before ++ left, after, by simp, by simp⟩

theorem bound (occurs : Occurs data offset piece) : offset + piece.length ≤ data.length := by
  obtain ⟨before, after, rfl, rfl⟩ := occurs
  simp only [List.length_append]
  omega

theorem extract (occurs : Occurs data offset piece) :
    (data.drop offset).take piece.length = piece := by
  obtain ⟨before, after, rfl, rfl⟩ := occurs
  simp

theorem extract_take (occurs : Occurs data offset piece) (count : Nat)
    (inside : offset + piece.length ≤ count) :
    ((data.take count).drop offset).take piece.length = piece := by
  rw [List.drop_take, List.take_take, Nat.min_eq_left (by omega), occurs.extract]

theorem take_front {count : Nat} (occurs : Occurs data offset piece)
    (inside : count ≤ piece.length) :
    (data.drop offset).take count = piece.take count := by
  obtain ⟨before, after, rfl, rfl⟩ := occurs
  rw [List.drop_left, List.take_append_of_le_length inside]

theorem append (occurs : Occurs data offset piece) (after : List α) :
    Occurs (data ++ after) offset piece := by
  obtain ⟨before, rest, rfl, rfl⟩ := occurs
  exact ⟨before, rest ++ after, by simp, rfl⟩

theorem join (first : Occurs data offset left) (second : Occurs data (offset + left.length) right) :
    Occurs data offset (left ++ right) := by
  obtain ⟨before, after, rfl, rfl⟩ := first
  obtain ⟨front, rest, same, length⟩ := second
  have shared : before ++ left = front := by
    have both := congrArg (List.take (before.length + left.length)) same
    rwa [← List.append_assoc, List.take_left' (by simp), List.take_left' length] at both
  refine ⟨before, rest, ?_, rfl⟩
  rw [same, ← shared]
  simp

theorem of_extract (bound : offset + piece.length ≤ data.length)
    (extracted : (data.drop offset).take piece.length = piece) : Occurs data offset piece := by
  refine ⟨data.take offset, (data.drop offset).drop piece.length, ?_, by simp; omega⟩
  have whole : (data.drop offset).take piece.length ++ (data.drop offset).drop piece.length =
      data.drop offset :=
    List.take_append_drop _ _
  rw [extracted] at whole
  rw [whole, List.take_append_drop]

end Occurs
