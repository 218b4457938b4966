import Mathlib.Data.List.Basic

namespace BinarySearch

/-- The loop of a binary search for the first index in `[low, high)` that satisfies `test`. -/
def between (test : Nat → Bool) (low high : Nat) : Nat :=
  if low < high then
    let middle := (low + high) / 2
    if test middle then between test low middle else between test (middle + 1) high
  else low
termination_by high - low

def search (count : Nat) (test : Nat → Bool) : Nat := between test 0 count

def Rising (count : Nat) (test : Nat → Bool) : Prop :=
  ∀ i j, i ≤ j → j < count → test i = true → test j = true

theorem between_spec {test : Nat → Bool} {count : Nat} (rising : Rising count test) (low high : Nat)
    (ordered : low ≤ high) (bound : high ≤ count) (below : ∀ i, i < low → test i = false)
    (above : ∀ i, high ≤ i → i < count → test i = true) :
    between test low high ≤ count ∧ (∀ i, i < between test low high → test i = false) ∧
      ∀ i, between test low high ≤ i → i < count → test i = true := by
  fun_induction between test low high with
  | case1 low high less middle found ih =>
    have inside : middle < high := by omega
    apply ih (by omega) (by omega) below
    intro i lower upper
    exact rising middle i lower upper found
  | case2 low high less middle missed ih =>
    have inside : middle < high := by omega
    apply ih (by omega) bound
    · intro i less
      by_contra holds
      have reached := rising i middle (by omega) (by omega) (by simpa using holds)
      exact missed reached
    · exact above
  | case3 low high less =>
    have meet : low = high := by omega
    subst meet
    exact ⟨bound, below, above⟩

/-- On a rising test the search finds the first index that satisfies it, or `count`. -/
theorem search_spec {test : Nat → Bool} {count : Nat} (rising : Rising count test) :
    search count test ≤ count ∧ (∀ i, i < search count test → test i = false) ∧
      ∀ i, search count test ≤ i → i < count → test i = true :=
  between_spec rising 0 count (Nat.zero_le _) (Nat.le_refl _) (by omega) (by omega)

end BinarySearch
