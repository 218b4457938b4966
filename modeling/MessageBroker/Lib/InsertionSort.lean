import Mathlib.Data.List.Sort
import Mathlib.Order.Defs.LinearOrder

/-! Insertion sort in place: each element is swapped down until the one below it is not greater. -/

namespace InsertionSort

variable {α κ : Type} [Inhabited α] [LinearOrder κ] (key : α → κ)

def sink (items : Array α) : Nat → Array α
  | 0 => items
  | j + 1 =>
    if key (items.getD (j + 1) default) < key (items.getD j default) then
      sink (items.swapIfInBounds j (j + 1)) j
    else items

def sort (items : Array α) : Array α := (List.range' 1 (items.size - 1)).foldl (sink key) items

variable {key} {items : Array α} {i j : Nat}

theorem swap_perm {β : Type} (items : Array β) (i j : Nat) :
    (items.swapIfInBounds i j).Perm items := by
  rw [Array.swapIfInBounds_def]
  split_ifs
  · exact Array.swap_perm _ _
  · exact .refl _
  · exact .refl _

theorem sink_perm (items : Array α) (j : Nat) : (sink key items j).Perm items := by
  induction j generalizing items with
  | zero => exact .refl _
  | succ j ih =>
    unfold sink
    split
    · exact (ih _).trans (swap_perm items j (j + 1))
    · exact .refl _

theorem getD_swap (inside : j + 1 < items.size) (p : Nat) :
    (items.swapIfInBounds j (j + 1)).getD p default =
      if p = j then items.getD (j + 1) default
      else if p = j + 1 then items.getD j default else items.getD p default := by
  simp only [Array.getD_eq_getD_getElem?, Array.swapIfInBounds_def, show j < items.size by omega,
    inside, dif_pos, Array.getElem?_swap]
  rcases eq_or_ne p j with rfl | notLower
  · simp
  · rcases eq_or_ne p (j + 1) with rfl | notUpper
    · simp
    · simp [notLower, notUpper, notLower.symm, notUpper.symm]

/-- Up to `i` the elements are in order but for the one at `j`, which may belong further down. -/
def OrderedBut (key : α → κ) (items : Array α) (i j : Nat) : Prop :=
  ∀ p q, p < q → q ≤ i → q ≠ j → key (items.getD p default) ≤ key (items.getD q default)

def OrderedTo (key : α → κ) (items : Array α) (i : Nat) : Prop :=
  ∀ p q, p < q → q ≤ i → key (items.getD p default) ≤ key (items.getD q default)

theorem swap_orderedBut (inside : i < items.size) (below : j + 1 ≤ i)
    (greater : key (items.getD (j + 1) default) < key (items.getD j default))
    (ordered : OrderedBut key items i (j + 1)) :
    OrderedBut key (items.swapIfInBounds j (j + 1)) i j := by
  intro p q less within differs
  rw [getD_swap (by omega), getD_swap (by omega), if_neg differs]
  rcases eq_or_ne q (j + 1) with rfl | above
  · rw [if_pos rfl]
    rcases eq_or_ne p j with rfl | lower
    · rw [if_pos rfl]
      exact greater.le
    · rw [if_neg lower, if_neg (by omega)]
      exact ordered p j (by omega) (by omega) (by omega)
  · rw [if_neg above]
    split_ifs with first second
    · exact ordered (j + 1) q (by omega) within above
    · exact ordered j q (by omega) within above
    · exact ordered p q less within above

theorem sink_ordered (inside : i < items.size) (below : j ≤ i)
    (ordered : OrderedBut key items i j) :
    OrderedTo key (sink key items j) i := by
  induction j generalizing items with
  | zero => exact fun p q less within => ordered p q less within (by omega)
  | succ j ih =>
    unfold sink
    split
    next greater =>
      exact ih (by rwa [Array.size_swapIfInBounds]) (by omega)
        (swap_orderedBut inside below greater ordered)
    next settled =>
      intro p q less within
      rcases eq_or_ne q (j + 1) with rfl | above
      · rcases Nat.lt_succ_iff_lt_or_eq.mp less with lower | rfl
        · exact (ordered p j lower (by omega) (by omega)).trans (not_lt.mp settled)
        · exact not_lt.mp settled
      · exact ordered p q less within above

theorem rounds_ordered (n : Nat) (inside : n < items.size) :
    ((List.range' 1 n).foldl (sink key) items).Perm items ∧
      OrderedTo key ((List.range' 1 n).foldl (sink key) items) n := by
  induction n with
  | zero => exact ⟨.refl _, by intro p q less within; omega⟩
  | succ n ih =>
    obtain ⟨perm, ordered⟩ := ih (by omega)
    rw [List.range'_concat, List.foldl_append, List.foldl_cons, List.foldl_nil, Nat.one_mul,
      Nat.add_comm 1 n]
    refine ⟨(sink_perm _ _).trans perm, sink_ordered (by rw [perm.size_eq]; omega) (le_refl _) ?_⟩
    exact fun p q less within differs => ordered p q less (by omega)

theorem sort_perm (items : Array α) : (sort key items).Perm items := by
  rcases Nat.eq_zero_or_pos items.size with empty | nonempty
  · unfold sort
    rw [empty]
    exact .refl _
  · exact (rounds_ordered _ (by omega)).1

theorem sort_sorted (items : Array α) :
    (sort key items).toList.Pairwise fun x y => key x ≤ key y := by
  have size := (@sort_perm _ _ _ _ key items).size_eq
  rw [List.pairwise_iff_getElem]
  intro p q pInside qInside less
  rw [Array.length_toList, size] at pInside qInside
  have ordered : OrderedTo key (sort key items) (items.size - 1) := (rounds_ordered _ (by omega)).2
  have here := ordered p q less (by omega)
  simpa [Array.getD_eq_getD_getElem?, size, pInside, qInside] using here

end InsertionSort
