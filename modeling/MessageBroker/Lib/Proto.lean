import Mathlib.Tactic.Ring

/-! Sizes of proto3 messages on the wire, for field numbers below 16. -/

namespace Proto

/-- Seven bits a byte. -/
def varintSize (value : Nat) : Nat :=
  if value < 128 then 1 else 1 + varintSize (value / 128)

/-- A scalar field, which is left out when it is zero. -/
def scalarField (value : Nat) : Nat := if value = 0 then 0 else 1 + varintSize value

/-- A `bytes` or `string` field, which is left out when it is empty. -/
def bytesField (length : Nat) : Nat := if length = 0 then 0 else 1 + varintSize length + length

/-- An element of a repeated message field, which is never left out. -/
def messageField (size : Nat) : Nat := 1 + varintSize size + size

theorem varintSize_le {value : Nat} (bytes : Nat) (fits : value < 128 ^ (bytes + 1)) :
    varintSize value ≤ bytes + 1 := by
  induction bytes generalizing value with
  | zero =>
    rw [varintSize, if_pos (by simpa using fits)]
  | succ bytes ih =>
    rw [varintSize]
    split_ifs
    · omega
    · have smaller : value / 128 < 128 ^ (bytes + 1) :=
        Nat.div_lt_of_lt_mul (by rw [Nat.pow_succ] at fits; omega)
      have shorter := ih smaller
      omega

/-- A scalar of 64 bits takes at most eleven bytes with its tag. -/
theorem scalarField_le {value : Nat} (fits : value < 2 ^ 64) : scalarField value ≤ 11 := by
  unfold scalarField
  split_ifs
  · omega
  · have short := @varintSize_le value 9 (by omega)
    omega

theorem varintSize_mono {small large : Nat} (le : small ≤ large) :
    varintSize small ≤ varintSize large := by
  induction large using Nat.strongRecOn generalizing small with
  | _ large ih =>
    rw [varintSize.eq_def small, varintSize.eq_def large]
    split_ifs
    · omega
    · omega
    · omega
    · have shorter := ih (large / 128) (by omega) (Nat.div_le_div_right le)
      omega

theorem scalarField_mono {small large : Nat} (le : small ≤ large) :
    scalarField small ≤ scalarField large := by
  have short := varintSize_mono le
  unfold scalarField
  split_ifs <;> omega

theorem messageField_mono {small large : Nat} (le : small ≤ large) :
    messageField small ≤ messageField large := by
  have short := varintSize_mono le
  unfold messageField
  omega

theorem le_messageField (size : Nat) : size + 2 ≤ messageField size := by
  have positive : 1 ≤ varintSize size := by
    rw [varintSize]
    split_ifs <;> omega
  unfold messageField
  omega

end Proto
