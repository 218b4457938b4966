import Mathlib.Data.List.Basic
import Mathlib.Tactic.Ring

namespace BigEndian

/-- The `width` low-order bytes of `value`, most significant first. -/
def put : (width value : Nat) → List UInt8
  | 0, _ => []
  | width + 1, value => UInt8.ofNat (value / 256 ^ width) :: put width value

def get (bytes : List UInt8) : Nat :=
  bytes.foldl (fun number byte => number * 256 + byte.toNat) 0

@[simp] theorem put_length (width value : Nat) : (put width value).length = width := by
  induction width with
  | zero => rfl
  | succ width ih => simp [put, ih]

theorem foldl_from (bytes : List UInt8) (start : Nat) :
    bytes.foldl (fun number byte => number * 256 + byte.toNat) start =
      start * 256 ^ bytes.length + get bytes := by
  induction bytes generalizing start with
  | nil => simp [get]
  | cons byte bytes ih =>
    have unfolded : get (byte :: bytes) = byte.toNat * 256 ^ bytes.length + get bytes := by
      change List.foldl _ (0 * 256 + byte.toNat) bytes = _
      rw [ih]
      simp
    rw [List.foldl_cons, ih, unfolded, List.length_cons, Nat.pow_succ]
    ring

theorem get_cons (byte : UInt8) (bytes : List UInt8) :
    get (byte :: bytes) = byte.toNat * 256 ^ bytes.length + get bytes := by
  have start := foldl_from bytes (0 * 256 + byte.toNat)
  simpa [get] using start

theorem get_lt (bytes : List UInt8) : get bytes < 256 ^ bytes.length := by
  induction bytes with
  | nil => decide
  | cons byte bytes ih =>
    have bound := byte.toNat_lt
    rw [get_cons, List.length_cons, Nat.pow_succ]
    have scaled : byte.toNat * 256 ^ bytes.length ≤ 255 * 256 ^ bytes.length :=
      Nat.mul_le_mul_right _ (by omega)
    omega

/-- Reading back what was put gives the value modulo the field's width. -/
theorem get_put (width value : Nat) : get (put width value) = value % 256 ^ width := by
  induction width with
  | zero => simp [put, get, Nat.mod_one]
  | succ width ih =>
    have digit : (UInt8.ofNat (value / 256 ^ width)).toNat = value / 256 ^ width % 256 := by simp
    rw [put, get_cons, put_length, ih, digit, Nat.pow_succ, Nat.mod_mul]
    ring

theorem get_put_of_lt {width value : Nat} (fits : value < 256 ^ width) :
    get (put width value) = value := by
  rw [get_put, Nat.mod_eq_of_lt fits]

theorem put_get (bytes : List UInt8) (high : Nat) :
    put bytes.length (high * 256 ^ bytes.length + get bytes) = bytes := by
  induction bytes generalizing high with
  | nil => rfl
  | cons byte bytes ih =>
    have bound := byte.toNat_lt
    have low := get_lt bytes
    have positive : 0 < 256 ^ bytes.length := Nat.pow_pos (by decide)
    have regroup : high * 256 ^ (bytes.length + 1) + get (byte :: bytes) =
        (high * 256 + byte.toNat) * 256 ^ bytes.length + get bytes := by
      rw [get_cons, Nat.pow_succ]
      ring
    have quotient :
        ((high * 256 + byte.toNat) * 256 ^ bytes.length + get bytes) / 256 ^ bytes.length =
        high * 256 + byte.toNat := by
      rw [Nat.mul_comm, Nat.mul_add_div positive, Nat.div_eq_of_lt low, Nat.add_zero]
    rw [List.length_cons, regroup, put, ih, quotient]
    congr 1
    apply UInt8.toNat_inj.mp
    simp only [UInt8.toNat_ofNat']
    omega

theorem put_get_self (bytes : List UInt8) : put bytes.length (get bytes) = bytes := by
  simpa using put_get bytes 0

theorem get_injective {left right : List UInt8} (same : left.length = right.length)
    (value : get left = get right) : left = right := by
  rw [← put_get_self left, ← put_get_self right, same, value]

end BigEndian
