import Mathlib.Data.Nat.Bitwise
import Mathlib.Data.List.Basic

namespace Crc32

def bitStep (register : Nat) : Nat :=
  if register % 2 = 1 then (register / 2) ^^^ 0xEDB88320 else register / 2

def byteStep (register : Nat) (byte : UInt8) : Nat :=
  bitStep (bitStep
    (bitStep (bitStep (bitStep (bitStep (bitStep (bitStep (register ^^^ byte.toNat))))))))

def register (start : Nat) (bytes : List UInt8) : Nat := bytes.foldl byteStep start

def checksumIEEE (bytes : List UInt8) : Nat := register 0xFFFFFFFF bytes ^^^ 0xFFFFFFFF

example : checksumIEEE [49, 50, 51, 52, 53, 54, 55, 56, 57] = 0xCBF43926 := by decide +kernel

theorem bitStep_lt {register : Nat} (bound : register < 2 ^ 32) : bitStep register < 2 ^ 32 := by
  unfold bitStep
  split
  · exact Nat.xor_lt_two_pow (by omega) (by decide)
  · omega

theorem byteStep_lt {register : Nat} (byte : UInt8) (bound : register < 2 ^ 32) :
    byteStep register byte < 2 ^ 32 := by
  have small : byte.toNat < 2 ^ 32 := by
    have := byte.toNat_lt
    omega
  have mixed : register ^^^ byte.toNat < 2 ^ 32 := Nat.xor_lt_two_pow bound small
  unfold byteStep
  repeat apply bitStep_lt
  exact mixed

theorem register_lt {start : Nat} (bytes : List UInt8) (bound : start < 2 ^ 32) :
    register start bytes < 2 ^ 32 := by
  induction bytes generalizing start with
  | nil => exact bound
  | cons byte bytes ih => exact ih (byteStep_lt byte bound)

theorem checksumIEEE_lt (bytes : List UInt8) : checksumIEEE bytes < 2 ^ 32 :=
  Nat.xor_lt_two_pow (register_lt bytes (by decide)) (by decide)

theorem odd_step_high {half : Nat} (bound : half < 2 ^ 31) : 2 ^ 31 ≤ half ^^^ 0xEDB88320 := by
  have top : (half ^^^ 0xEDB88320).testBit 31 = true := by
    rw [Nat.testBit_xor, Nat.testBit_lt_two_pow bound]
    decide
  exact Nat.ge_two_pow_of_testBit top

/-- The shifted-out bit can be read off the polynomial's top bit, so no state is merged. -/
theorem bitStep_injective {left right : Nat} (boundLeft : left < 2 ^ 32)
    (boundRight : right < 2 ^ 32) (same : bitStep left = bitStep right) : left = right := by
  have halfLeft : left / 2 < 2 ^ 31 := by omega
  have halfRight : right / 2 < 2 ^ 31 := by omega
  have highLeft := odd_step_high halfLeft
  have highRight := odd_step_high halfRight
  unfold bitStep at same
  split at same <;> split at same
  · have halves : left / 2 = right / 2 := Nat.xor_left_inj.mp same
    omega
  · omega
  · omega
  · omega

theorem byteStep_injective {left right : Nat} {byteLeft byteRight : UInt8}
    (boundLeft : left < 2 ^ 32) (boundRight : right < 2 ^ 32)
    (same : byteStep left byteLeft = byteStep right byteRight) :
    left ^^^ byteLeft.toNat = right ^^^ byteRight.toNat := by
  have smallLeft := byteLeft.toNat_lt
  have smallRight := byteRight.toNat_lt
  have mixedLeft : left ^^^ byteLeft.toNat < 2 ^ 32 := Nat.xor_lt_two_pow boundLeft (by omega)
  have mixedRight : right ^^^ byteRight.toNat < 2 ^ 32 := Nat.xor_lt_two_pow boundRight (by omega)
  unfold byteStep at same
  iterate 8
    replace same := bitStep_injective (by repeat first | assumption | apply bitStep_lt)
      (by repeat first | assumption | apply bitStep_lt) same
  exact same

theorem register_injective {left right : Nat} (bytes : List UInt8)
    (boundLeft : left < 2 ^ 32) (boundRight : right < 2 ^ 32)
    (same : register left bytes = register right bytes) : left = right := by
  induction bytes generalizing left right with
  | nil => exact same
  | cons byte bytes ih =>
    have stepped := ih (byteStep_lt byte boundLeft) (byteStep_lt byte boundRight) same
    exact Nat.xor_left_inj.mp (byteStep_injective boundLeft boundRight stepped)

/-- A change confined to one byte always changes the checksum. -/
theorem checksum_detects_byte (before after : List UInt8) (byte changed : UInt8)
    (differs : changed ≠ byte) :
    checksumIEEE (before ++ changed :: after) ≠ checksumIEEE (before ++ byte :: after) := by
  intro same
  have registers := Nat.xor_left_inj.mp same
  simp only [register, List.foldl_append, List.foldl_cons] at registers
  have bound : register 0xFFFFFFFF before < 2 ^ 32 := register_lt before (by decide)
  have stepped :=
    register_injective after (byteStep_lt changed bound) (byteStep_lt byte bound) registers
  have mixed := byteStep_injective bound bound stepped
  exact differs (UInt8.toNat_inj.mp (Nat.xor_right_inj.mp mixed))

end Crc32
