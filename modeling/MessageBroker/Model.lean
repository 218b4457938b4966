import MessageBroker.Lib.BigEndian

namespace MessageBroker

abbrev Bytes := List UInt8

/-- A key-value metadata pair. A nil value and an empty one are the same here: only its
    length and bytes are ever used. -/
structure Header where
  key : Bytes
  value : Bytes
  deriving DecidableEq, Repr

/-- A record produced by a client. `none` is a nil slice; the timestamp is the client's own. -/
structure Record where
  key : Option Bytes
  value : Option Bytes
  headers : List Header
  timestamp : Int
  deriving DecidableEq, Repr

structure StoredRecord where
  offset : Nat
  timestamp : Int
  key : Option Bytes
  value : Option Bytes
  headers : List Header
  deriving DecidableEq, Repr

def uint64 (value : Int) : Nat := (value % 2 ^ 64).toNat

def int64 (value : Int) : Int := value.bmod (2 ^ 64)

def int32 (value : Int) : Int := value.bmod (2 ^ 32)

def uint32 (value : Int) : Nat := (value % 2 ^ 32).toNat

/-- An instant in nanoseconds since the epoch. -/
abbrev Instant := Int

/-- `Time.UnixMilli`, which wraps where milliseconds do not fit an `int64`. -/
def unixMilli (now : Instant) : Int := int64 (now / 1000000)

theorem int64_of_range {value : Int} (low : -2 ^ 63 ≤ value) (high : value < 2 ^ 63) :
    int64 value = value := by
  unfold int64
  apply Int.bmod_eq_of_le <;> omega

theorem int64_range (value : Int) : -2 ^ 63 ≤ int64 value ∧ int64 value < 2 ^ 63 := by
  have low := Int.le_bmod (x := value) (m := 2 ^ 64) (by decide)
  have high := Int.bmod_lt (x := value) (m := 2 ^ 64) (by decide)
  unfold int64
  omega

theorem uint64_lt (value : Int) : uint64 value < 2 ^ 64 := by
  unfold uint64
  omega

theorem uint64_le (value : Nat) : uint64 value ≤ value := by
  unfold uint64
  omega

theorem uint64_of_nat {value : Nat} (fits : value < 2 ^ 64) : uint64 value = value := by
  unfold uint64
  omega

theorem int64_uint64 (value : Int) : int64 (uint64 value) = int64 value := by
  have nonnegative : 0 ≤ value % 2 ^ 64 := Int.emod_nonneg _ (by decide)
  unfold int64 uint64
  rw [Int.toNat_of_nonneg nonnegative]
  exact Int.emod_bmod value (2 ^ 64)

theorem uint64_int64 (value : Int) : uint64 (int64 value) = uint64 value := by
  have same : value.bmod (2 ^ 64) % (2 ^ 64 : Nat) = value % (2 ^ 64 : Nat) := Int.bmod_emod
  unfold int64 uint64
  exact congrArg Int.toNat same

end MessageBroker
