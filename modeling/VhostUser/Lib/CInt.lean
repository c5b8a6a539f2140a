import Mathlib.Algebra.Group.Int.Defs
import Mathlib.Algebra.Group.Nat.Defs

/-! # Conversions between machine integers

An `int` has 32 bits and a `size_t` has 64. A conversion keeps the number if it is in
the range of the new type, and else the low bits of its two's complement.
-/

namespace VhostUser.Lib

/-- Conversion to `int`. -/
def toInt (x : Int) : Int := Int.bmod x (2 ^ 32)

/-- Conversion to `size_t`. -/
def toSize (x : Int) : Nat := (x % 2 ^ 64).toNat

theorem toInt_eq {x : Int} (hlo : -2 ^ 31 ≤ x) (hhi : x < 2 ^ 31) : toInt x = x := by
  unfold toInt
  apply Int.bmod_eq_of_le <;> omega

/-- A number of at most 32 bits is negative as an `int` if its highest bit is set. -/
theorem toInt_of_high {x : Int} (hlo : 2 ^ 31 ≤ x) (hhi : x < 2 ^ 32) : toInt x = x - 2 ^ 32 := by
  unfold toInt
  rw [← Int.sub_bmod_right]
  apply Int.bmod_eq_of_le <;> omega

theorem toInt_mod (x : Int) : toInt (x % 2 ^ 32) = toInt x := Int.emod_bmod ..

theorem toInt_emod (x : Int) : toInt x % 2 ^ 32 = x % 2 ^ 32 := Int.bmod_emod

theorem toInt_lt (x : Int) : toInt x < 2 ^ 31 := by
  have := Int.bmod_lt (x := x) (m := 2 ^ 32) (by decide)
  unfold toInt
  omega

theorem toInt_toInt (x : Int) : toInt (toInt x) = toInt x := Int.bmod_bmod ..

/-- The lowest 32 bits survive a conversion to 64. -/
theorem toInt_toSize (x : Int) : toInt (toSize x) = toInt x := by
  unfold toInt toSize
  rw [Int.toNat_of_nonneg (Int.emod_nonneg _ (by decide)), ← Int.emod_bmod, Int.emod_emod_of_dvd _ (by decide),
    Int.emod_bmod]

theorem toInt_eq_neg_one_iff (x : Int) : toInt x = -1 ↔ x % 2 ^ 32 = 2 ^ 32 - 1 := by
  unfold toInt
  rw [Int.bmod_def]
  split
  · omega
  · omega

theorem toSize_eq {x : Int} (hlo : 0 ≤ x) (hhi : x < 2 ^ 64) : toSize x = x.toNat := by
  unfold toSize
  rw [Int.emod_eq_of_lt hlo hhi]

end VhostUser.Lib
