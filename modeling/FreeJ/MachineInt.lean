import Mathlib.Algebra.Ring.Int.Defs
import Mathlib.Algebra.Ring.Nat

/-!
# Machine Integers

The values a C integer of fixed width can hold, as integers: storing `z` into a variable of
the type keeps `z` when it fits and wraps around otherwise. Arithmetic is done on integers
and wraps at the stores.
-/

namespace FreeJ

/-- What an `int16_t` holds after `z` is stored into it. -/
def int16 (z : ℤ) : ℤ := z.bmod (2 ^ 16)

/-- What an `int32_t` holds after `z` is stored into it. -/
def int32 (z : ℤ) : ℤ := z.bmod (2 ^ 32)

/-- What a `uint16_t` holds after `z` is stored into it. -/
def uint16 (z : ℤ) : ℤ := z % 2 ^ 16

/-- What a `uint32_t` holds after `z` is stored into it. -/
def uint32 (z : ℤ) : ℤ := z % 2 ^ 32

theorem int16_range (z : ℤ) : -2 ^ 15 ≤ int16 z ∧ int16 z < 2 ^ 15 := by
  simp only [int16]
  have h1 := @Int.le_bmod z (2 ^ 16) (by decide)
  have h2 := @Int.bmod_lt z (2 ^ 16) (by decide)
  omega

theorem int16_eq {z : ℤ} (h1 : -2 ^ 15 ≤ z) (h2 : z < 2 ^ 15) : int16 z = z := by
  simp only [int16]
  rw [Int.bmod_eq_of_le] <;> omega

theorem int16_le {z : ℤ} (h : 0 ≤ z) : int16 z ≤ z := by
  simp only [int16, Int.bmod]
  split <;> omega

theorem int32_eq {z : ℤ} (h1 : -2 ^ 31 ≤ z) (h2 : z < 2 ^ 31) : int32 z = z := by
  simp only [int32]
  rw [Int.bmod_eq_of_le] <;> omega

theorem uint16_range (z : ℤ) : 0 ≤ uint16 z ∧ uint16 z < 2 ^ 16 := by
  simp only [uint16]
  omega

theorem uint16_le {z : ℤ} (h : 0 ≤ z) : uint16 z ≤ z := by
  simp only [uint16]
  omega

theorem uint32_eq {z : ℤ} (h1 : 0 ≤ z) (h2 : z < 2 ^ 32) : uint32 z = z :=
  Int.emod_eq_of_lt h1 h2

end FreeJ
