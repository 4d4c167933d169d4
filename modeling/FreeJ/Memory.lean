import Mathlib.Data.Nat.Notation
import Mathlib.Logic.Nontrivial.Basic

/-!
# Blocks of Memory

A block that was allocated, with its size. Copying into a block and out of another is
defined as far as both reach.

## Main results

* `Block.memcpy_eq_src`: copying all of a block into one of the same size makes it equal.
* `Block.memcpy_all_iff`: no other length does that for every source.
-/

namespace FreeJ

/-- A block of memory. -/
structure Block (α : Type*) where
  size : ℕ
  data : Fin size → α

namespace Block

variable {α : Type*} {dst src : Block α} {len : ℕ}

/-- `calloc` -/
def calloc (zero : α) (size : ℕ) : Block α where
  size := size
  data := fun _ => zero

/-- `memcpy` -/
def memcpy (dst src : Block α) (len : ℕ) : Option (Block α) :=
  if h : len ≤ dst.size ∧ len ≤ src.size then
    some
      { size := dst.size
        data := fun i => if hi : i < len then src.data ⟨i, by omega⟩ else dst.data i }
  else none

/-- A block keeps its size. -/
theorem memcpy_size {b : Block α} (h : dst.memcpy src len = some b) : b.size = dst.size := by
  simp only [memcpy] at h
  split at h
  · cases h
    rfl
  · cases h

/-- A copy of all of the source. -/
theorem memcpy_eq_src (h : src.size = dst.size) : dst.memcpy src dst.size = some src := by
  obtain ⟨n, d⟩ := dst
  obtain ⟨m, d'⟩ := src
  obtain rfl : m = n := h
  simp [memcpy]

/-- The length is what a copy of all of every source takes. -/
theorem memcpy_all_iff [Nontrivial α] :
    (∀ src : Block α, src.size = dst.size → dst.memcpy src len = some src) ↔ len = dst.size := by
  constructor
  · intro h
    by_contra hne
    have hlen : len < dst.size := by
      have hd := h dst rfl
      simp only [memcpy] at hd
      split at hd
      · omega
      · cases hd
    -- a source that differs behind the part that is copied
    obtain ⟨a, ha⟩ := exists_ne (dst.data ⟨len, hlen⟩)
    have hs := h ⟨dst.size, fun _ => a⟩ rfl
    simp only [memcpy, Nat.le_of_lt hlen, and_self, dite_true, Option.some.injEq, Block.mk.injEq,
      heq_eq_eq, true_and] at hs
    have hat := congrFun hs ⟨len, hlen⟩
    simp only [Nat.lt_irrefl, dite_false] at hat
    exact ha hat.symm
  · rintro rfl src hsrc
    exact memcpy_eq_src hsrc

end Block

end FreeJ
