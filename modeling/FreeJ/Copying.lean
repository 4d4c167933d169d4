import FreeJ.Combining

/-!
# Copying Ranges of a Memory

Code that copies a range of a memory, in parts, and may fault: because an instruction is not
there, or because an address is not aligned as an instruction wants it. A part begins where the
one before it has ended.

`Copies P n f` says all that there is to say of such code: from addresses that are as `P` says
it copies `n` cells without a fault, and nothing else changes. The destination may overlap the
source in front of it.

## Main results

* `Copies.seq`, `Copies.loop`: parts are put together.
* `Copies.registers`: cells that go through registers, which are all loaded before they are
  stored.
-/

namespace FreeJ

variable {V : Type*}

/-- Code that gets the source, the destination and the memory, and leaves a memory or faults. -/
abbrev Copier (V : Type*) := ℤ → ℤ → (ℤ → V) → Option (ℤ → V)

/-- The memory in which `n` cells have been copied. -/
def copied (n : ℕ) (s d : ℤ) (m : ℤ → V) : ℤ → V := fun a =>
  if d ≤ a ∧ a < d + n then m (s + (a - d)) else m a

namespace Copier

/-- An instruction that is there, or a fault. -/
def needs (available : Bool) (f : Copier V) : Copier V := fun s d m =>
  if available then f s d m else none

/-- First over `k` cells, then from there on. -/
def seq (k : ℕ) (f g : Copier V) : Copier V := fun s d m =>
  (f s d m).bind (g (s + k) (d + k))

/-- A loop of `n` parts, each of `k` cells. -/
def loop (k : ℕ) (f : Copier V) : ℕ → Copier V
  | 0 => fun _ _ m => some m
  | n + 1 => seq k f (loop k f n)

/-- Load a register of `k` cells, from an address that may have to be aligned. -/
def load (aligned : Bool) (k : ℕ) (m : ℤ → V) (s : ℤ) : Option (Fin k → V) :=
  if aligned ∧ ¬ (k : ℤ) ∣ s then none else some (loadBlock k m s)

/-- Store it. -/
def store {k : ℕ} (aligned : Bool) (m : ℤ → V) (d : ℤ) (r : Fin k → V) : Option (ℤ → V) :=
  if aligned ∧ ¬ (k : ℤ) ∣ d then none else some (storeBlock m d r)

/-- Load `n` registers, one after the other. -/
def loads (aligned : Bool) (k : ℕ) (m : ℤ → V) : ℕ → ℤ → Option (List (Fin k → V))
  | 0, _ => some []
  | n + 1, s => (load aligned k m s).bind fun r => (loads aligned k m n (s + k)).map (r :: ·)

/-- Store registers, one after the other. -/
def stores {k : ℕ} (aligned : Bool) : List (Fin k → V) → ℤ → (ℤ → V) → Option (ℤ → V)
  | [], _, m => some m
  | r :: rs, d, m => (store aligned m d r).bind (stores aligned rs (d + k))

/-- Load `n` registers and store them. -/
def registers (load_aligned store_aligned : Bool) (k n : ℕ) : Copier V := fun s d m =>
  (loads load_aligned k m n s).bind fun rs => stores store_aligned rs d m

end Copier

open Copier

/-- From addresses as `P` says, `n` cells are copied. -/
def Copies (P : ℤ → ℤ → Prop) (n : ℕ) (f : Copier V) : Prop :=
  ∀ s d m, P s d → Clear s d n → f s d m = some (copied n s d m)

/-- The addresses are aligned as the registers want them. -/
def Aligned (load_aligned store_aligned : Bool) (k : ℕ) (s d : ℤ) : Prop :=
  (load_aligned = true → (k : ℤ) ∣ s) ∧ (store_aligned = true → (k : ℤ) ∣ d)

variable {P Q : ℤ → ℤ → Prop} {f g : Copier V} {s d : ℤ} {m : ℤ → V} {k n p q : ℕ}
  {load_aligned store_aligned : Bool}

@[simp]
theorem copied_zero (s d : ℤ) (m : ℤ → V) : copied 0 s d m = m := by
  funext a
  exact if_neg (by simp)

/-- **One range after the other.** The second one is read where the first one has not been
written. -/
theorem copied_add (h : Clear s d (p + q)) (m : ℤ → V) :
    copied q (s + p) (d + p) (copied p s d m) = copied (p + q) s d m := by
  funext a
  have hread : d + p ≤ a → a < d + p + q →
      ¬ (d ≤ s + p + (a - (d + p)) ∧ s + p + (a - (d + p)) < d + p) := fun hlo hhi =>
    h.not_read (by omega) (by omega)
  have hsame : s + p + (a - (d + p)) = s + (a - d) := by ring
  simp only [copied, Nat.cast_add, hsame] at hread ⊢
  split_ifs <;> first | rfl | omega

/-! ### The rules -/

theorem Copies.mono (h : Copies P n f) (hQ : ∀ s d, Q s d → P s d) : Copies Q n f :=
  fun s d m hq hc => h s d m (hQ s d hq) hc

/-- Nothing is done with no cells. -/
theorem Copies.none (P : ℤ → ℤ → Prop) : Copies P 0 fun _ _ (m : ℤ → V) => some m :=
  fun s d m _ _ => congrArg some (copied_zero s d m).symm

/-- What is there is no fault. -/
theorem Copies.needs {available : Bool} (ha : available = true) (h : Copies P n f) :
    Copies P n (needs available f) := by
  rw [ha]
  exact h

/-- **One part after the other**, which begins as it needs to. -/
theorem Copies.seq (hf : Copies P p f) (hg : Copies Q q g)
    (hQ : ∀ s d, P s d → Q (s + p) (d + p)) : Copies P (p + q) (seq p f g) := by
  intro s d m hP hc
  rw [Copier.seq, hf s d m hP hc.left, Option.bind_some, hg _ _ _ (hQ s d hP) hc.right,
    copied_add hc]

/-- **A loop.** -/
theorem Copies.loop (hf : Copies P k f) (hP : ∀ s d, P s d → P (s + k) (d + k)) (n : ℕ) :
    Copies P (k * n) (loop k f n) := by
  induction n with
  | zero => exact .none P
  | succ n ih =>
      rw [show k * (n + 1) = k + k * n by ring]
      exact hf.seq ih hP

/-! ### Registers -/

/-- Registers that were loaded from `m₀`, stored over `m`. -/
theorem stores_loads (m₀ : ℤ → V) (n : ℕ) (h : Aligned load_aligned store_aligned k s d)
    (m : ℤ → V) :
    ((loads load_aligned k m₀ n s).bind fun rs => stores store_aligned rs d m) =
      some fun a => if d ≤ a ∧ a < d + (k * n : ℕ) then m₀ (s + (a - d)) else m a := by
  induction n generalizing s d m with
  | zero =>
      simp only [loads, stores, Option.bind_some, Nat.mul_zero, Nat.cast_zero, add_zero,
        Option.some.injEq]
      funext a
      exact (if_neg (by omega)).symm
  | succ n ih =>
      have hload : load load_aligned k m₀ s = some (loadBlock k m₀ s) :=
        if_neg fun hfault => hfault.2 (h.1 hfault.1)
      have hstore : store store_aligned m d (loadBlock k m₀ s) =
          some (storeBlock m d (loadBlock k m₀ s)) :=
        if_neg fun hfault => hfault.2 (h.2 hfault.1)
      have hnext : Aligned load_aligned store_aligned k (s + k) (d + k) :=
        ⟨fun ha => Int.dvd_add (h.1 ha) (Int.dvd_refl _), fun ha => Int.dvd_add (h.2 ha) (Int.dvd_refl _)⟩
      have hrest := ih hnext (storeBlock m d (loadBlock k m₀ s))
      simp only [loads, hload, Option.bind_some, Option.bind_map]
      change ((loads load_aligned k m₀ n (s + k)).bind fun rs =>
        (store store_aligned m d (loadBlock k m₀ s)).bind (stores store_aligned rs (d + k))) = _
      rw [hstore]
      simp only [Option.bind_some]
      rw [hrest, Option.some.injEq]
      funext a
      have hsame : s + k + (a - (d + k)) = s + (a - d) := by ring
      have hsum : (k * (n + 1) : ℕ) = (k : ℤ) + (k * n : ℕ) := by push_cast; ring
      rw [hsame, hsum]
      by_cases hin : d ≤ a ∧ a < d + k
      · have hi : ((a - d).toNat : ℤ) = a - d := Int.toNat_of_nonneg (by omega)
        rw [if_neg (by omega), if_pos (by omega), storeBlock, dif_pos hin, loadBlock, hi]
      · rw [storeBlock, dif_neg hin]
        split_ifs <;> first | rfl | omega

/-- **Registers** that are loaded and stored copy what they hold. -/
theorem Copies.registers (load_aligned store_aligned : Bool) (k n : ℕ) :
    Copies (Aligned load_aligned store_aligned k) (k * n)
      (registers load_aligned store_aligned k n : Copier V) :=
  fun _ _ m h _ => stores_loads m n h m

end FreeJ
