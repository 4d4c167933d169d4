import Mathlib.Data.Int.Notation
import Mathlib.Logic.Function.Basic
import Mathlib.Tactic.Ring

/-!
# Combining Ranges of a Memory

Loops that go through two ranges of a memory and combine their cells into a third range, cell
by cell or in blocks. Three pointers move on together; the destination may be one of the two
sources, as long as it never runs into cells that are still to be read.

`Combines n op f` says all that such a loop does, whatever the order in which it does it: the
`n` cells from the destination on are combined by `op`, which may depend on how far into the
range a cell is, and no other cell changes. The rules put loops together.

## Main results

* `Combines.append`, `Combines.strides`: one range after the other, and a loop of steps.
* `Combines.update`, `Combines.storeBlock`: one cell, and a block that is read, worked on lane
  by lane and written.
* `strides_congr`, `update_eq_storeBlock`: loops that write only some cells of a block.
* `Combines.again`: a second pass over the destination.
* `rows_of_mem`, `rows_of_notMem`: the rows of a picture.
* `Combines.unique`: what combines in the same way is the same.
-/

namespace FreeJ

open Function (update)

/-- A destination from `d` on that `n` cells from `s` on can be read into: what is written is
never read afterwards. -/
def Clear (s d : ℤ) (n : ℕ) : Prop := d ≤ s ∨ s + n ≤ d

/-- Two ranges of `n` cells that have no cell in common. -/
def Apart (s d : ℤ) (n : ℕ) : Prop := d + n ≤ s ∨ s + n ≤ d

/-- A loop gets the two sources, the destination and the memory. -/
abbrev Combiner (V : Type*) := ℤ → ℤ → ℤ → (ℤ → V) → ℤ → V

/-- The `n` cells from the destination on are combined from those of the sources, and nothing
else changes. -/
def Combines {V : Type*} (n : ℕ) (op : ℤ → V → V → V) (f : Combiner V) : Prop :=
  ∀ s₁ s₂ d m, Clear s₁ d n → Clear s₂ d n → ∀ a,
    f s₁ s₂ d m a =
      if d ≤ a ∧ a < d + n then op (a - d) (m (s₁ + (a - d))) (m (s₂ + (a - d))) else m a

variable {V : Type*}

/-- First over `k` cells, then from there on. -/
def andThen (k : ℕ) (f g : Combiner V) : Combiner V := fun s₁ s₂ d m =>
  g (s₁ + k) (s₂ + k) (d + k) (f s₁ s₂ d m)

/-- A loop of `n` steps, each over `k` cells. -/
def strides (k : ℕ) (body : Combiner V) : ℕ → Combiner V
  | 0 => fun _ _ _ m => m
  | n + 1 => andThen k body (strides k body n)

/-- The block of `k` cells from `s` on. -/
def loadBlock (k : ℕ) (m : ℤ → V) (s : ℤ) : Fin k → V := fun i => m (s + i.val)

/-- Write a block of `k` cells from `d` on. -/
def storeBlock {k : ℕ} (m : ℤ → V) (d : ℤ) (r : Fin k → V) : ℤ → V := fun a =>
  if h : d ≤ a ∧ a < d + k then r ⟨(a - d).toNat, by omega⟩ else m a

/-! ### Clear destinations -/

theorem Clear.self (d : ℤ) (n : ℕ) : Clear d d n := Or.inl le_rfl

variable {s s₁ s₂ d : ℤ} {k n p q : ℕ}

theorem Apart.clear (h : Apart s d n) : Clear s d n := by
  simp only [Apart, Clear] at h ⊢
  omega

theorem Clear.left (h : Clear s d (p + q)) : Clear s d p := by
  simp only [Clear, Nat.cast_add] at h ⊢
  omega

theorem Clear.right (h : Clear s d (p + q)) : Clear (s + p) (d + p) q := by
  simp only [Clear, Nat.cast_add] at h ⊢
  omega

/-- The first part of the destination is not read for the second part. -/
theorem Clear.not_read (h : Clear s d (p + q)) {i : ℤ} (h0 : 0 ≤ i) (hq : i < q) :
    ¬ (d ≤ s + p + i ∧ s + p + i < d + p) := by
  simp only [Clear, Nat.cast_add] at h
  omega

/-! ### The rules -/

variable {op op' : ℤ → V → V → V} {f g : Combiner V}

/-- Nothing is done with no cells. -/
theorem Combines.none : Combines 0 op fun _ _ _ (m : ℤ → V) => m := by
  intro s₁ s₂ d m _ _ a
  exact (if_neg (by simp)).symm

/-- The operation matters only inside the range. -/
theorem Combines.congr (h : Combines n op f)
    (hop : ∀ (i : ℤ) x y, 0 ≤ i → i < n → op i x y = op' i x y) : Combines n op' f := by
  intro s₁ s₂ d m h₁ h₂ a
  rw [h s₁ s₂ d m h₁ h₂ a]
  split
  · exact hop _ _ _ (by omega) (by omega)
  · rfl

/-- **One range after the other.** -/
theorem Combines.append (hf : Combines p op f) (hg : Combines q op' g) :
    Combines (p + q) (fun i => if i < p then op i else op' (i - p)) (andThen p f g) := by
  intro s₁ s₂ d m h₁ h₂ a
  have hread : ∀ s, Clear s d (p + q) → d + p ≤ a → a < d + p + q →
      f s₁ s₂ d m (s + p + (a - (d + p))) = m (s + (a - d)) := by
    intro s hs hlo hhi
    rw [hf s₁ s₂ d m h₁.left h₂.left, if_neg (hs.not_read (by omega) (by omega))]
    congr 1
    ring
  rw [andThen, hg _ _ _ _ h₁.right h₂.right]
  by_cases hq : d + p ≤ a ∧ a < d + p + q
  · have hin : d ≤ a ∧ a < d + (p + q : ℕ) := by
      push_cast
      omega
    have hsecond : ¬ a - d < p := by omega
    rw [if_pos hq, hread s₁ h₁ hq.1 hq.2, hread s₂ h₂ hq.1 hq.2]
    simp only [if_pos hin, if_neg hsecond, sub_add_eq_sub_sub]
  · rw [if_neg hq, hf s₁ s₂ d m h₁.left h₂.left]
    by_cases hp : d ≤ a ∧ a < d + p
    · have hin : d ≤ a ∧ a < d + (p + q : ℕ) := by
        push_cast
        omega
      have hfirst : a - d < p := by omega
      simp only [if_pos hp, if_pos hin, if_pos hfirst]
    · have hout : ¬ (d ≤ a ∧ a < d + (p + q : ℕ)) := by
        push_cast
        omega
      rw [if_neg hp, if_neg hout]

/-- **A loop of steps.** -/
theorem Combines.strides (hf : Combines k op f) (n : ℕ) :
    Combines (k * n) (fun i => op (i % k)) (strides k f n) := by
  induction n with
  | zero => exact Combines.none
  | succ n ih =>
      rw [show k * (n + 1) = k + k * n by ring]
      refine (hf.append ih).congr fun i x y h0 _ => ?_
      by_cases hk : i < k
      · simp only [if_pos hk, Int.emod_eq_of_lt h0 hk]
      · simp only [if_neg hk, Int.sub_emod_right]

/-- **What combines in the same way is the same.** -/
theorem Combines.unique (hf : Combines n op f) (hg : Combines n op g) (h₁ : Clear s₁ d n)
    (h₂ : Clear s₂ d n) (m : ℤ → V) : f s₁ s₂ d m = g s₁ s₂ d m := by
  funext a
  rw [hf s₁ s₂ d m h₁ h₂, hg s₁ s₂ d m h₁ h₂]

/-- One cell. -/
theorem Combines.update (op : V → V → V) :
    Combines 1 (fun _ => op) fun s₁ s₂ d m => update m d (op (m s₁) (m s₂)) := by
  intro s₁ s₂ d m _ _ a
  change Function.update m d (op (m s₁) (m s₂)) a = _
  by_cases ha : a = d
  · subst ha
    rw [Function.update_self, if_pos (by simp), sub_self, add_zero, add_zero]
  · rw [Function.update_of_ne ha, if_neg (by simp; omega)]

/-- **A block** that is read, worked on lane by lane and written. -/
theorem Combines.storeBlock {F : (Fin k → V) → (Fin k → V) → Fin k → V} {op : ℤ → V → V → V}
    (hF : ∀ x y i, F x y i = op i.val (x i) (y i)) :
    Combines k op fun s₁ s₂ d m =>
      storeBlock m d (F (loadBlock k m s₁) (loadBlock k m s₂)) := by
  intro s₁ s₂ d m _ _ a
  change FreeJ.storeBlock m d (F (loadBlock k m s₁) (loadBlock k m s₂)) a = _
  by_cases ha : d ≤ a ∧ a < d + k
  · have hi : ((a - d).toNat : ℤ) = a - d := Int.toNat_of_nonneg (by omega)
    rw [FreeJ.storeBlock, dif_pos ha, hF, if_pos ha, loadBlock, loadBlock, hi]
  · rw [FreeJ.storeBlock, dif_neg ha, if_neg ha]

/-- A loop whose second source is the destination is determined by its steps of that kind. -/
theorem strides_congr (h : ∀ s d m, f s d d m = g s d d m) (n : ℕ) (s d : ℤ) (m : ℤ → V) :
    FreeJ.strides k f n s d d m = FreeJ.strides k g n s d d m := by
  induction n generalizing s d m with
  | zero => rfl
  | succ n ih =>
      simp only [FreeJ.strides, andThen]
      rw [h, ih]

/-- One cell of each block is copied, into a destination that is the second source. -/
theorem update_eq_storeBlock {c : ℕ} (hc : c < k) (s d : ℤ) (m : ℤ → V) :
    Function.update m (d + c) (m (s + c)) =
      FreeJ.storeBlock m d fun i : Fin k =>
        if i.val = c then loadBlock k m s i else loadBlock k m d i := by
  funext a
  by_cases ha : d ≤ a ∧ a < d + k
  · have hi : ((a - d).toNat : ℤ) = a - d := Int.toNat_of_nonneg (by omega)
    rw [FreeJ.storeBlock, dif_pos ha]
    by_cases hac : a = d + c
    · subst hac
      have hval : (d + c - d).toNat = c := by omega
      simp only [Function.update_self, hval, if_true, loadBlock]
    · rw [Function.update_of_ne hac, if_neg (by simp only; omega), loadBlock, hi, add_sub_cancel]
  · rw [FreeJ.storeBlock, dif_neg ha, Function.update_of_ne (by omega)]

/-- **A second pass** that reads the destination of the first. -/
theorem Combines.again (hf : Combines n op f) (hg : Combines n op' g) :
    Combines n (fun i x y => op' i (op i x y) (op i x y)) fun s₁ s₂ d m =>
      g d d d (f s₁ s₂ d m) := by
  intro s₁ s₂ d m h₁ h₂ a
  change g d d d (f s₁ s₂ d m) a = _
  rw [hg d d d _ (Clear.self d n) (Clear.self d n), add_sub_cancel, hf s₁ s₂ d m h₁ h₂]
  split <;> rfl

/-! ### Rows -/

section Rows

/-- The rows of a picture: `n` times from a row of the source to one of the destination, with
`w` and `W` cells from one row to the next. -/
def rows (f : ℤ → ℤ → (ℤ → V) → ℤ → V) (w W : ℤ) : ℕ → ℤ → ℤ → (ℤ → V) → ℤ → V
  | 0, _, _, m => m
  | n + 1, s, d, m => rows f w W n (s + w) (d + W) (f s d m)

variable {f : ℤ → ℤ → (ℤ → V) → ℤ → V} {w W : ℤ} {m : ℤ → V}

/-- What `f` does to each of the rows. -/
def OnRows (f : ℤ → ℤ → (ℤ → V) → ℤ → V) (op : ℤ → V → V → V) (w W k : ℤ) (n : ℕ) (s d : ℤ) :
    Prop :=
  ∀ j : ℕ, j < n → ∀ m a, f (s + j * w) (d + j * W) m a =
    if d + j * W ≤ a ∧ a < d + j * W + k then
      op (a - (d + j * W)) (m (s + j * w + (a - (d + j * W)))) (m a)
    else m a

variable {k : ℤ}

theorem OnRows.tail (h : OnRows f op w W k (n + 1) s d) : OnRows f op w W k n (s + w) (d + W) := by
  intro j hj m a
  have hs : s + w + j * w = s + (j + 1 : ℕ) * w := by push_cast; ring
  have hd : d + W + j * W = d + (j + 1 : ℕ) * W := by push_cast; ring
  rw [hs, hd]
  exact h (j + 1) (by omega) m a

/-- The first row. -/
theorem OnRows.head (h : OnRows f op w W k (n + 1) s d) (m : ℤ → V) (a : ℤ) :
    f s d m a = if d ≤ a ∧ a < d + k then op (a - d) (m (s + (a - d))) (m a) else m a := by
  simpa using h 0 (by omega) m a

/-- Nothing changes outside of the rows. -/
theorem rows_of_notMem (h : OnRows f op w W k n s d) {a : ℤ}
    (ha : ∀ j : ℕ, j < n → ¬ (d + j * W ≤ a ∧ a < d + j * W + k)) : rows f w W n s d m a = m a := by
  induction n generalizing s d m with
  | zero => rfl
  | succ n ih =>
      have hhead := ha 0 (by omega)
      rw [Nat.cast_zero, zero_mul, add_zero] at hhead
      rw [rows, ih h.tail, h.head, if_neg hhead]
      intro j hj
      have hd : d + W + j * W = d + (j + 1 : ℕ) * W := by push_cast; ring
      rw [hd]
      exact ha (j + 1) (by omega)

/-- **The rows of a picture.** Each cell of the destination is combined with that of the source
in the same row and column, if the rows of the destination do not overlap and the source is not
written. -/
theorem rows_of_mem (h : OnRows f op w W k n s d) (hkW : k ≤ W)
    (hsrc : ∀ i j : ℕ, i < n → j < n → ∀ t, 0 ≤ t → t < k →
      ¬ (d + j * W ≤ s + i * w + t ∧ s + i * w + t < d + j * W + k))
    {j : ℕ} (hj : j < n) {t : ℤ} (ht0 : 0 ≤ t) (htk : t < k) :
    rows f w W n s d m (d + j * W + t) = op t (m (s + j * w + t)) (m (d + j * W + t)) := by
  induction n generalizing s d m j with
  | zero => omega
  | succ n ih =>
      have hW (i : ℕ) : d + W + i * W = d + (i + 1 : ℕ) * W := by push_cast; ring
      have hw (i : ℕ) : s + w + i * w = s + (i + 1 : ℕ) * w := by push_cast; ring
      rw [rows]
      cases j with
      | zero =>
          rw [Nat.cast_zero, zero_mul, zero_mul, add_zero, add_zero, rows_of_notMem h.tail, h.head,
            if_pos (by omega), add_sub_cancel_left]
          intro i _ hin
          have hpos : 0 ≤ (i : ℤ) * W := Int.mul_nonneg (by omega) (by omega)
          omega
      | succ j =>
          have hread := hsrc (j + 1) 0 hj (by omega) t ht0 htk
          rw [Nat.cast_zero, zero_mul, add_zero] at hread
          have hpos : 0 ≤ (j : ℤ) * W := Int.mul_nonneg (by omega) (by omega)
          have hlater : ¬ (d ≤ d + W + j * W + t ∧ d + W + j * W + t < d + k) := by omega
          rw [← hW, ih h.tail (fun i i' hi hi' t => ?_) (by omega), hw, h.head, h.head,
            if_neg hread, if_neg hlater, hW]
          rw [hW, hw]
          exact hsrc (i + 1) (i' + 1) (by omega) (by omega) t

end Rows

end FreeJ
