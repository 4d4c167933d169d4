import Mathlib.Data.Int.Basic
import Mathlib.Data.List.Basic
import Mathlib.Logic.Function.Basic

/-!
# Cells of Memory

A `Cells α` is a run of memory cells around a pointer: one for every integer index, inside and
outside of what was allocated, so that an access out of bounds has a meaning, together with a
record of the indices that were read or written. Three forms of loop over the cells are given
with their rules: a counted loop upwards, one downwards, and a loop that goes on until it
meets a stop value.

## Main results

* `forUp_rule`, `forDown_rule`, `forUntil_rule`: an invariant that every round keeps holds
  after the loop, and the last loop ends.
* `copyDown_cell`: copying a stretch to the right from its end on keeps its values.
* `write_holds`, `readUntil_eq`: a list that was written is there, and is read back.
* `holds_writeAll`: the fields of a record that do not overlap are all there.
-/

/-- Memory cells, and the indices that were read or written, the last one first. -/
structure Cells (α : Type*) where
  cell : ℤ → α
  touched : List ℤ

namespace Cells

open Function (update)

variable {α : Type*}

/-- Read the cell at `i`. -/
def touch (m : Cells α) (i : ℤ) : Cells α := { m with touched := i :: m.touched }

/-- Write `a` at `i`. -/
def set (m : Cells α) (i : ℤ) (a : α) : Cells α := ⟨update m.cell i a, i :: m.touched⟩

/-- Write what is at `src` at `dst`. -/
def copy (m : Cells α) (dst src : ℤ) : Cells α :=
  ⟨update m.cell dst (m.cell src), dst :: src :: m.touched⟩

@[simp] theorem touch_cell (m : Cells α) (i : ℤ) : (m.touch i).cell = m.cell := rfl

@[simp] theorem set_cell (m : Cells α) (i : ℤ) (a : α) : (m.set i a).cell = update m.cell i a :=
  rfl

@[simp] theorem copy_cell (m : Cells α) (dst src : ℤ) :
    (m.copy dst src).cell = update m.cell dst (m.cell src) := rfl

theorem mem_touched_touch {m : Cells α} {i j : ℤ} :
    i ∈ (m.touch j).touched ↔ i = j ∨ i ∈ m.touched := List.mem_cons

theorem mem_touched_set {m : Cells α} {i j : ℤ} {a : α} :
    i ∈ (m.set j a).touched ↔ i = j ∨ i ∈ m.touched := List.mem_cons

/-- All accesses so far were to indices from `lo` to before `hi`. -/
def Within (m : Cells α) (lo hi : ℤ) : Prop := ∀ i ∈ m.touched, lo ≤ i ∧ i < hi

variable {m : Cells α} {lo hi i j : ℤ}

theorem Within.touch (h : m.Within lo hi) (h1 : lo ≤ i) (h2 : i < hi) :
    (m.touch i).Within lo hi := by
  intro k hk
  rcases List.mem_cons.mp hk with rfl | hk
  · exact ⟨h1, h2⟩
  · exact h k hk

theorem Within.set {a : α} (h : m.Within lo hi) (h1 : lo ≤ i) (h2 : i < hi) :
    (m.set i a).Within lo hi := Within.touch h h1 h2

theorem Within.copy (h : m.Within lo hi) (h1 : lo ≤ i) (h2 : i < hi) (h3 : lo ≤ j)
    (h4 : j < hi) : (m.copy i j).Within lo hi :=
  Within.touch (m := m.touch j) (h.touch h3 h4) h1 h2

/-- Read the `n` cells from `i` on. -/
def read (m : Cells α) (i : ℤ) (n : ℕ) : Cells α :=
  { m with touched := (List.range n).map (fun k : ℕ => i + k) ++ m.touched }

@[simp] theorem read_cell (m : Cells α) (i : ℤ) (n : ℕ) : (m.read i n).cell = m.cell := rfl

theorem mem_touched_read {n : ℕ} :
    j ∈ (m.read i n).touched ↔ j ∈ m.touched ∨ i ≤ j ∧ j < i + n := by
  simp only [read, List.mem_append, List.mem_map, List.mem_range]
  constructor
  · rintro (⟨k, hk, rfl⟩ | h)
    · exact Or.inr (by omega)
    · exact Or.inl h
  · rintro (h | ⟨hlo, hhi⟩)
    · exact Or.inr h
    · exact Or.inl ⟨(j - i).toNat, by omega, by omega⟩

/-! ### Loops -/

/-- `n` rounds of `body`, the first at `c`, upwards. -/
def forUp (body : ℤ → Cells α → Cells α) : ℕ → ℤ → Cells α → Cells α
  | 0, _, m => m
  | n + 1, c, m => forUp body n (c + 1) (body c m)

/-- `n` rounds of `body`, the first at `c`, downwards. -/
def forDown (body : ℤ → Cells α → Cells α) : ℕ → ℤ → Cells α → Cells α
  | 0, _, m => m
  | n + 1, c, m => forDown body n (c - 1) (body c m)

/-- Rounds of `body` from `c` upwards until the cell `off` further on is `stop`; the index at
which that was, or `none` after `k` rounds without it. -/
def forUntil [DecidableEq α] (stop : α) (off : ℤ) (body : ℤ → Cells α → Cells α) :
    ℕ → ℤ → Cells α → Option (ℤ × Cells α)
  | 0, _, _ => none
  | k + 1, c, m =>
    if m.cell (c + off) = stop then some (c, m.touch (c + off))
    else forUntil stop off body k (c + 1) (body c (m.touch (c + off)))

variable (body : ℤ → Cells α → Cells α) {I : ℤ → Cells α → Prop} {c : ℤ} {n : ℕ}

/-- What every round keeps holds after a loop upwards. -/
theorem forUp_rule (h0 : I c m)
    (hstep : ∀ i m, c ≤ i → i < c + n → I i m → I (i + 1) (body i m)) :
    I (c + n) (forUp body n c m) := by
  induction n generalizing c m with
  | zero => simpa [forUp] using h0
  | succ n ih =>
      have hc : c + ((n + 1 : ℕ) : ℤ) = c + 1 + n := by push_cast; omega
      rw [hc] at hstep ⊢
      exact ih (hstep c m (by omega) (by omega) h0) fun i m h1 h2 => hstep i m (by omega) h2

/-- What every round keeps holds after a loop downwards. -/
theorem forDown_rule (h0 : I c m)
    (hstep : ∀ i m, i ≤ c → c - n < i → I i m → I (i - 1) (body i m)) :
    I (c - n) (forDown body n c m) := by
  induction n generalizing c m with
  | zero => simpa [forDown] using h0
  | succ n ih =>
      have hc : c - ((n + 1 : ℕ) : ℤ) = c - 1 - n := by push_cast; omega
      rw [hc] at hstep ⊢
      exact ih (hstep c m (by omega) (by omega) h0) fun i m h1 h2 => hstep i m (by omega) h2

/-- **A loop that stops** after `n` rounds, because no cell met before is the stop value and the
next is: it ends, and what every round keeps holds then. -/
theorem forUntil_rule [DecidableEq α] {stop : α} {off : ℤ} {k : ℕ} (hk : n < k) (h0 : I c m)
    (htouch : ∀ i m, c ≤ i → i ≤ c + n → I i m → I i (m.touch (i + off)))
    (hstep : ∀ i m, c ≤ i → i < c + n → I i m → m.cell (i + off) ≠ stop ∧ I (i + 1) (body i m))
    (hstop : ∀ m, I (c + n) m → m.cell (c + n + off) = stop) :
    ∃ m', forUntil stop off body k c m = some (c + n, m') ∧ I (c + n) m' := by
  induction n generalizing c m k with
  | zero =>
      obtain ⟨k, rfl⟩ : ∃ k', k = k' + 1 := ⟨k - 1, by omega⟩
      have hc : c + ((0 : ℕ) : ℤ) = c := by omega
      rw [hc] at htouch hstop ⊢
      rw [forUntil, if_pos (hstop m h0)]
      exact ⟨_, rfl, htouch c m (by omega) (by omega) h0⟩
  | succ n ih =>
      obtain ⟨k, rfl⟩ : ∃ k', k = k' + 1 := ⟨k - 1, by omega⟩
      have hc : c + ((n + 1 : ℕ) : ℤ) = c + 1 + n := by push_cast; omega
      rw [hc] at htouch hstep hstop ⊢
      have hfirst := htouch c m (by omega) (by omega) h0
      rw [forUntil, if_neg (hstep c m (by omega) (by omega) h0).1]
      exact ih (by omega) (hstep c _ (by omega) (by omega) hfirst).2
        (fun i m h1 h2 => htouch i m (by omega) h2) (fun i m h1 h2 => hstep i m (by omega) h2)
        hstop

/-! ### Copying a stretch to the right -/

/-- `for(c = ..; n rounds; c--) m[c] = m[c - d]` -/
def copyDown (d : ℤ) (n : ℕ) (c : ℤ) (m : Cells α) : Cells α :=
  m.forDown (fun c m => m.copy c (c - d)) n c

/-- **Copying from the end on keeps the values**: each cell written gets what its source held
before the loop. -/
theorem copyDown_cell {d : ℤ} (hd : 0 ≤ d) (n : ℕ) (c : ℤ) (m : Cells α) (i : ℤ) :
    (copyDown d n c m).cell i = if c - n < i ∧ i ≤ c then m.cell (i - d) else m.cell i := by
  have hrule := forDown_rule (c := c) (n := n) (m := m) (fun c m => m.copy c (c - d))
    (I := fun j m' => ∀ i, m'.cell i = if j < i ∧ i ≤ c then m.cell (i - d) else m.cell i)
    (fun i => by rw [if_neg (by omega)]) ?_
  · exact hrule i
  · intro j m' hj hn hI i
    rw [copy_cell]
    by_cases hij : i = j
    · subst hij
      rw [Function.update_self, hI, if_neg (by omega), if_pos (by omega)]
    · rw [Function.update_of_ne hij, hI]
      by_cases hlt : j < i ∧ i ≤ c
      · rw [if_pos hlt, if_pos (by omega)]
      · rw [if_neg hlt, if_neg (by omega)]

/-- Such a copy reads and writes between its lowest source and its highest target. -/
theorem Within.copyDown {d : ℤ} (hd : 0 ≤ d) {n : ℕ} {c : ℤ} (h : m.Within lo hi)
    (hlo : ∀ i, c - n < i → i ≤ c → lo ≤ i - d) (hhi : c < hi) :
    (m.copyDown d n c).Within lo hi := by
  refine forDown_rule _ (I := fun _ m => m.Within lo hi) h fun i m h1 h2 hI => ?_
  have hsrc := hlo i h2 h1
  exact hI.copy (by omega) (by omega) hsrc (by omega)

/-- Such a copy reads its sources and writes its targets. -/
theorem mem_touched_copyDown_iff {d : ℤ} {n : ℕ} {c : ℤ} :
    i ∈ (m.copyDown d n c).touched ↔
      i ∈ m.touched ∨ (c - n < i ∧ i ≤ c) ∨ (c - n < i + d ∧ i + d ≤ c) := by
  have hrule := forDown_rule (c := c) (n := n) (m := m) (fun c m => m.copy c (c - d))
    (I := fun j m' => i ∈ m'.touched ↔
      i ∈ m.touched ∨ (j < i ∧ i ≤ c) ∨ (j < i + d ∧ i + d ≤ c))
    ⟨Or.inl, fun h => h.resolve_right (by omega)⟩ ?_
  · exact hrule
  · intro j m' hj hn hI
    simp only [copy, List.mem_cons, hI]
    constructor
    · rintro (rfl | rfl | h | h)
      · exact .inr (.inl (by omega))
      · exact .inr (.inr (by omega))
      · exact .inl h
      · exact .inr (by omega)
    · rintro (h | h)
      · exact .inr (.inr (.inl h))
      · by_cases hij : i = j
        · exact .inl hij
        by_cases hdj : i = j - d
        · exact .inr (.inl hdj)
        · exact .inr (.inr (.inr (by omega)))

/-- Such a copy forgets no access. -/
theorem mem_touched_copyDown {d : ℤ} {n : ℕ} {c : ℤ} (h : i ∈ m.touched) :
    i ∈ (m.copyDown d n c).touched :=
  mem_touched_copyDown_iff.mpr (.inl h)

/-! ### Writing a stretch -/

/-- `for(c = 0; c < n; c++) m[pos + c] = f[c]` writes the stretch from `pos` on. -/
theorem fill_cell (f : ℤ → α) (n : ℕ) (pos : ℤ) (m : Cells α) (i : ℤ) :
    (m.forUp (fun c m => m.set (pos + c) (f c)) n 0).cell i =
      if pos ≤ i ∧ i < pos + n then f (i - pos) else m.cell i := by
  have hrule := forUp_rule (c := 0) (n := n) (m := m) (fun c m => m.set (pos + c) (f c))
    (I := fun j m' => ∀ i, m'.cell i = if pos ≤ i ∧ i < pos + j then f (i - pos) else m.cell i)
    (fun i => by rw [if_neg (by omega)]) ?_
  · rw [Int.zero_add] at hrule
    exact hrule i
  · intro j m' hj hn hI i
    rw [set_cell]
    by_cases hij : i = pos + j
    · subst hij
      rw [Function.update_self, if_pos (by omega)]
      congr 1
      omega
    · rw [Function.update_of_ne hij, hI]
      by_cases hlt : pos ≤ i ∧ i < pos + j
      · rw [if_pos hlt, if_pos (by omega)]
      · rw [if_neg hlt, if_neg (by omega)]

/-- Writing a stretch touches it. -/
theorem mem_touched_fill {f : ℤ → α} {n : ℕ} {pos : ℤ} :
    i ∈ (m.forUp (fun c m => m.set (pos + c) (f c)) n 0).touched ↔
      i ∈ m.touched ∨ pos ≤ i ∧ i < pos + n := by
  have hrule := forUp_rule (c := 0) (n := n) (m := m) (fun c m => m.set (pos + c) (f c))
    (I := fun j m' => i ∈ m'.touched ↔ i ∈ m.touched ∨ pos ≤ i ∧ i < pos + j)
    ⟨Or.inl, fun h => h.resolve_right (by omega)⟩ ?_
  · rwa [Int.zero_add] at hrule
  · intro j m' hj hn hI
    rw [mem_touched_set, hI]
    constructor
    · rintro (rfl | h | h)
      · exact .inr (by omega)
      · exact .inl h
      · exact .inr (by omega)
    · rintro (h | h)
      · exact .inr (.inl h)
      · by_cases hij : i = pos + j
        · exact .inl hij
        · exact .inr (.inr (by omega))

/-! ### Reading off a string -/

/-- The first `n` cells. -/
def take (m : Cells α) (n : ℕ) : List α := (List.range n).map fun i : ℕ => m.cell i

@[simp] theorem length_take (m : Cells α) (n : ℕ) : (m.take n).length = n := by simp [take]

theorem getElem?_take (m : Cells α) (n i : ℕ) :
    (m.take n)[i]? = if i < n then some (m.cell i) else none := by
  by_cases hi : i < n <;> simp [take, hi]

/-! ### Lists in the cells -/

/-- Write the entries of a list from `i` on. -/
def write : Cells α → ℤ → List α → Cells α
  | m, _, [] => m
  | m, i, x :: xs => write (m.set i x) (i + 1) xs

/-- The entries of a list are there from `i` on. -/
def Holds (m : Cells α) : ℤ → List α → Prop
  | _, [] => True
  | i, x :: xs => m.cell i = x ∧ m.Holds (i + 1) xs

/-- The entries from `i` on, `n` at the most, up to a stop value. -/
def readUntil [DecidableEq α] (stop : α) (m : Cells α) : ℕ → ℤ → List α
  | 0, _ => []
  | n + 1, i => if m.cell i = stop then [] else m.cell i :: readUntil stop m n (i + 1)

section Lists

variable {m' : Cells α} {xs ys : List α}

theorem write_cell_of_notMem (h : j < i ∨ i + xs.length ≤ j) :
    (m.write i xs).cell j = m.cell j := by
  induction xs generalizing m i with
  | nil => rfl
  | cons x xs ih =>
      rw [List.length_cons] at h
      rw [write, ih (by omega), set_cell, Function.update_of_ne (by omega)]

theorem mem_touched_write :
    j ∈ (m.write i xs).touched ↔ j ∈ m.touched ∨ i ≤ j ∧ j < i + xs.length := by
  induction xs generalizing m i with
  | nil =>
      simp only [write, List.length_nil]
      exact (or_iff_left (by omega)).symm
  | cons x xs ih =>
      rw [write, ih]
      simp only [set, List.mem_cons, List.length_cons]
      constructor
      · rintro ((rfl | h) | h)
        · exact Or.inr (by omega)
        · exact Or.inl h
        · exact Or.inr (by omega)
      · rintro (h | h)
        · exact Or.inl (Or.inr h)
        · by_cases hj : j = i
          · exact Or.inl (Or.inl hj)
          · exact Or.inr (by omega)

/-- Only the cells from `i` on as far as the list reaches matter. -/
theorem Holds.congr (h : m.Holds i xs)
    (heq : ∀ j, i ≤ j → j < i + xs.length → m'.cell j = m.cell j) : m'.Holds i xs := by
  induction xs generalizing i with
  | nil => trivial
  | cons x xs ih =>
      rw [List.length_cons] at heq
      refine ⟨(heq i (by omega) (by omega)).trans h.1, ih h.2 fun j h1 h2 => ?_⟩
      exact heq j (by omega) (by omega)

theorem holds_append : m.Holds i (xs ++ ys) ↔ m.Holds i xs ∧ m.Holds (i + xs.length) ys := by
  induction xs generalizing i with
  | nil => simp [Holds]
  | cons x xs ih =>
      have hlen : i + ((x :: xs).length : ℤ) = i + 1 + xs.length := by
        rw [List.length_cons]
        omega
      rw [hlen]
      simp only [List.cons_append, Holds, ih, and_assoc]

/-- A cell that holds an entry of a list. -/
theorem Holds.mem (h : m.Holds i xs) (h1 : i ≤ j) (h2 : j < i + xs.length) : m.cell j ∈ xs := by
  induction xs generalizing i with
  | nil =>
      rw [List.length_nil] at h2
      omega
  | cons x xs ih =>
      rw [List.length_cons] at h2
      by_cases hj : j = i
      · rw [hj, h.1]
        exact List.mem_cons_self
      · exact List.mem_cons_of_mem _ (ih h.2 (by omega) (by omega))

/-- The cell of an entry of a list that is there. -/
theorem Holds.cell_eq (h : m.Holds i xs) {k : ℕ} (hk : k < xs.length) :
    m.cell (i + k) = xs[k] := by
  induction xs generalizing i k with
  | nil => exact absurd hk (Nat.not_lt_zero k)
  | cons x xs ih =>
      cases k with
      | zero => simpa using h.1
      | succ k =>
          have hnext := ih h.2 (Nat.lt_of_succ_lt_succ hk)
          rwa [Int.add_assoc, Int.add_comm 1, ← Int.natCast_succ] at hnext

/-- The first cells, where a list is. -/
theorem Holds.take_eq (h : m.Holds 0 xs) {n : ℕ} (hn : n ≤ xs.length) : m.take n = xs.take n := by
  refine List.ext_getElem (by simp [hn]) fun k hk hk' => ?_
  have hlt : k < xs.length := by
    rw [length_take] at hk
    omega
  have hcell := h.cell_eq hlt
  rw [Int.zero_add] at hcell
  simpa [take] using hcell

/-- What was written is there. -/
theorem write_holds : (m.write i xs).Holds i xs := by
  induction xs generalizing m i with
  | nil => trivial
  | cons x xs ih =>
      refine ⟨?_, ih⟩
      rw [write, write_cell_of_notMem (by omega), set_cell, Function.update_self]

/-- Write `a` to the first `n` cells. -/
@[irreducible] def memset (m : Cells α) (a : α) (n : ℕ) : Cells α := m.write 0 (List.replicate n a)

theorem memset_cell {a : α} {n k : ℕ} (hk : k < n) : (m.memset a n).cell k = a := by
  have hlt : k < (List.replicate n a).length := by rwa [List.length_replicate]
  have hcell := (write_holds (m := m) (i := 0)).cell_eq hlt
  rw [memset]
  rwa [Int.zero_add, List.getElem_replicate] at hcell

/-- A list without the stop value is read back. -/
theorem readUntil_eq [DecidableEq α] {stop : α} (h : m.Holds i xs) (hstop : stop ∉ xs) :
    m.readUntil stop xs.length i = xs := by
  induction xs generalizing i with
  | nil => rfl
  | cons x xs ih =>
      rw [List.mem_cons, not_or] at hstop
      rw [List.length_cons, readUntil, h.1, if_neg (Ne.symm hstop.1), ih h.2 hstop.2]

/-- A list that the stop value follows is read back. -/
theorem readUntil_of_holds [DecidableEq α] {stop : α} {n : ℕ} (h : m.Holds i (xs ++ [stop]))
    (hstop : stop ∉ xs) (hn : xs.length ≤ n) : m.readUntil stop n i = xs := by
  induction xs generalizing i n with
  | nil =>
      cases n with
      | zero => rfl
      | succ n => rw [readUntil, if_pos h.1]
  | cons x xs ih =>
      obtain ⟨n, rfl⟩ : ∃ n', n = n' + 1 := ⟨n - 1, by rw [List.length_cons] at hn; omega⟩
      rw [List.mem_cons, not_or] at hstop
      rw [List.cons_append] at h
      rw [readUntil, h.1, if_neg (Ne.symm hstop.1), ih h.2 hstop.2 (Nat.le_of_succ_le_succ hn)]

theorem notMem_readUntil [DecidableEq α] {stop : α} (n : ℕ) (i : ℤ) :
    stop ∉ m.readUntil stop n i := by
  induction n generalizing i with
  | zero => exact List.not_mem_nil
  | succ n ih =>
      rw [readUntil]
      split
      · exact List.not_mem_nil
      · rename_i h
        exact List.not_mem_cons_of_ne_of_not_mem (Ne.symm h) (ih (i + 1))

/-! ### Accesses from the first cell on -/

/-- The first `n` cells were accessed, and no others. -/
def UpTo (m : Cells α) (n : ℕ) : Prop := ∀ j, j ∈ m.touched ↔ 0 ≤ j ∧ j < n

variable {n k : ℕ}

theorem UpTo.within_iff (h : m.UpTo n) : m.Within 0 k ↔ n ≤ k := by
  constructor
  · intro hw
    by_contra hlt
    exact absurd (hw k ((h k).mpr (by omega))).2 (by omega)
  · intro hle j hj
    have hj := (h j).mp hj
    omega

/-- Accesses to the first `k` cells more. -/
theorem UpTo.union (h : m.UpTo n)
    (h' : ∀ j, j ∈ m'.touched ↔ j ∈ m.touched ∨ 0 ≤ j ∧ j < k) : m'.UpTo (max n k) := by
  intro j
  rw [h', h]
  omega

theorem UpTo.write (h : m.UpTo n) : (m.write 0 xs).UpTo (max n xs.length) :=
  h.union fun _ => by rw [mem_touched_write, Int.zero_add]

theorem UpTo.read (h : m.UpTo n) : (m.read 0 k).UpTo (max n k) :=
  h.union fun _ => by rw [mem_touched_read, Int.zero_add]

theorem UpTo.memset {a : α} (h : m.UpTo n) : (m.memset a k).UpTo (max n k) := by
  have hwrite : (m.write 0 (List.replicate k a)).UpTo (max n (List.replicate k a).length) := h.write
  rw [Cells.memset]
  rwa [List.length_replicate] at hwrite

/-! ### Fields of a record -/

/-- Write the fields of a record, each from its own place on, one after the other. -/
def writeAll (m : Cells α) (fields : List (ℤ × List α)) : Cells α :=
  fields.foldl (fun m f => m.write f.1 f.2) m

/-- No two of the fields overlap. -/
def FieldsApart (fields : List (ℤ × List α)) : Prop :=
  fields.Pairwise fun f g => f.1 + (f.2.length : ℤ) ≤ g.1 ∨ g.1 + (g.2.length : ℤ) ≤ f.1

variable {fields : List (ℤ × List α)} {f : ℤ × List α}

/-- Between the fields nothing changes. -/
theorem writeAll_cell_of_notMem (h : ∀ f ∈ fields, j < f.1 ∨ f.1 + f.2.length ≤ j) :
    (m.writeAll fields).cell j = m.cell j := by
  induction fields generalizing m with
  | nil => rfl
  | cons f fields ih =>
      obtain ⟨hf, hfields⟩ := List.forall_mem_cons.mp h
      exact (ih hfields).trans (write_cell_of_notMem hf)

/-- **Every field is there** when no two of them overlap. -/
theorem holds_writeAll (h : FieldsApart fields) (hf : f ∈ fields) :
    (m.writeAll fields).Holds f.1 f.2 := by
  induction fields generalizing m with
  | nil => exact absurd hf List.not_mem_nil
  | cons g fields ih =>
      obtain ⟨hg, hfields⟩ := List.pairwise_cons.mp h
      rcases List.mem_cons.mp hf with rfl | hf
      · -- the fields that are written later leave this one alone
        refine write_holds.congr (m := m.write f.1 f.2) fun j h1 h2 => ?_
        refine writeAll_cell_of_notMem (m := m.write f.1 f.2) fun g hmem => ?_
        have hapart := hg g hmem
        omega
      · exact ih hfields hf

theorem mem_touched_writeAll :
    j ∈ (m.writeAll fields).touched ↔
      j ∈ m.touched ∨ ∃ f ∈ fields, f.1 ≤ j ∧ j < f.1 + f.2.length := by
  induction fields generalizing m with
  | nil => simp [writeAll]
  | cons f fields ih =>
      have hcons : m.writeAll (f :: fields) = (m.write f.1 f.2).writeAll fields := rfl
      rw [hcons, ih, mem_touched_write, List.exists_mem_cons_iff, or_assoc]

end Lists

end Cells
