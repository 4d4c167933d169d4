import Mathlib.Data.List.OfFn
import FreeJ.Cells

/-!
# Words in Memory

Words of four bytes, in a list of bytes and in cells of memory. A `WordCodec` says which bytes
stand for a word, and which word some bytes stand for; nothing is said about bytes that stand
for no word. The word at `i` occupies the cells from `4 * i` on.

## Main results

* `getElem?_bytes`: where the bytes of a word of a list are.
* `load_of_holds`: reading a word of a list that is in the cells.
* `holdsWord_store`, `store_cell_of_ne`: storing a word puts its bytes there, and leaves the
  other cells alone.
* `take_eq_bytes`: cells that hold the words of a list hold its bytes.
-/

/-- How a word is stored in four bytes. -/
structure WordCodec (R α : Type*) where
  encode : R → Fin 4 → α
  decode : (Fin 4 → α) → R
  decode_encode : ∀ x, decode (encode x) = x

variable {R α : Type*}

namespace WordCodec

variable (c : WordCodec R α)

/-- The bytes of a list of words. -/
def bytes (xs : List R) : List α := xs.flatMap fun x => List.ofFn (c.encode x)

@[simp] theorem bytes_nil : c.bytes [] = [] := rfl

theorem bytes_cons (x : R) (xs : List R) :
    c.bytes (x :: xs) = List.ofFn (c.encode x) ++ c.bytes xs := rfl

@[simp] theorem length_bytes (xs : List R) : (c.bytes xs).length = 4 * xs.length := by
  induction xs with
  | nil => rfl
  | cons x xs ih =>
      rw [bytes_cons, List.length_append, List.length_ofFn, ih, List.length_cons]
      omega

/-- The bytes of the word at `i`. -/
theorem getElem?_bytes (xs : List R) (i : ℕ) (k : Fin 4) :
    (c.bytes xs)[4 * i + k]? = xs[i]?.map fun x => c.encode x k := by
  induction xs generalizing i with
  | nil => simp
  | cons x xs ih =>
      rw [bytes_cons]
      cases i with
      | zero =>
          have hlt : k.val < (List.ofFn (c.encode x)).length := by
            rw [List.length_ofFn]
            exact k.isLt
          rw [Nat.mul_zero, Nat.zero_add, List.getElem?_append_left hlt,
            List.getElem?_eq_getElem hlt, List.getElem_ofFn]
          rfl
      | succ i =>
          rw [List.getElem?_append_right (by simp; omega), List.length_ofFn,
            show 4 * (i + 1) + k.val - 4 = 4 * i + k.val by omega, ih]
          rfl

end WordCodec

namespace Cells

variable (c : WordCodec R α) (m : Cells α) {xs : List R} {i : ℤ} {x : R}

/-- The word at `i`. -/
def load (i : ℤ) : R := c.decode fun k => m.cell (4 * i + k.val)

/-- Store a word at `i`. -/
def store (i : ℤ) (x : R) : Cells α := m.write (4 * i) (List.ofFn (c.encode x))

/-- The bytes of `x` are at `i`. -/
def HoldsWord (i : ℤ) (x : R) : Prop := ∀ k : Fin 4, m.cell (4 * i + k.val) = c.encode x k

variable {c m}

theorem HoldsWord.load_eq (h : m.HoldsWord c i x) : m.load c i = x := by
  rw [load, funext h, c.decode_encode]

/-- The word at an index of a list that is in the cells. -/
theorem load_of_holds (h : m.Holds 0 (c.bytes xs)) {k : ℕ} (hk : k < xs.length) :
    m.load c k = xs[k] := by
  refine HoldsWord.load_eq fun b => ?_
  have hb := b.isLt
  have hlt : 4 * k + b.val < (c.bytes xs).length := by
    rw [c.length_bytes]
    omega
  have hcell := h.cell_eq hlt
  have hbyte := c.getElem?_bytes xs k b
  rw [List.getElem?_eq_getElem hlt, List.getElem?_eq_getElem hk] at hbyte
  rw [Int.zero_add] at hcell
  push_cast at hcell
  rw [hcell]
  exact Option.some.inj hbyte

theorem load_congr {m' : Cells α}
    (h : ∀ k : Fin 4, m'.cell (4 * i + k.val) = m.cell (4 * i + k.val)) :
    m'.load c i = m.load c i :=
  congrArg c.decode (funext h)

/-- The stored word is there. -/
theorem holdsWord_store : (m.store c i x).HoldsWord c i x := by
  intro k
  have hlt : k.val < (List.ofFn (c.encode x)).length := by
    rw [List.length_ofFn]
    exact k.isLt
  rw [store, write_holds.cell_eq hlt, List.getElem_ofFn]

/-- Storing a word touches no cell of another one. -/
theorem store_cell_of_ne {b : ℤ} (h : b < 4 * i ∨ 4 * i + 4 ≤ b) :
    (m.store c i x).cell b = m.cell b := by
  refine write_cell_of_notMem ?_
  rw [List.length_ofFn]
  omega

theorem mem_touched_store {b : ℤ} :
    b ∈ (m.store c i x).touched ↔ b ∈ m.touched ∨ 4 * i ≤ b ∧ b < 4 * i + 4 := by
  rw [store, mem_touched_write, List.length_ofFn]
  rfl

/-- The first cells, where words are. -/
theorem take_eq_bytes {f : ℕ → R} {n : ℕ} (h : ∀ k < n, m.HoldsWord c k (f k)) :
    m.take (4 * n) = c.bytes ((List.range n).map f) := by
  refine List.ext_getElem? fun b => ?_
  have hb : b = 4 * (b / 4) + (⟨b % 4, Nat.mod_lt _ (by omega)⟩ : Fin 4).val :=
    (Nat.div_add_mod b 4).symm
  rw [getElem?_take, hb, c.getElem?_bytes, ← hb]
  by_cases hlt : b / 4 < n
  · have hcell := h _ hlt ⟨b % 4, Nat.mod_lt _ (by omega)⟩
    rw [if_pos (by omega)]
    simp only [List.getElem?_map, List.getElem?_range hlt, Option.map_some]
    rw [← hcell]
    congr 2
    omega
  · rw [if_neg (by omega), List.getElem?_eq_none (by simp; omega)]
    rfl

end Cells
