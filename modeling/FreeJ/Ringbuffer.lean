import Mathlib.Data.List.Basic
import Mathlib.Data.Nat.Bitwise

/-!
# The Ring Buffer

`ringbuffer.cpp`: a buffer of a power of two of bytes with a pointer for the writer and one for
the reader. The pointers are equal when it is empty, so that one byte is never used. A
`Ringbuffer` is one whose pointers are inside the buffer and whose mask is the size less one;
the operations keep this.

An operation copies at most two parts, the second one from the start of the buffer. The parts
are steps of their own here (`copy_in` or `copy_out`, then the advance of the pointer), since a
reader and a writer may run at the same time. The two assignments that advance a pointer,
`+=` and `&=`, are one step: in between the pointer may be `size` in place of 0, and the other
side then computes the same space.

## Main results

* `contents`: the bytes that wait to be read, of which the buffer is a queue.
* `contents_write_advance`, `contents_read_advance`: publishing a part that was copied appends
  it, and advancing the read pointer drops what it passes.
* `ringbuffer_write_contents`, `ringbuffer_read_contents`: an undisturbed operation writes or
  reads as much as there is room or data for, in order.
-/

namespace FreeJ

/-- `ringbuffer_t`. -/
structure Ringbuffer (α : Type*) where
  buf : ℕ → α
  write_ptr : ℕ
  read_ptr : ℕ
  size : ℕ
  size_mask : ℕ
  mask_eq : ∃ k, size = 2 ^ k ∧ size_mask = 2 ^ k - 1
  write_lt : write_ptr < size
  read_lt : read_ptr < size

namespace Ringbuffer

variable {α : Type*}

/-- The loop of `ringbuffer_create`; the first argument after the size bounds its length. -/
def power_of_two (sz : ℕ) : ℕ → ℕ → ℕ
  | 0, p => p
  | n + 1, p => if 1 <<< p < sz then power_of_two sz n (p + 1) else p

theorem one_shiftLeft_pos (p : ℕ) : 0 < 1 <<< p := by
  rw [Nat.one_shiftLeft]
  exact Nat.two_pow_pos p

/-- `ringbuffer_create`, on memory with whatever is in it. -/
def ringbuffer_create (sz : ℕ) (buf : ℕ → α) : Ringbuffer α where
  buf := buf
  write_ptr := 0
  read_ptr := 0
  size := 1 <<< power_of_two sz sz 1
  size_mask := 1 <<< power_of_two sz sz 1 - 1
  mask_eq := ⟨power_of_two sz sz 1, Nat.one_shiftLeft _, by rw [Nat.one_shiftLeft]⟩
  write_lt := one_shiftLeft_pos _
  read_lt := one_shiftLeft_pos _

/-- `ringbuffer_read_space`. The source computes `w - r + size` modulo the word size. -/
def ringbuffer_read_space (rb : Ringbuffer α) : ℕ :=
  if rb.write_ptr > rb.read_ptr then rb.write_ptr - rb.read_ptr
  else (rb.write_ptr + rb.size - rb.read_ptr) &&& rb.size_mask

/-- `ringbuffer_write_space`. -/
def ringbuffer_write_space (rb : Ringbuffer α) : ℕ :=
  if rb.write_ptr > rb.read_ptr then
    ((rb.read_ptr + rb.size - rb.write_ptr) &&& rb.size_mask) - 1
  else if rb.write_ptr < rb.read_ptr then rb.read_ptr - rb.write_ptr - 1
  else rb.size - 1

/-- Masking is the remainder modulo the size. -/
@[simp] theorem and_mask (rb : Ringbuffer α) (x : ℕ) : x &&& rb.size_mask = x % rb.size := by
  obtain ⟨k, hsize, hmask⟩ := rb.mask_eq
  rw [hsize, hmask]
  exact Nat.and_two_pow_sub_one_eq_mod x k

theorem size_pos (rb : Ringbuffer α) : 0 < rb.size :=
  Nat.lt_of_le_of_lt (Nat.zero_le _) rb.write_lt

/-- Copy bytes to where the write pointer is. -/
def copy_in (rb : Ringbuffer α) (bytes : List α) : Ringbuffer α :=
  { rb with
    buf := fun i =>
      if rb.write_ptr ≤ i then bytes.getD (i - rb.write_ptr) (rb.buf i) else rb.buf i }

/-- Copy bytes from where the read pointer is. -/
def copy_out (rb : Ringbuffer α) (cnt : ℕ) : List α :=
  (List.range cnt).map fun i => rb.buf (rb.read_ptr + i)

/-- `ringbuffer_write_advance`. -/
def ringbuffer_write_advance (rb : Ringbuffer α) (cnt : ℕ) : Ringbuffer α :=
  { rb with
    write_ptr := (rb.write_ptr + cnt) &&& rb.size_mask
    write_lt := by
      rw [and_mask]
      exact Nat.mod_lt _ rb.size_pos }

/-- `ringbuffer_read_advance`. -/
def ringbuffer_read_advance (rb : Ringbuffer α) (cnt : ℕ) : Ringbuffer α :=
  { rb with
    read_ptr := (rb.read_ptr + cnt) &&& rb.size_mask
    read_lt := by
      rw [and_mask]
      exact Nat.mod_lt _ rb.size_pos }

/-- The two parts `n1` and `n2` of an operation on `cnt` bytes from a pointer on. -/
def parts (rb : Ringbuffer α) (ptr cnt : ℕ) : ℕ × ℕ :=
  if ptr + cnt > rb.size then (rb.size - ptr, (ptr + cnt) &&& rb.size_mask) else (cnt, 0)

/-- How much an operation copies: as much as is asked for, if there is as much. -/
def atMost (cnt free_cnt : ℕ) : ℕ :=
  if cnt > free_cnt then free_cnt else cnt

/-- Copy a part in and publish it. -/
def write_part (rb : Ringbuffer α) (bytes : List α) : Ringbuffer α :=
  (rb.copy_in bytes).ringbuffer_write_advance bytes.length

/-- Write the first `n.1` bytes, and the next `n.2` of them if there are any. -/
def write_parts (rb : Ringbuffer α) (src : List α) (n : ℕ × ℕ) : Ringbuffer α :=
  if n.2 = 0 then rb.write_part (src.take n.1)
  else (rb.write_part (src.take n.1)).write_part ((src.drop n.1).take n.2)

/-- Read `n.1` bytes, and the next `n.2` of them if there are any. -/
def read_parts (rb : Ringbuffer α) (n : ℕ × ℕ) : Ringbuffer α × List α :=
  if n.2 = 0 then (rb.ringbuffer_read_advance n.1, rb.copy_out n.1)
  else ((rb.ringbuffer_read_advance n.1).ringbuffer_read_advance n.2,
    rb.copy_out n.1 ++ (rb.ringbuffer_read_advance n.1).copy_out n.2)

/-- `ringbuffer_write`: the buffer after it, and the number of bytes written. -/
def ringbuffer_write (rb : Ringbuffer α) (src : List α) : Ringbuffer α × ℕ :=
  if rb.ringbuffer_write_space = 0 then (rb, 0)
  else
    let to_write := atMost src.length rb.ringbuffer_write_space
    (rb.write_parts src (rb.parts rb.write_ptr to_write), to_write)

/-- `ringbuffer_read`: the buffer after it, and the bytes that were read. -/
def ringbuffer_read (rb : Ringbuffer α) (cnt : ℕ) : Ringbuffer α × List α :=
  if rb.ringbuffer_read_space = 0 then (rb, [])
  else rb.read_parts (rb.parts rb.read_ptr (atMost cnt rb.ringbuffer_read_space))

/-- The bytes that wait to be read, in order. -/
def contents (rb : Ringbuffer α) : List α :=
  (List.range rb.ringbuffer_read_space).map fun i => rb.buf ((rb.read_ptr + i) % rb.size)

/-- The bytes were copied to where the write pointer is. -/
def Holds (rb : Ringbuffer α) (bytes : List α) : Prop :=
  ∀ i (h : i < bytes.length), rb.buf (rb.write_ptr + i) = bytes[i]

/-! ### Sizes and spaces -/

/-- The loop of `ringbuffer_create` does not stop too early. -/
theorem le_power_of_two {sz n p : ℕ} (h : sz ≤ 2 ^ (p + n)) :
    sz ≤ 2 ^ power_of_two sz n p := by
  induction n generalizing p with
  | zero => exact h
  | succ n ih =>
      simp only [power_of_two, Nat.one_shiftLeft]
      split
      · exact ih (by rwa [Nat.add_assoc, Nat.add_comm 1 n])
      · omega

/-- The buffer holds at least the bytes that were asked for. -/
theorem le_size_create (sz : ℕ) (buf : ℕ → α) : sz ≤ (ringbuffer_create sz buf).size := by
  have hlt : sz ≤ 2 ^ (1 + sz) :=
    (Nat.lt_two_pow_self).le.trans (Nat.pow_le_pow_right (by omega) (by omega))
  simpa [ringbuffer_create, Nat.one_shiftLeft] using le_power_of_two hlt

/-- The loop of `ringbuffer_create` does not go beyond a power that is enough. -/
theorem power_of_two_le {k n p : ℕ} (h : p ≤ k) : power_of_two (2 ^ k) n p ≤ k := by
  induction n generalizing p with
  | zero => exact h
  | succ n ih =>
      simp only [power_of_two, Nat.one_shiftLeft]
      split
      · rename_i hlt
        exact ih ((Nat.pow_lt_pow_iff_right (Nat.lt_succ_self 1)).mp hlt)
      · exact h

/-- A buffer of a power of two of bytes has as many. -/
theorem size_create_two_pow {k : ℕ} (hk : 1 ≤ k) (buf : ℕ → α) :
    (ringbuffer_create (2 ^ k) buf).size = 2 ^ k := by
  refine Nat.le_antisymm ?_ (le_size_create _ buf)
  simp only [ringbuffer_create, Nat.one_shiftLeft]
  exact Nat.pow_le_pow_right (by omega) (power_of_two_le hk)

/-- A remainder of a number below twice the modulus. -/
theorem mod_of_lt_two_mul {x n : ℕ} (h : x < 2 * n) : x % n = if x < n then x else x - n := by
  split
  · exact Nat.mod_eq_of_lt ‹_›
  · rw [Nat.mod_eq_sub_mod (by omega), Nat.mod_eq_of_lt (by omega)]

variable (rb : Ringbuffer α)

/-- The space for reading, without the mask. -/
theorem read_space_eq : rb.ringbuffer_read_space =
    if rb.read_ptr ≤ rb.write_ptr then rb.write_ptr - rb.read_ptr
    else rb.write_ptr + rb.size - rb.read_ptr := by
  have hw := rb.write_lt
  have hr := rb.read_lt
  rw [ringbuffer_read_space, and_mask, mod_of_lt_two_mul (by omega)]
  split_ifs <;> omega

/-- What cannot be read can be written, except for one byte. -/
theorem write_space_add_read_space :
    rb.ringbuffer_write_space + rb.ringbuffer_read_space + 1 = rb.size := by
  have hw := rb.write_lt
  have hr := rb.read_lt
  rw [read_space_eq, ringbuffer_write_space, and_mask, mod_of_lt_two_mul (by omega)]
  split_ifs <;> omega

/-- The write pointer is as far ahead of the read pointer as can be read. -/
theorem write_ptr_eq : rb.write_ptr = (rb.read_ptr + rb.ringbuffer_read_space) % rb.size := by
  have hw := rb.write_lt
  have hr := rb.read_lt
  have hs := rb.write_space_add_read_space
  rw [mod_of_lt_two_mul (by omega), read_space_eq]
  split_ifs <;> omega

@[simp] theorem length_contents : rb.contents.length = rb.ringbuffer_read_space := by
  simp [contents]

theorem read_space_create (sz : ℕ) (buf : ℕ → α) :
    (ringbuffer_create sz buf).ringbuffer_read_space = 0 := by
  simp [read_space_eq, ringbuffer_create]

@[simp] theorem contents_create (sz : ℕ) (buf : ℕ → α) :
    (ringbuffer_create sz buf).contents = [] := by
  simp [contents, read_space_create]

/-- The two parts of an operation: both lie inside the buffer, the second one at its start. -/
theorem parts_spec {ptr cnt : ℕ} (hptr : ptr < rb.size) (hcnt : cnt ≤ rb.size) :
    (rb.parts ptr cnt).1 + (rb.parts ptr cnt).2 = cnt ∧ ptr + (rb.parts ptr cnt).1 ≤ rb.size ∧
      ((rb.parts ptr cnt).2 ≠ 0 → ptr + (rb.parts ptr cnt).1 = rb.size) := by
  rw [parts]
  split
  · rw [and_mask, mod_of_lt_two_mul (by omega)]
    split_ifs <;> simp <;> omega
  · simp
    omega

/-! ### One part of an operation -/

variable {rb} {bytes : List α} {cnt : ℕ}

theorem copy_in_holds : (rb.copy_in bytes).Holds bytes := by
  intro i hi
  simp [copy_in, List.getD_eq_getElem?_getD, hi]

/-- A copy into free space leaves what waits to be read alone. -/
theorem contents_copy_in (hfit : rb.write_ptr + bytes.length ≤ rb.size)
    (hfree : bytes.length ≤ rb.ringbuffer_write_space) :
    (rb.copy_in bytes).contents = rb.contents := by
  have hs := rb.write_space_add_read_space
  have hr := rb.read_lt
  have hw := rb.write_ptr_eq
  rw [mod_of_lt_two_mul (by omega)] at hw
  refine List.map_congr_left fun i hi => ?_
  have hi : i < rb.ringbuffer_read_space := List.mem_range.mp hi
  -- the byte lies behind the write pointer or beyond what was copied
  have hk : (rb.read_ptr + i) % rb.size < rb.write_ptr ∨
      rb.write_ptr + bytes.length ≤ (rb.read_ptr + i) % rb.size := by
    rw [mod_of_lt_two_mul (by omega)]
    split_ifs at * <;> omega
  simp only [copy_in]
  rcases hk with hk | hk
  · rw [if_neg (by omega)]
  · rw [if_pos (by omega), List.getD_eq_default _ _ (by omega)]

/-- Moving the write pointer publishes as many bytes. -/
theorem read_space_write_advance (hfree : cnt ≤ rb.ringbuffer_write_space) :
    (rb.ringbuffer_write_advance cnt).ringbuffer_read_space = rb.ringbuffer_read_space + cnt := by
  have hs := rb.write_space_add_read_space
  have hw := rb.write_lt
  have hr := rb.read_lt
  have hold := rb.read_space_eq
  rw [read_space_eq]
  simp only [ringbuffer_write_advance, and_mask]
  rw [mod_of_lt_two_mul (by omega)]
  split_ifs at * <;> omega

/-- **Publishing a part that was copied appends it.** -/
theorem contents_write_advance (hholds : rb.Holds bytes)
    (hfit : rb.write_ptr + bytes.length ≤ rb.size)
    (hfree : bytes.length ≤ rb.ringbuffer_write_space) :
    (rb.ringbuffer_write_advance bytes.length).contents = rb.contents ++ bytes := by
  have hs := rb.write_space_add_read_space
  have hr := rb.read_lt
  have hw := rb.write_ptr_eq
  rw [mod_of_lt_two_mul (by omega)] at hw
  rw [contents, read_space_write_advance hfree, List.range_add, List.map_append, List.map_map]
  congr 1
  refine List.ext_getElem (by simp) fun i hi hi' => ?_
  simp only [List.getElem_map, List.getElem_range, Function.comp_apply, ringbuffer_write_advance]
  rw [← hholds i hi', mod_of_lt_two_mul (by omega)]
  congr 1
  split_ifs at * <;> omega

/-- Moving the read pointer takes as many bytes away. -/
theorem read_space_read_advance (hdata : cnt ≤ rb.ringbuffer_read_space) :
    (rb.ringbuffer_read_advance cnt).ringbuffer_read_space = rb.ringbuffer_read_space - cnt := by
  have hs := rb.write_space_add_read_space
  have hw := rb.write_lt
  have hr := rb.read_lt
  have hold := rb.read_space_eq
  rw [read_space_eq]
  simp only [ringbuffer_read_advance, and_mask]
  rw [mod_of_lt_two_mul (by omega)]
  split_ifs at * <;> omega

/-- **Advancing the read pointer drops what it passes.** -/
theorem contents_read_advance (hdata : cnt ≤ rb.ringbuffer_read_space) :
    (rb.ringbuffer_read_advance cnt).contents = rb.contents.drop cnt := by
  refine List.ext_getElem (by simp [read_space_read_advance hdata]) fun i hi hi' => ?_
  simp only [contents, List.getElem_map, List.getElem_range, List.getElem_drop,
    ringbuffer_read_advance, and_mask, Nat.mod_add_mod]
  rw [Nat.add_assoc]

/-- A part that is copied out is the first of what waits to be read. -/
theorem copy_out_eq (hfit : rb.read_ptr + cnt ≤ rb.size)
    (hdata : cnt ≤ rb.ringbuffer_read_space) : rb.copy_out cnt = rb.contents.take cnt := by
  refine List.ext_getElem (by simp [copy_out, hdata]) fun i hi hi' => ?_
  have hi : i < cnt := by simpa [copy_out] using hi
  simp only [copy_out, contents, List.getElem_map, List.getElem_range, List.getElem_take]
  rw [Nat.mod_eq_of_lt (by omega)]

/-! ### Whole operations -/

/-- Copying a part in and publishing it appends it. -/
theorem contents_write_part (hfit : rb.write_ptr + bytes.length ≤ rb.size)
    (hfree : bytes.length ≤ rb.ringbuffer_write_space) :
    (rb.write_part bytes).contents = rb.contents ++ bytes := by
  have hpublished : (rb.write_part bytes).contents = (rb.copy_in bytes).contents ++ bytes :=
    contents_write_advance copy_in_holds hfit hfree
  rw [hpublished, contents_copy_in hfit hfree]

theorem size_write_part : (rb.write_part bytes).size = rb.size := rfl

theorem write_ptr_write_part :
    (rb.write_part bytes).write_ptr = (rb.write_ptr + bytes.length) % rb.size := by
  simp [write_part, ringbuffer_write_advance, copy_in]

/-- Writing both parts appends the bytes. -/
theorem contents_write_parts {src : List α} {n : ℕ × ℕ} (hsrc : n.1 + n.2 ≤ src.length)
    (hfree : n.1 + n.2 ≤ rb.ringbuffer_write_space) (hfit : rb.write_ptr + n.1 ≤ rb.size)
    (hwrap : n.2 ≠ 0 → rb.write_ptr + n.1 = rb.size) :
    (rb.write_parts src n).contents = rb.contents ++ src.take (n.1 + n.2) := by
  have hlen : (src.take n.1).length = n.1 := List.length_take_of_le (by omega)
  have hfirst : (rb.write_part (src.take n.1)).contents = rb.contents ++ src.take n.1 :=
    contents_write_part (by omega) (by omega)
  rw [write_parts]
  split
  · rename_i hz
    rw [hfirst, hz, Nat.add_zero]
  · rename_i hz
    have hlen₂ : ((src.drop n.1).take n.2).length = n.2 := by simp; omega
    have hptr : (rb.write_part (src.take n.1)).write_ptr = 0 := by
      rw [write_ptr_write_part, hlen, hwrap hz, Nat.mod_self]
    have hspace := rb.write_space_add_read_space
    have hspace₁ := (rb.write_part (src.take n.1)).write_space_add_read_space
    have hread₁ := congrArg List.length hfirst
    simp only [List.length_append, length_contents, hlen] at hread₁
    rw [size_write_part] at hspace₁
    have hsecond : ((rb.write_part (src.take n.1)).write_part ((src.drop n.1).take n.2)).contents =
        (rb.write_part (src.take n.1)).contents ++ (src.drop n.1).take n.2 :=
      contents_write_part (by rw [size_write_part]; omega) (by omega)
    rw [hsecond, hfirst, List.append_assoc, ← List.take_add]

/-- Reading both parts takes the bytes from the front. -/
theorem read_parts_contents {n : ℕ × ℕ} (hdata : n.1 + n.2 ≤ rb.ringbuffer_read_space)
    (hfit : rb.read_ptr + n.1 ≤ rb.size) (hwrap : n.2 ≠ 0 → rb.read_ptr + n.1 = rb.size) :
    (rb.read_parts n).2 = rb.contents.take (n.1 + n.2) ∧
      (rb.read_parts n).1.contents = rb.contents.drop (n.1 + n.2) ∧
      (rb.read_parts n).1.size = rb.size := by
  have hdata₁ : n.1 ≤ rb.ringbuffer_read_space := by omega
  have hfirst := contents_read_advance hdata₁
  rw [read_parts]
  split
  · rename_i hz
    rw [hz, Nat.add_zero]
    exact ⟨copy_out_eq hfit hdata₁, hfirst, rfl⟩
  · rename_i hz
    have hread := read_space_read_advance hdata₁
    have hptr : (rb.ringbuffer_read_advance n.1).read_ptr = 0 := by
      have hmod : (rb.read_ptr + n.1) % rb.size = 0 := by rw [hwrap hz, Nat.mod_self]
      simpa [ringbuffer_read_advance] using hmod
    have hsize : (rb.ringbuffer_read_advance n.1).size = rb.size := rfl
    have hspace := rb.write_space_add_read_space
    have hdata₂ : n.2 ≤ (rb.ringbuffer_read_advance n.1).ringbuffer_read_space := by omega
    refine ⟨?_, ?_, rfl⟩
    · rw [copy_out_eq hfit hdata₁, copy_out_eq (by omega) hdata₂, hfirst, ← List.take_add]
    · rw [contents_read_advance hdata₂, hfirst, List.drop_drop]

theorem atMost_eq_min (cnt free_cnt : ℕ) : atMost cnt free_cnt = min cnt free_cnt := by
  rw [atMost]
  split <;> omega

theorem size_write_parts {src : List α} {n : ℕ × ℕ} : (rb.write_parts src n).size = rb.size := by
  rw [write_parts]
  split <;> rfl

/-- **An undisturbed write** appends as many of the bytes as there is room for. -/
theorem ringbuffer_write_contents (rb : Ringbuffer α) (src : List α) :
    (rb.ringbuffer_write src).2 = min src.length rb.ringbuffer_write_space ∧
      (rb.ringbuffer_write src).1.contents = rb.contents ++ src.take (rb.ringbuffer_write src).2 ∧
      (rb.ringbuffer_write src).1.size = rb.size := by
  rw [ringbuffer_write]
  split
  · rename_i hfull
    simp [hfull]
  · have hspace := rb.write_space_add_read_space
    have hmin := atMost_eq_min src.length rb.ringbuffer_write_space
    obtain ⟨hsum, hfit, hwrap⟩ := rb.parts_spec rb.write_lt
      (show atMost src.length rb.ringbuffer_write_space ≤ rb.size by omega)
    refine ⟨hmin, ?_, size_write_parts⟩
    rw [contents_write_parts (by omega) (by omega) hfit hwrap, hsum]

/-- **An undisturbed read** takes as many bytes from the front as are asked for and there. -/
theorem ringbuffer_read_contents (rb : Ringbuffer α) (cnt : ℕ) :
    (rb.ringbuffer_read cnt).2 = rb.contents.take cnt ∧
      (rb.ringbuffer_read cnt).1.contents = rb.contents.drop cnt ∧
      (rb.ringbuffer_read cnt).1.size = rb.size := by
  have hlength := rb.length_contents
  rw [ringbuffer_read]
  split
  · rename_i hempty
    have hnil : rb.contents = [] := List.length_eq_zero_iff.mp (by omega)
    simp [hnil]
  · have hspace := rb.write_space_add_read_space
    have hmin := atMost_eq_min cnt rb.ringbuffer_read_space
    obtain ⟨hsum, hfit, hwrap⟩ := rb.parts_spec rb.read_lt
      (show atMost cnt rb.ringbuffer_read_space ≤ rb.size by omega)
    have hparts := read_parts_contents (by omega) hfit hwrap
    rw [hsum, hmin, ← hlength, ← List.take_eq_take_min, ← List.drop_eq_drop_min] at hparts
    rwa [hmin, ← hlength]

end Ringbuffer

end FreeJ
