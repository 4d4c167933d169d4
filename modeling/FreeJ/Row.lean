import FreeJ.Cells
import FreeJ.Keycodes

/-!
# The Rows of a Text Console

`Row` of `abs_text_console.cpp`: a buffer of characters that grows in chunks, the number of
them in use, and the position at which the next edit takes place. The buffer is a run of
`Cells`; what an allocation leaves in cells that nothing was written to is a parameter of the
operations that allocate (`memory`). Allocations succeed.

## Main results

* `Row.insert_char_spec`, `Row.insert_string_spec`, `Row.delete_string_end`,
  `Row.backspace_spec`: what the edits do to the text of a valid row.
-/

namespace FreeJ

/-- `ROWCHUNK` -/
def ROWCHUNK : ℤ := 128

/-- `Row` -/
structure Row where
  len : ℤ
  pos : ℤ
  max : ℤ
  /-- `text != NULL` -/
  allocated : Bool
  text : Cells CHAR

namespace Row

/-- `Row::Row` -/
def new : Row := ⟨0, 0, 0, false, ⟨fun _ => EOL, []⟩⟩

/-- `Row::fit`, the loop: by how much to enlarge. -/
def enlargeLoop (row : Row) (l : ℤ) : ℕ → ℤ → ℤ
  | 0, enlarge => enlarge
  | k + 1, enlarge =>
    if row.len + l ≥ row.max + enlarge then enlargeLoop row l k (enlarge + ROWCHUNK) else enlarge

/-- `Row::fit`, the loop with rounds enough for it to end. -/
def enlarge (row : Row) (l : ℤ) : ℤ :=
  row.enlargeLoop l (row.len + l - row.max + 1).toNat 0

/-- `Row::fit` -/
def fit (row : Row) (memory : ℤ → CHAR) (l : ℤ) : Row :=
  let max := row.max + row.enlarge l
  if row.enlarge l = 0 then row -- can fit without problems
  else if row.allocated then
    { row with
      max := max
      text.cell := fun i => if 0 ≤ i ∧ i < row.max then row.text.cell i else memory i }
  else
    { row with
      max := max
      allocated := true
      text.cell := fun i => if 0 ≤ i ∧ i < max then EOL else memory i }

/-- `Row::insert_string` -/
def insert_string (row : Row) (memory : ℤ → CHAR) (str : ℤ → CHAR) (inlen : ℤ) : ℤ × Row :=
  let row := row.fit memory inlen -- xpand the buffer if needed
  let len := row.len + inlen -- we are growing
  let text := row.text.copyDown inlen (len - row.pos).toNat len -- slide right
  let text := text.set (len + 1) EOL -- termination
  let text := text.forUp (fun c m => m.set (row.pos + c) (str c)) inlen.toNat 0
  (len, { row with len := len, text := text })

/-- `Row::insert_char` -/
def insert_char (row : Row) (memory : ℤ → CHAR) (ch : CHAR) : ℤ × Row :=
  let row := row.fit memory 1 -- check if we need to expand the buffer
  let len := row.len + 1 -- we are growing
  let text := row.text.copyDown 1 (len - row.pos).toNat len -- slide right
  let text := text.set (len + 1) EOL -- termination
  let text := text.set row.pos ch -- new char at current position
  (len, { row with len := len, pos := row.pos + 1, text := text })

/-- `Row::delete_string`, the loop that slides the rightmost chars to the left: the index at
which it ends, and the text. -/
def deleteLoop (row : Row) (dlen : ℤ) : ℕ → ℤ → Cells CHAR → ℤ × Cells CHAR
  | 0, c, m => (c, m)
  | k + 1, c, m =>
    if c + row.pos > row.len then (c, m)
    else deleteLoop row dlen k (c + 1) (m.copy (c + row.pos) (c + row.pos + dlen))

/-- `Row::delete_string` -/
def delete_string (row : Row) (dlen : ℤ) : ℤ × Row :=
  if dlen + row.pos ≥ row.len then -- nothing to move on the right hand of deletion
    (row.pos, { row with len := row.pos })
  else
    let (c, text) := row.deleteLoop dlen dlen.toNat 0 row.text
    (c, { row with len := row.len - dlen, text := text })

/-- `Row::backspace` -/
def backspace (row : Row) : ℤ × Row :=
  if row.pos < 1 then (row.len, row) -- left boundary
  else
    let text :=
      if row.pos ≥ row.len then -- at the end of the line just step one back
        (row.text.copy (row.pos - 1) row.pos).set row.pos CHAR_BLANK
      else -- move all right of the cursor to 1 step left
        row.text.forUp (fun c m => (m.copy (c - 1) c).set c CHAR_BLANK)
          (row.len - row.pos + 1).toNat row.pos
    let len := row.len - 1 -- shrink down one
    (len, { row with pos := row.pos - 1, len := len, text := text.set (len + 1) EOL })

/-- The text of a row, its first `len` characters. -/
def string (row : Row) : List CHAR := row.text.take row.len.toNat

/-- The position is in the text, and the text in the buffer, if there is one. -/
structure Valid (row : Row) : Prop where
  pos_nonneg : 0 ≤ row.pos
  pos_le : row.pos ≤ row.len
  len_le : row.len ≤ row.max
  null : row.allocated = false → row.len = 0 ∧ row.max = 0

theorem new_valid : new.Valid :=
  ⟨Int.le_refl 0, Int.le_refl 0, Int.le_refl 0, fun _ => ⟨rfl, rfl⟩⟩

variable {row : Row} {memory : ℤ → CHAR} {l : ℤ}

/-- A row with a buffer is valid when its position and its length are in range. -/
theorem Valid.of_allocated (halloc : row.allocated = true) (h0 : 0 ≤ row.pos)
    (hpos : row.pos ≤ row.len) (hlen : row.len ≤ row.max) : row.Valid := by
  refine ⟨h0, hpos, hlen, ?_⟩
  rw [halloc]
  rintro ⟨⟩

@[simp] theorem length_string (row : Row) : row.string.length = row.len.toNat :=
  Cells.length_take _ _

/-- A character of the text. -/
theorem getElem?_string (row : Row) (i : ℕ) :
    row.string[i]? = if (i : ℤ) < row.len then some (row.text.cell i) else none := by
  rw [string, Cells.getElem?_take]
  by_cases hi : (i : ℤ) < row.len
  · rw [if_pos hi, if_pos (by omega)]
  · rw [if_neg hi, if_neg (by omega)]

/-! ### Growing the buffer -/

/-- The loop of `fit` ends with room for `l` more. -/
theorem enlargeLoop_spec (row : Row) (l : ℤ) {k : ℕ} (enlarge : ℤ)
    (hk : row.len + l - row.max - enlarge < k) :
    enlarge ≤ row.enlargeLoop l k enlarge ∧
      row.len + l < row.max + row.enlargeLoop l k enlarge := by
  induction k generalizing enlarge with
  | zero =>
      rw [enlargeLoop]
      omega
  | succ k ih =>
      rw [enlargeLoop]
      split
      · have hround : row.len + l - row.max - (enlarge + ROWCHUNK) < k := by
          simp only [ROWCHUNK]
          omega
        have hchunk : (0 : ℤ) ≤ ROWCHUNK := by decide
        have hnext := ih (enlarge + ROWCHUNK) hround
        omega
      · omega

/-- **`fit`** makes room and keeps the text. -/
theorem fit_spec (hv : row.Valid) (memory : ℤ → CHAR) (hl : 0 ≤ l) :
    (row.fit memory l).len = row.len ∧ (row.fit memory l).pos = row.pos ∧
      row.len + l < (row.fit memory l).max ∧ (row.fit memory l).allocated = true ∧
      ∀ i, 0 ≤ i → i < row.len → (row.fit memory l).text.cell i = row.text.cell i := by
  obtain ⟨h0, hroom⟩ := enlargeLoop_spec row l (k := (row.len + l - row.max + 1).toNat) 0 (by omega)
  have hle := hv.len_le
  change 0 ≤ row.enlarge l at h0
  change row.len + l < row.max + row.enlarge l at hroom
  simp only [fit]
  by_cases hfits : row.enlarge l = 0
  · rw [if_pos hfits]
    refine ⟨rfl, rfl, by omega, ?_, fun _ _ _ => rfl⟩
    rcases hnull : row.allocated with _ | _
    · have := hv.null hnull
      omega
    · rfl
  · rw [if_neg hfits]
    rcases hnull : row.allocated with _ | _
    · have hempty := hv.null hnull
      exact ⟨rfl, rfl, hroom, rfl, fun i h1 h2 => by omega⟩
    · refine ⟨rfl, rfl, hroom, rfl, fun i h1 h2 => ?_⟩
      exact if_pos ⟨h1, by omega⟩

/-! ### What the edits do to the text -/

/-- **`insert_string`** inserts the string at the position, which does not move. -/
theorem insert_string_spec (hv : row.Valid) (memory : ℤ → CHAR) (str : ℤ → CHAR)
    (hl : 0 ≤ l) :
    let r := (row.insert_string memory str l).2
    r.Valid ∧ r.pos = row.pos ∧ r.len = row.len + l ∧
      r.string = row.string.take row.pos.toNat ++
        ((List.range l.toNat).map fun i : ℕ => str i) ++ row.string.drop row.pos.toNat := by
  obtain ⟨hlen, hpos, hroom, halloc, hcell⟩ := fit_spec hv memory hl
  have h1 := hv.pos_nonneg
  have h2 := hv.pos_le
  simp only [insert_string]
  rw [hlen, hpos]
  have hslide : row.len + l - ((row.len + l - row.pos).toNat : ℤ) = row.pos := by omega
  have htext : ∀ i : ℤ, 0 ≤ i → i < row.len + l →
      (((((row.fit memory l).text.copyDown l (row.len + l - row.pos).toNat (row.len + l)).set
        (row.len + l + 1) EOL).forUp (fun c m => m.set (row.pos + c) (str c)) l.toNat 0).cell i) =
        if i < row.pos then row.text.cell i
        else if i < row.pos + l then str (i - row.pos)
        else row.text.cell (i - l) := by
    intro i h3 h4
    rw [Cells.fill_cell, Cells.set_cell, Function.update_of_ne (by omega),
      Cells.copyDown_cell hl, hslide]
    by_cases hlt : i < row.pos
    · rw [if_neg (by omega), if_neg (by omega), if_pos hlt, hcell i h3 (by omega)]
    · rw [if_neg hlt]
      by_cases hin : i < row.pos + l
      · rw [if_pos (by omega), if_pos hin]
      · rw [if_neg (by omega), if_neg hin]
        by_cases hp : row.pos < i
        · rw [if_pos (by omega), hcell _ (by omega) (by omega)]
        · have hl0 : i - l = i := by omega
          rw [if_neg (by omega), hcell i h3 (by omega), hl0]
  refine ⟨.of_allocated halloc h1 ?_ ?_, rfl, rfl, ?_⟩
  · change row.pos ≤ row.len + l
    omega
  · change row.len + l ≤ (row.fit memory l).max
    omega
  · have hs : row.string.length = row.len.toNat := length_string row
    have htake : (row.string.take row.pos.toNat).length = row.pos.toNat :=
      List.length_take_of_le (by omega)
    have hins : ((List.range l.toNat).map fun i : ℕ => str i).length = l.toNat := by simp
    refine List.ext_getElem? fun i => ?_
    rw [getElem?_string, List.append_assoc]
    dsimp only
    rcases Nat.lt_or_ge i row.pos.toNat with hlt | hge
    · rw [List.getElem?_append_left (by omega), List.getElem?_take_of_lt hlt, getElem?_string,
        if_pos (by omega), if_pos (by omega), htext i (by omega) (by omega), if_pos (by omega)]
    · rw [List.getElem?_append_right (by omega), htake]
      rcases Nat.lt_or_ge i (row.pos.toNat + l.toNat) with hlt | hge'
      · rw [List.getElem?_append_left (by omega), List.getElem?_map,
          List.getElem?_range (by omega), if_pos (by omega), htext i (by omega) (by omega),
          if_neg (by omega), if_pos (by omega), Option.map_some]
        congr 2
        omega
      · rw [List.getElem?_append_right (by omega), hins, List.getElem?_drop, getElem?_string]
        by_cases hlen' : (i : ℤ) < row.len + l
        · rw [if_pos hlen', if_pos (by omega), htext i (by omega) hlen', if_neg (by omega),
            if_neg (by omega)]
          congr 2
          omega
        · rw [if_neg hlen', if_neg (by omega)]

/-- Inserting between two lists. -/
theorem insertIdx_append (b a : List CHAR) (ch : CHAR) :
    (b ++ a).insertIdx b.length ch = b ++ ch :: a := by
  induction b with
  | nil => rfl
  | cons c b ih =>
      rw [List.cons_append, List.length_cons, List.insertIdx_succ_cons, ih, List.cons_append]

/-- Inserting a character is inserting a string of one character, and moving behind it. -/
theorem insert_char_eq (row : Row) (memory : ℤ → CHAR) (ch : CHAR) :
    (row.insert_char memory ch).2 =
      { (row.insert_string memory (fun _ => ch) 1).2 with pos := (row.fit memory 1).pos + 1 } := by
  rw [insert_char, insert_string]
  dsimp only
  rw [Int.toNat_one, Cells.forUp, Cells.forUp, Int.add_zero]

/-- **`insert_char`** inserts the character at the position, which moves behind it. -/
theorem insert_char_spec (hv : row.Valid) (memory : ℤ → CHAR) (ch : CHAR) :
    let r := (row.insert_char memory ch).2
    r.Valid ∧ r.pos = row.pos + 1 ∧ r.len = row.len + 1 ∧
      r.string = row.string.insertIdx row.pos.toNat ch := by
  obtain ⟨hvalid, -, hlen, hstring⟩ := insert_string_spec hv memory (fun _ => ch) Int.one_nonneg
  have hpos := (fit_spec hv memory Int.one_nonneg).2.1
  have h0 := hv.pos_nonneg
  have hle := hv.pos_le
  have hsplit : row.string.insertIdx row.pos.toNat ch =
      row.string.take row.pos.toNat ++ ch :: row.string.drop row.pos.toNat := by
    have htake : (row.string.take row.pos.toNat).length = row.pos.toNat := by
      rw [List.length_take_of_le]
      rw [length_string]
      omega
    have hinsert := insertIdx_append (row.string.take row.pos.toNat)
      (row.string.drop row.pos.toNat) ch
    rwa [List.take_append_drop, htake] at hinsert
  rw [insert_char_eq, hpos, hsplit]
  refine ⟨⟨?_, ?_, hvalid.len_le, hvalid.null⟩, rfl, hlen, ?_⟩
  · change 0 ≤ row.pos + 1
    omega
  · change row.pos + 1 ≤ (row.insert_string memory (fun _ => ch) 1).2.len
    omega
  · rw [List.append_assoc] at hstring
    exact hstring

/-- **`delete_string`** to the end of the row or further cuts the text at the position. -/
theorem delete_string_end (hv : row.Valid) {dlen : ℤ} (hd : row.len ≤ dlen + row.pos) :
    row.delete_string dlen = (row.pos, { row with len := row.pos }) ∧
      ({ row with len := row.pos } : Row).Valid ∧
      ({ row with len := row.pos } : Row).string = row.string.take row.pos.toNat := by
  have h1 := hv.pos_nonneg
  have h2 := hv.pos_le
  have h3 := hv.len_le
  refine ⟨if_pos hd, ⟨h1, Int.le_refl _, ?_, ?_⟩, ?_⟩
  · change row.pos ≤ row.max
    omega
  · intro hnull
    obtain ⟨hzero, hmax⟩ := hv.null hnull
    refine ⟨?_, hmax⟩
    change row.pos = 0
    omega
  · refine List.ext_getElem? fun i => ?_
    rw [getElem?_string, List.getElem?_take, getElem?_string]
    by_cases hi : i < row.pos.toNat
    · rw [if_pos (by dsimp only; omega), if_pos hi, if_pos (by omega)]
    · rw [if_neg (by dsimp only; omega), if_neg hi]

/-- The loop of `backspace` moves what is right of the position one step left. -/
theorem backspace_loop (m : Cells CHAR) (pos : ℤ) (n : ℕ) (i : ℤ) :
    (m.forUp (fun c m => (m.copy (c - 1) c).set c CHAR_BLANK) n pos).cell i =
      if pos - 1 ≤ i ∧ i < pos + n - 1 then m.cell (i + 1)
      else if i = pos + n - 1 ∧ 0 < n then CHAR_BLANK
      else m.cell i := by
  have hrule := Cells.forUp_rule (c := pos) (n := n) (m := m)
    (fun c m => (m.copy (c - 1) c).set c CHAR_BLANK)
    (I := fun j m' => ∀ i, m'.cell i =
      if pos - 1 ≤ i ∧ i < j - 1 then m.cell (i + 1)
      else if i = j - 1 ∧ pos < j then CHAR_BLANK
      else m.cell i)
    (fun i => by rw [if_neg (by omega), if_neg (by omega)]) ?_
  · rw [hrule i]
    by_cases hn : 0 < n
    · simp only [hn, and_true, show pos < pos + (n : ℤ) by omega]
    · simp only [hn, and_false, show ¬ pos < pos + (n : ℤ) by omega]
  · intro j m' hj hn hI i
    rw [Cells.set_cell, Function.update_apply, Cells.copy_cell, Function.update_apply]
    rcases Int.lt_trichotomy i (j - 1) with hlt | rfl | hgt
    · rw [if_neg (by omega), if_neg (by omega), hI]
      by_cases hp : pos - 1 ≤ i
      · rw [if_pos (by omega), if_pos (by omega)]
      · rw [if_neg (by omega), if_neg (by omega), if_neg (by omega), if_neg (by omega)]
    · rw [if_neg (by omega), if_pos rfl, hI, if_neg (by omega), if_neg (by omega),
        if_pos (by omega)]
      congr 1
      omega
    · by_cases hij : i = j
      · rw [if_pos hij, if_neg (by omega), if_pos (by omega)]
      · rw [if_neg hij, if_neg (by omega), hI, if_neg (by omega), if_neg (by omega),
          if_neg (by omega), if_neg (by omega)]

/-- **`backspace`** deletes the character before the position. -/
theorem backspace_spec (hv : row.Valid) (hp : 1 ≤ row.pos) :
    let r := row.backspace.2
    r.Valid ∧ r.pos = row.pos - 1 ∧ r.len = row.len - 1 ∧
      r.string = row.string.eraseIdx (row.pos - 1).toNat := by
  have h2 := hv.pos_le
  have h3 := hv.len_le
  simp only [backspace]
  rw [if_neg (by omega)]
  refine ⟨⟨?_, ?_, ?_, ?_⟩, rfl, rfl, ?_⟩
  · change 0 ≤ row.pos - 1
    omega
  · change row.pos - 1 ≤ row.len - 1
    omega
  · change row.len - 1 ≤ row.max
    omega
  · intro hnull
    obtain ⟨hzero, hmax⟩ := hv.null hnull
    omega
  · refine List.ext_getElem? fun i => ?_
    rw [getElem?_string, List.getElem?_eraseIdx, getElem?_string, getElem?_string]
    dsimp only
    by_cases hlen : (i : ℤ) < row.len - 1
    · rw [if_pos hlen, Cells.set_cell, Function.update_of_ne (by omega)]
      by_cases hend : row.pos ≥ row.len
      · rw [if_pos hend, if_pos (by omega), if_pos (by omega), Cells.set_cell,
          Function.update_of_ne (by omega), Cells.copy_cell, Function.update_of_ne (by omega)]
      · rw [if_neg hend, backspace_loop]
        by_cases hi : i < (row.pos - 1).toNat
        · rw [if_pos hi, if_neg (by omega), if_neg (by omega), if_pos (by omega)]
        · rw [if_neg hi, if_pos (by omega), if_pos (by omega)]
          congr 2
    · rw [if_neg hlen]
      by_cases hi : i < (row.pos - 1).toNat
      · omega
      · rw [if_neg hi, if_neg (by omega)]

/-! ### The text on both sides of the position -/

/-- A valid row with the text `b` before its position and `a` behind. -/
structure Holds (row : Row) (b a : List CHAR) : Prop where
  valid : row.Valid
  string : row.string = b ++ a
  pos : row.pos = b.length

variable {a b a' b' : List CHAR}

theorem new_holds : new.Holds [] [] := ⟨new_valid, rfl, rfl⟩

/-- A valid row holds what stands before and behind its position. -/
theorem Valid.holds (hv : row.Valid) :
    row.Holds (row.string.take row.pos.toNat) (row.string.drop row.pos.toNat) where
  valid := hv
  string := (List.take_append_drop _ _).symm
  pos := by
    have h1 := hv.pos_nonneg
    have h2 := hv.pos_le
    rw [List.length_take, length_string]
    omega

theorem Holds.len (h : row.Holds b a) : row.len = b.length + a.length := by
  have hlen := congrArg List.length h.string
  have h1 := h.valid.pos_nonneg
  have h2 := h.valid.pos_le
  rw [length_string, List.length_append] at hlen
  omega

/-- The position may be set anywhere in the text. -/
theorem Holds.move (h : row.Holds b a) (heq : b ++ a = b' ++ a') {x : ℤ}
    (hx : x = b'.length) : ({ row with pos := x } : Row).Holds b' a' := by
  have hlen := h.len
  have happ := congrArg List.length heq
  rw [List.length_append, List.length_append] at happ
  refine ⟨⟨?_, ?_, h.valid.len_le, h.valid.null⟩, h.string.trans heq, hx⟩
  · change 0 ≤ x
    omega
  · change x ≤ row.len
    omega

theorem Holds.insert_char (h : row.Holds b a) (memory : ℤ → CHAR) (ch : CHAR) :
    (row.insert_char memory ch).2.Holds (b ++ [ch]) a := by
  obtain ⟨hv, hpos, -, hs⟩ := insert_char_spec h.valid memory ch
  refine ⟨hv, ?_, ?_⟩
  · rw [hs, h.string, h.pos, Int.toNat_natCast, insertIdx_append]
    simp
  · rw [hpos, h.pos, List.length_append, List.length_singleton]
    push_cast
    rfl

theorem Holds.backspace {c : CHAR} (h : row.Holds (b ++ [c]) a) :
    row.backspace.2.Holds b a := by
  have hp := h.pos
  rw [List.length_append, List.length_singleton] at hp
  push_cast at hp
  obtain ⟨hv, hpos, -, hs⟩ := backspace_spec h.valid (by omega)
  refine ⟨hv, ?_, by omega⟩
  have hidx : (row.pos - 1).toNat = b.length := by omega
  rw [hs, h.string, hidx, List.append_assoc, List.eraseIdx_append_of_length_le (Nat.le_refl _)]
  simp

/-- At the beginning of a row there is nothing to delete. -/
theorem Holds.backspace_start (h : row.Holds [] a) : row.backspace.2 = row := by
  have hp : row.pos = 0 := h.pos
  rw [Row.backspace, if_pos (by omega)]

theorem Holds.insert_string (h : row.Holds b a) (memory : ℤ → CHAR) (str : ℤ → CHAR)
    (hl : 0 ≤ l) :
    (row.insert_string memory str l).2.Holds b
      (((List.range l.toNat).map fun i : ℕ => str i) ++ a) := by
  obtain ⟨hv, hpos, -, hs⟩ := insert_string_spec h.valid memory str hl
  refine ⟨hv, ?_, hpos.trans h.pos⟩
  rw [hs, h.string, h.pos, Int.toNat_natCast, List.take_left, List.drop_left,
    List.append_assoc]

/-- `insert_string` returns the new length. -/
theorem insert_string_len (hv : row.Valid) (memory : ℤ → CHAR) (str : ℤ → CHAR)
    (hl : 0 ≤ l) : (row.insert_string memory str l).1 = row.len + l := by
  rw [Row.insert_string]
  dsimp only
  rw [(fit_spec hv memory hl).1]

theorem Holds.delete_string (h : row.Holds b a) {dlen : ℤ} (hd : row.len ≤ dlen + row.pos) :
    (row.delete_string dlen).2.Holds b [] := by
  obtain ⟨heq, hv, hs⟩ := delete_string_end h.valid hd
  rw [heq]
  refine ⟨hv, ?_, h.pos⟩
  rw [hs, h.string, h.pos, Int.toNat_natCast, List.take_left, List.append_nil]

/-- The characters in the buffer from the position on. -/
theorem Holds.after (h : row.Holds b a) :
    ((List.range a.length).map fun i : ℕ => row.text.cell (row.pos + i)) = a := by
  refine List.ext_getElem? fun i => ?_
  have hget := getElem?_string row (b.length + i)
  rw [h.string, List.getElem?_append_right (by omega), Nat.add_sub_cancel_left] at hget
  have hlen := h.len
  have hpos := h.pos
  by_cases hi : i < a.length
  · rw [List.getElem?_map, List.getElem?_range hi, hget, if_pos (by omega)]
    have hidx : row.pos + (i : ℤ) = ((b.length + i : ℕ) : ℤ) := by omega
    rw [Option.map_some, hidx]
  · rw [List.getElem?_eq_none (by simpa using hi), List.getElem?_eq_none (by omega)]

end Row

end FreeJ
