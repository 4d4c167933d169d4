import FreeJ.Row
import FreeJ.Transition

/-!
# Runs of Edits on a Row

The edits of `Row` one after the other, with the position set by the caller before each one.
`fit` enlarges the buffer so that the text and what is inserted fit with one character to
spare. The insertions write the terminator behind that one, `insert_string` slides more than
what is right of the position, and `delete_string` slides as many characters as it deletes,
however many there are.

## Main results

* `delete_string_text_iff`: when a deletion leaves what stands before and behind it.
* `row_laws_iff`: when insertion and deletion do to the text what their names say.
* `inside_edit_iff`: when an edit stays inside the buffer.
* `row_runs_inside_iff`: the runs that stay inside are those in which every edit does.
-/

namespace FreeJ

open Transition

namespace Row

/-- An edit, with what an allocation leaves in cells that nothing was written to. -/
inductive Edit
  | insert_char (memory : ℤ → CHAR) (ch : CHAR)
  | insert_string (memory : ℤ → CHAR) (str : ℤ → CHAR) (inlen : ℕ)
  | delete_string (dlen : ℕ)
  | backspace

def Edit.apply (row : Row) : Edit → Row
  | .insert_char memory ch => (row.insert_char memory ch).2
  | .insert_string memory str inlen => (row.insert_string memory str inlen).2
  | .delete_string dlen => (row.delete_string dlen).2
  | .backspace => row.backspace.2

/-- The row before an edit: the caller has set the position, and nothing was accessed yet. -/
def at_pos (row : Row) (pos : ℤ) : Row :=
  { row with pos := pos, text := ⟨row.text.cell, []⟩ }

/-- Set the position and edit. -/
def edit (row : Row) (op : ℤ × Edit) : Option Row :=
  if 0 ≤ op.1 ∧ op.1 ≤ row.len then some (op.2.apply (row.at_pos op.1)) else none

/-- What the last edit read and wrote is in the buffer. -/
def Inside (row : Row) : Prop := row.text.Within 0 row.max

/-- With `n` more characters there is no place for the terminator behind the one to spare. -/
def Full (row : Row) (n : ℕ) : Prop := ROWCHUNK ∣ row.len + n + 1 ∧ row.max ≤ row.len + n + 1

/-- An insertion leaves room for the terminator, and is not longer than what stands before the
position by more than one; a deletion is not so long that as many characters behind it are not
in the buffer, unless it reaches the end. -/
def Fits (row : Row) (pos : ℤ) : Edit → Prop
  | .insert_char _ _ => ¬ row.Full 1
  | .insert_string _ _ inlen => inlen ≤ pos + 1 ∧ ¬ row.Full inlen
  | .delete_string dlen => row.len ≤ pos + dlen ∨ pos + 2 * dlen ≤ row.max
  | .backspace => True

variable {row : Row} {memory : ℤ → CHAR} {str : ℤ → CHAR} {l : ℤ} {n d : ℕ}

/-! ### The buffer -/

/-- A valid row, with a buffer of whole chunks that the text does not fill. -/
structure Sound (row : Row) : Prop where
  valid : row.Valid
  chunks : ROWCHUNK ∣ row.max
  spare : row.max = 0 ∨ row.len < row.max

theorem new_sound : new.Sound := ⟨new_valid, Int.dvd_zero _, .inl rfl⟩

theorem Sound.at_pos (h : row.Sound) {pos : ℤ} (h0 : 0 ≤ pos) (hle : pos ≤ row.len) :
    (row.at_pos pos).Sound :=
  ⟨⟨h0, hle, h.valid.len_le, h.valid.null⟩, h.chunks, h.spare⟩

/-- The loop of `fit` adds chunks, and none that are not needed. -/
theorem enlargeLoop_chunks (row : Row) (l : ℤ) (k : ℕ) {enlarge : ℤ}
    (hdvd : ROWCHUNK ∣ enlarge)
    (hneed : enlarge = 0 ∨ row.max + enlarge - ROWCHUNK ≤ row.len + l) :
    ROWCHUNK ∣ row.enlargeLoop l k enlarge ∧
      (row.enlargeLoop l k enlarge = 0 ∨
        row.max + row.enlargeLoop l k enlarge - ROWCHUNK ≤ row.len + l) := by
  induction k generalizing enlarge with
  | zero => exact ⟨hdvd, hneed⟩
  | succ k ih =>
      rw [enlargeLoop]
      split
      · exact ih (Int.dvd_add hdvd (Int.dvd_refl _)) (.inr (by omega))
      · exact ⟨hdvd, hneed⟩

/-- The size of the buffer after `fit`. -/
theorem max_fit (row : Row) (memory : ℤ → CHAR) (l : ℤ) :
    (row.fit memory l).max = row.max + row.enlarge l := by
  rw [fit]
  dsimp only
  split
  · omega
  · split <;> rfl

@[simp] theorem touched_fit (row : Row) (memory : ℤ → CHAR) (l : ℤ) :
    (row.fit memory l).text.touched = row.text.touched := by
  rw [fit]
  dsimp only
  split
  · rfl
  · split <;> rfl

/-- **`fit`** leaves whole chunks, and one character to spare at least; there is just one
exactly where the row is full. -/
theorem Sound.fit (h : row.Sound) (memory : ℤ → CHAR) (n : ℕ) :
    ROWCHUNK ∣ (row.fit memory n).max ∧ row.max ≤ (row.fit memory n).max ∧
      ((row.fit memory n).max ≤ row.len + n + 1 ↔ row.Full n) := by
  obtain ⟨h0, hroom⟩ :=
    enlargeLoop_spec row n (k := (row.len + n - row.max + 1).toNat) 0 (by omega)
  obtain ⟨hdvd, hneed⟩ := enlargeLoop_chunks row n (row.len + n - row.max + 1).toNat
    (Int.dvd_zero ROWCHUNK) (.inl rfl)
  change 0 ≤ row.enlarge n at h0
  change row.len + n < row.max + row.enlarge n at hroom
  change ROWCHUNK ∣ row.enlarge n at hdvd
  change row.enlarge n = 0 ∨ row.max + row.enlarge n - ROWCHUNK ≤ row.len + n at hneed
  have hchunks : ROWCHUNK ∣ row.max + row.enlarge n := Int.dvd_add h.chunks hdvd
  rw [max_fit, Full]
  refine ⟨hchunks, by omega, ?_⟩
  unfold ROWCHUNK at *
  omega

/-! ### What is read and written -/

/-- **An insertion stays inside** when it fits. -/
theorem inside_insert_iff (h : row.Sound) (htouched : row.text.touched = []) :
    (row.insert_string memory str n).2.Inside ↔ n ≤ row.pos + 1 ∧ ¬ row.Full n := by
  obtain ⟨hlen, hpos, hroom, -, -⟩ := fit_spec h.valid memory (l := n) (by omega)
  obtain ⟨-, -, hfull⟩ := h.fit memory n
  have h0 := h.valid.pos_nonneg
  have hle := h.valid.pos_le
  have hmem : ∀ i, i ∈ (row.insert_string memory str n).2.text.touched ↔
      (row.pos < i ∧ i ≤ row.len + n) ∨ (row.pos < i + n ∧ i + n ≤ row.len + n) ∨
        i = row.len + n + 1 ∨ (row.pos ≤ i ∧ i < row.pos + n) := by
    intro i
    have hslide : row.len + n - ((row.len + n - row.pos).toNat : ℤ) = row.pos := by omega
    simp only [insert_string, Cells.mem_touched_fill, Cells.mem_touched_set,
      Cells.mem_touched_copyDown_iff, touched_fit, htouched, List.not_mem_nil, hlen, hpos,
      hslide, Int.toNat_natCast, false_or]
    constructor
    · rintro ((h | h | h) | h) <;> simp [h]
    · rintro (h | h | h | h) <;> simp [h]
  have hmax : (row.insert_string memory str n).2.max = (row.fit memory n).max := rfl
  rw [Inside, Cells.Within, hmax, ← hfull]
  constructor
  · intro hin
    have hend := hin _ ((hmem (row.len + n + 1)).mpr (by omega))
    refine ⟨?_, by omega⟩
    by_contra hlong
    have hbefore := hin _ ((hmem (row.pos + 1 - n)).mpr (by omega))
    omega
  · rintro ⟨hshort, hplace⟩ i hi
    have hi := (hmem i).mp hi
    omega

/-- The loop of `delete_string`, when it is left at its end. -/
theorem deleteLoop_eq (row : Row) (dlen : ℤ) (k : ℕ) (c : ℤ) (m : Cells CHAR)
    (hk : c + k + row.pos ≤ row.len) :
    row.deleteLoop dlen k c m =
      (c + k, m.forUp (fun c m => m.copy (c + row.pos) (c + row.pos + dlen)) k c) := by
  induction k generalizing c m with
  | zero => simp [deleteLoop, Cells.forUp]
  | succ k ih =>
      rw [deleteLoop, if_neg (by omega), ih _ _ (by omega), Cells.forUp]
      congr 1
      push_cast
      omega

/-- The stretch that `delete_string` writes, and the one that it reads. -/
theorem mem_touched_deleteLoop (m : Cells CHAR) (pos : ℤ) (d k : ℕ) (i : ℤ) :
    i ∈ (m.forUp (fun c m => m.copy (c + pos) (c + pos + d)) k 0).touched ↔
      i ∈ m.touched ∨ (pos ≤ i ∧ i < pos + k) ∨ (pos + d ≤ i ∧ i < pos + d + k) := by
  have hrule := Cells.forUp_rule (c := 0) (n := k) (m := m)
    (fun c m => m.copy (c + pos) (c + pos + d))
    (I := fun j m' => i ∈ m'.touched ↔
      i ∈ m.touched ∨ (pos ≤ i ∧ i < pos + j) ∨ (pos + d ≤ i ∧ i < pos + d + j))
    ⟨Or.inl, fun h => h.resolve_right (by omega)⟩ ?_
  · rwa [Int.zero_add] at hrule
  · intro j m' hj hn hI
    simp only [Cells.copy, List.mem_cons, hI]
    constructor
    · rintro (rfl | rfl | h | h)
      · exact .inr (.inl (by omega))
      · exact .inr (.inr (by omega))
      · exact .inl h
      · exact .inr (by omega)
    · rintro (h | h)
      · exact .inr (.inr (.inl h))
      · by_cases htarget : i = j + pos
        · exact .inl htarget
        by_cases hsource : i = j + pos + d
        · exact .inr (.inl hsource)
        · exact .inr (.inr (.inr (by omega)))

/-- The loop of `delete_string` gets each cell from as much further on as is deleted. -/
theorem slide_cell (m : Cells CHAR) (pos : ℤ) (d : ℕ) (i : ℤ) :
    (m.forUp (fun c m => m.copy (c + pos) (c + pos + d)) d 0).cell i =
      if pos ≤ i ∧ i < pos + d then m.cell (i + d) else m.cell i := by
  have hrule := Cells.forUp_rule (c := 0) (n := d) (m := m)
    (fun c m => m.copy (c + pos) (c + pos + d))
    (I := fun j m' => ∀ i, m'.cell i =
      if pos ≤ i ∧ i < pos + j then m.cell (i + d) else m.cell i)
    (fun i => by rw [if_neg (by omega)]) ?_
  · rw [Int.zero_add] at hrule
    exact hrule i
  · intro j m' hj hn hI i
    rw [Cells.copy_cell, Function.update_apply]
    by_cases hij : i = j + pos
    · -- what is read was not written yet
      rw [if_pos hij, hI, if_neg (by omega), if_pos (by omega), hij]
    · rw [if_neg hij, hI]
      by_cases hlt : pos ≤ i ∧ i < pos + j
      · rw [if_pos hlt, if_pos (by omega)]
      · rw [if_neg hlt, if_neg (by omega)]

/-- A deletion before the end. -/
theorem delete_string_before (hd : row.pos + d < row.len) :
    (row.delete_string d).2 = { row with
      len := row.len - d
      text := row.text.forUp (fun c m => m.copy (c + row.pos) (c + row.pos + d)) d 0 } := by
  rw [delete_string, if_neg (by omega), Int.toNat_natCast,
    deleteLoop_eq _ _ _ _ _ (by omega)]

/-- **A deletion stays inside** when it fits. -/
theorem inside_delete_iff (h : row.Sound) (htouched : row.text.touched = []) :
    (row.delete_string d).2.Inside ↔
      row.len ≤ row.pos + d ∨ row.pos + 2 * d ≤ row.max := by
  have h0 := h.valid.pos_nonneg
  by_cases hend : row.len ≤ row.pos + d
  · rw [(delete_string_end h.valid (by omega)).1]
    refine iff_of_true ?_ (.inl hend)
    rw [Inside, Cells.Within]
    dsimp only
    rw [htouched]
    exact fun i hi => nomatch hi
  · have hmax : row.len ≤ row.max := h.valid.len_le
    have hbefore : row.pos + d < row.len := by omega
    rw [delete_string_before hbefore, Inside, Cells.Within]
    simp only [mem_touched_deleteLoop, htouched, List.not_mem_nil, false_or]
    constructor
    · intro hin
      by_cases hzero : d = 0
      · exact .inr (by omega)
      · have hlast := hin (row.pos + d + d - 1) (.inr (by omega))
        exact .inr (by omega)
    · intro hfits i hi
      omega

/-- **`backspace` stays inside.** -/
theorem inside_backspace (h : row.Sound) (htouched : row.text.touched = []) :
    row.backspace.2.Inside := by
  have hempty : row.text.Within 0 row.max := by
    rw [Cells.Within, htouched]
    exact fun i hi => nomatch hi
  have hle := h.valid.pos_le
  have hmax := h.valid.len_le
  have hspare := h.spare
  rw [backspace]
  split
  · exact hempty
  · rw [Inside]
    dsimp only
    refine Cells.Within.set ?_ (by omega) (by omega)
    split
    · exact (hempty.copy (by omega) (by omega) (by omega) (by omega)).set (by omega) (by omega)
    · refine Cells.forUp_rule _ (I := fun _ m => m.Within 0 row.max) hempty ?_
      intro i m h1 h2 hI
      exact (hI.copy (by omega) (by omega) (by omega) (by omega)).set (by omega) (by omega)

/-! ### Runs -/

/-- An edit at a position leaves a sound row. -/
theorem Sound.apply (h : row.Sound) (e : Edit) : (e.apply row).Sound := by
  have hinsert : ∀ (memory : ℤ → CHAR) (str : ℤ → CHAR) (n : ℕ),
      (row.insert_string memory str n).2.Sound := by
    intro memory str n
    obtain ⟨hv, -, hlen, -⟩ := insert_string_spec h.valid memory str (l := n) (by omega)
    obtain ⟨hdvd, -, -⟩ := h.fit memory n
    obtain ⟨-, -, hroom, -, -⟩ := fit_spec h.valid memory (l := n) (by omega)
    refine ⟨hv, hdvd, .inr ?_⟩
    rw [hlen]
    exact hroom
  cases e with
  | insert_char memory ch =>
      have hsound := hinsert memory (fun _ => ch) 1
      rw [Edit.apply]
      refine ⟨(insert_char_spec h.valid memory ch).1, ?_, ?_⟩ <;> rw [insert_char_eq]
      · exact hsound.chunks
      · exact hsound.spare
  | insert_string memory str n => exact hinsert memory str n
  | delete_string d =>
      have hvalid := h.valid
      rw [Edit.apply]
      by_cases hend : row.len ≤ row.pos + d
      · have hd : row.len ≤ (d : ℤ) + row.pos := by omega
        obtain ⟨heq, hv, -⟩ := delete_string_end h.valid hd
        rw [heq]
        exact ⟨hv, h.chunks, h.spare.imp id fun hlt => Int.lt_of_le_of_lt hvalid.pos_le hlt⟩
      · have hbefore : row.pos + d < row.len := by omega
        rw [delete_string_before hbefore]
        have hlt : row.len - d ≤ row.len := by omega
        refine ⟨⟨hvalid.pos_nonneg, ?_, Int.le_trans hlt hvalid.len_le, ?_⟩, h.chunks,
          h.spare.imp id fun hmax : row.len < row.max => Int.lt_of_le_of_lt hlt hmax⟩
        · change row.pos ≤ row.len - d
          omega
        · intro hnull
          have hzero := hvalid.null hnull
          have := hvalid.pos_nonneg
          omega
  | backspace =>
      rw [Edit.apply]
      by_cases hp : 1 ≤ row.pos
      · obtain ⟨hv, -, hlen, -⟩ := backspace_spec h.valid hp
        have hmax : row.backspace.2.max = row.max := by
          rw [backspace]
          split <;> rfl
        refine ⟨hv, ?_, ?_⟩ <;> rw [hmax]
        · exact h.chunks
        · exact h.spare.imp id fun hlt => by omega
      · rw [backspace, if_pos (by omega)]
        exact h

/-- **An edit stays inside the buffer** exactly when it fits. -/
theorem inside_edit_iff {op : ℤ × Edit} {row' : Row} (h : row.Sound)
    (hedit : row.edit op = some row') : row'.Inside ↔ row.Fits op.1 op.2 := by
  obtain ⟨pos, e⟩ := op
  rw [edit] at hedit
  split at hedit
  · rename_i hpos
    obtain rfl := Option.some.inj hedit
    have hsound := h.at_pos hpos.1 hpos.2
    cases e with
    | insert_char memory ch =>
        have hiff : (Row.insert_string _ memory (fun _ => ch) 1).2.Inside ↔ _ :=
          inside_insert_iff hsound rfl
        rw [Edit.apply, insert_char_eq]
        have hone : (1 : ℕ) ≤ pos + 1 := by
          have := hpos.1
          omega
        exact hiff.trans (and_iff_right hone)
    | insert_string memory str n => exact inside_insert_iff hsound rfl
    | delete_string d => exact inside_delete_iff hsound rfl
    | backspace => exact iff_of_true (inside_backspace hsound rfl) trivial
  · exact nomatch hedit

theorem Sound.edit {op : ℤ × Edit} {row' : Row} (h : row.Sound)
    (hedit : row.edit op = some row') : row'.Sound := by
  rw [Row.edit] at hedit
  split at hedit
  · rename_i hpos
    obtain rfl := Option.some.inj hedit
    exact (h.at_pos hpos.1 hpos.2).apply op.2
  · exact nomatch hedit

theorem Sound.exec {ops : List (ℤ × Edit)} {row' : Row} (h : row.Sound)
    (hexec : exec Row.edit row ops = some row') : row'.Sound := by
  induction ops generalizing row with
  | nil => exact Option.some.inj hexec ▸ h
  | cons op ops ih =>
      obtain ⟨next, hedit, hexec⟩ := Option.bind_eq_some_iff.mp hexec
      exact ih (h.edit hedit) hexec

/-- **A run of edits stays inside the buffer** exactly when every edit of it fits. -/
theorem row_runs_inside_iff {ops : List (ℤ × Edit)} {t : Row} (hrun : exec edit new ops = some t) :
    (∀ as row, as <+: ops → exec edit new as = some row → row.Inside) ↔
      ∀ as op row, as ++ [op] <+: ops → exec edit new as = some row → row.Fits op.1 op.2 := by
  constructor
  · intro h as op row hpre hrow
    obtain ⟨next, hedit, hnext⟩ := exists_exec_concat hrun hpre hrow
    exact (inside_edit_iff (new_sound.exec hrow) hedit).mp (h _ next hpre hnext)
  · intro h as row hpre hrow
    rcases List.eq_nil_or_concat as with rfl | ⟨as, op, rfl⟩
    · obtain rfl := Option.some.inj hrow
      exact fun i hi => nomatch hi
    · rw [List.concat_eq_append] at hpre hrow
      rw [exec_concat] at hrow
      obtain ⟨before, hbefore, hedit⟩ := Option.bind_eq_some_iff.mp hrow
      exact (inside_edit_iff (new_sound.exec hbefore) hedit).mpr (h as op before hpre hbefore)

/-- One character is typed. -/
theorem row_runs_inside_iff_typed :
    (∀ as row, as <+: [((0 : ℤ), Edit.insert_char (fun _ => EOL) CHAR_BLANK)] →
        exec edit new as = some row → row.Inside) ↔
      ∀ as op row, as ++ [op] <+: [((0 : ℤ), Edit.insert_char (fun _ => EOL) CHAR_BLANK)] →
        exec edit new as = some row → row.Fits op.1 op.2 :=
  row_runs_inside_iff rfl

/-- Two characters are inserted into an empty row: what is slid begins before the buffer. -/
theorem insert_string_before_buffer :
    ¬ ∀ (ops : List (ℤ × Edit)) (row : Row), exec edit new ops = some row → row.Inside := by
  intro h
  have hin := h [(0, .insert_string (fun _ => EOL) (fun _ => CHAR_BLANK) 2)] _ rfl
  have hread := hin (-1) (by decide)
  omega

/-! ### The text -/

/-- What a deletion leaves: it slides as many characters as it deletes, and what stands behind
these stays where it was. -/
theorem delete_string_text (hv : row.Valid) (d : ℕ) :
    (row.delete_string d).2.string = row.string.take row.pos.toNat ++
      ((row.string.drop (row.pos.toNat + d)).take d ++
        (row.string.drop (row.pos.toNat + d)).take
          ((row.string.drop (row.pos.toNat + d)).length - d)) := by
  have h0 := hv.pos_nonneg
  have hle := hv.pos_le
  have hlength := length_string row
  by_cases hend : row.len ≤ row.pos + d
  · have hd : row.len ≤ (d : ℤ) + row.pos := by omega
    have hnil : row.string.drop (row.pos.toNat + d) = [] :=
      List.drop_eq_nil_of_le (by omega)
    obtain ⟨heq, -, hstring⟩ := delete_string_end hv hd
    rw [heq, hstring, hnil]
    simp
  · have hbefore : row.pos + d < row.len := by omega
    have htake : (row.string.take row.pos.toNat).length = row.pos.toNat :=
      List.length_take_of_le (by omega)
    rw [delete_string_before hbefore]
    refine List.ext_getElem? fun i => ?_
    rw [getElem?_string]
    have hcell := slide_cell row.text row.pos d i
    dsimp only
    rw [hcell]
    have hrest : ∀ k : ℕ, (row.string.drop (row.pos.toNat + d))[k]? =
        if row.pos + d + k < row.len then some (row.text.cell (row.pos + d + k)) else none := by
      intro k
      have hindex : ((row.pos.toNat + d + k : ℕ) : ℤ) = row.pos + d + k := by omega
      rw [List.getElem?_drop, getElem?_string, hindex]
    have hrestlen : (row.string.drop (row.pos.toNat + d)).length =
        (row.len - row.pos - d).toNat := by
      rw [List.length_drop]
      omega
    rcases Nat.lt_or_ge i row.pos.toNat with hlt | hge
    · rw [List.getElem?_append_left (by omega), List.getElem?_take_of_lt hlt, getElem?_string,
        if_pos (by omega), if_neg (by omega), if_pos (by omega)]
    · rw [List.getElem?_append_right (by omega), htake]
      rcases Nat.lt_or_ge (i - row.pos.toNat) (min d (row.len - row.pos - d).toNat) with hin | hout
      · rw [List.getElem?_append_left (by rw [List.length_take]; omega),
          List.getElem?_take_of_lt (by omega), hrest, if_pos (by omega), if_pos (by omega),
          if_pos (by omega)]
        congr 2
        omega
      · rw [List.getElem?_append_right (by rw [List.length_take]; omega), List.length_take,
          hrestlen, List.getElem?_take, hrest]
        by_cases hlen : (i : ℤ) < row.len - d
        · rw [if_pos hlen, if_neg (by omega), if_pos (by omega), if_pos (by omega)]
          congr 2
          omega
        · rw [if_neg hlen, if_neg (by omega)]

/-- **A deletion deletes** exactly when what stands behind the characters that slide begins what
stands behind the deletion. -/
theorem delete_string_text_iff (hv : row.Valid) (d : ℕ) :
    (row.delete_string d).2.string =
        row.string.take row.pos.toNat ++ row.string.drop (row.pos.toNat + d) ↔
      row.string.drop (row.pos.toNat + 2 * d) <+: row.string.drop (row.pos.toNat + d) := by
  have hdrop : row.string.drop (row.pos.toNat + 2 * d) =
      (row.string.drop (row.pos.toNat + d)).drop d := by
    rw [List.drop_drop]
    congr 1
    omega
  rw [delete_string_text hv, hdrop, List.append_cancel_left_eq]
  generalize row.string.drop (row.pos.toNat + d) = rest
  calc rest.take d ++ rest.take (rest.length - d) = rest
      ↔ rest.take d ++ rest.take (rest.length - d) = rest.take d ++ rest.drop d := by
        rw [List.take_append_drop]
    _ ↔ rest.drop d = rest.take (rest.drop d).length := by
        rw [List.append_cancel_left_eq, List.length_drop, eq_comm]
    _ ↔ rest.drop d <+: rest := List.prefix_iff_eq_take.symm

/-- What insertion and deletion are for: a string is inserted at the position, characters behind
the position are deleted, and what was inserted can be taken away again. -/
structure Laws (row : Row) (memory : ℤ → CHAR) (str : ℤ → CHAR) (n d : ℕ) (ch : CHAR) :
    Prop where
  inserted : (row.insert_string memory str n).2.string = row.string.take row.pos.toNat ++
    ((List.range n).map fun i : ℕ => str i) ++ row.string.drop row.pos.toNat
  deleted : (row.delete_string d).2.string =
    row.string.take row.pos.toNat ++ row.string.drop (row.pos.toNat + d)
  typed : (row.insert_char memory ch).2.backspace.2.string = row.string ∧
    (row.insert_char memory ch).2.backspace.2.pos = row.pos
  undone : ((row.insert_string memory str n).2.delete_string n).2.string = row.string

/-- A character that was typed is taken back. -/
theorem insert_char_backspace (hv : row.Valid) (memory : ℤ → CHAR) (ch : CHAR) :
    (row.insert_char memory ch).2.backspace.2.string = row.string ∧
      (row.insert_char memory ch).2.backspace.2.pos = row.pos := by
  have h := (hv.holds.insert_char memory ch).backspace
  refine ⟨h.string.trans hv.holds.string.symm, h.pos.trans hv.holds.pos.symm⟩

/-- Deleting a string that stands at the position. -/
theorem Holds.delete_iff {b a s : List CHAR} (h : row.Holds b (s ++ a)) :
    (row.delete_string s.length).2.string = b ++ a ↔ a.drop s.length <+: a := by
  have hiff := delete_string_text_iff h.valid s.length
  have htake : row.string.take row.pos.toNat = b := by
    rw [h.string, h.pos, Int.toNat_natCast, List.take_left]
  have hdrop : ∀ k, row.string.drop (row.pos.toNat + (s.length + k)) = a.drop k := by
    intro k
    rw [h.string, h.pos, Int.toNat_natCast, ← List.drop_drop, List.drop_left, ← List.drop_drop,
      List.drop_left]
  have hdrop0 := hdrop 0
  rw [Nat.add_zero, List.drop_zero] at hdrop0
  rwa [htake, Nat.two_mul, hdrop, hdrop0] at hiff

/-- A string that was inserted is deleted again. -/
theorem insert_delete_iff (hv : row.Valid) (memory : ℤ → CHAR) (str : ℤ → CHAR) (n : ℕ) :
    ((row.insert_string memory str n).2.delete_string n).2.string = row.string ↔
      row.string.drop (row.pos.toNat + n) <+: row.string.drop row.pos.toNat := by
  have hins := hv.holds.insert_string memory str (l := n) (by omega)
  have hlength : ((List.range (n : ℤ).toNat).map fun i : ℕ => str i).length = n := by simp
  have hiff := hins.delete_iff
  rwa [hlength, List.take_append_drop, List.drop_drop] at hiff

/-- **Insertion and deletion are right** exactly when the deletion, and that of what was
inserted, slide all that must move, or something that looks the same. -/
theorem row_laws_iff (hv : row.Valid) (memory : ℤ → CHAR) (str : ℤ → CHAR) (n d : ℕ)
    (ch : CHAR) : row.Laws memory str n d ch ↔
      row.string.drop (row.pos.toNat + 2 * d) <+: row.string.drop (row.pos.toNat + d) ∧
        row.string.drop (row.pos.toNat + n) <+: row.string.drop row.pos.toNat := by
  rw [← delete_string_text_iff hv, ← insert_delete_iff hv memory str]
  constructor
  · exact fun h => ⟨h.deleted, h.undone⟩
  · rintro ⟨hdeleted, hundone⟩
    refine ⟨?_, hdeleted, insert_char_backspace hv memory ch, hundone⟩
    obtain ⟨-, -, -, hstring⟩ := insert_string_spec hv memory str (l := n) (by omega)
    rwa [Int.toNat_natCast] at hstring

/-- The empty row. -/
theorem row_laws_iff_new :
    new.Laws (fun _ => EOL) (fun _ => CHAR_BLANK) 1 1 CHAR_BLANK ↔
      new.string.drop (new.pos.toNat + 2 * 1) <+: new.string.drop (new.pos.toNat + 1) ∧
        new.string.drop (new.pos.toNat + 1) <+: new.string.drop new.pos.toNat :=
  row_laws_iff new_valid _ _ 1 1 CHAR_BLANK

/-- A row with the text `abc`. -/
def abc : Row := ⟨3, 0, 128, true, ⟨fun i => BitVec.ofInt 8 (0x61 + i), []⟩⟩

/-- The first of three characters is deleted, and the second one stays twice. -/
theorem delete_string_keeps : ¬ ∀ (row : Row) (memory : ℤ → CHAR) (str : ℤ → CHAR) (n d : ℕ)
    (ch : CHAR), row.Valid → row.Laws memory str n d ch := by
  intro h
  have hvalid : abc.Valid := .of_allocated rfl (by decide) (by decide) (by decide)
  have hdeleted := (h abc (fun _ => EOL) (fun _ => EOL) 0 1 EOL hvalid).deleted
  exact absurd hdeleted (by decide)

end Row

end FreeJ
