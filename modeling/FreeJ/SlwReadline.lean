import FreeJ.Cells
import FreeJ.Keycodes
import FreeJ.Linklist
import FreeJ.Transition

/-!
# The Console Command Line

`SlwReadline::parser_commandline` of `console_readline_ctrl.cpp`, which edits a command in a
buffer of `MAX_CMDLINE` characters, the string in it ending at the first `EOL`, and `readline`,
which starts a session. The buffer is a run of `Cells`, so that every access to it is
recorded. A loop that looks for `EOL` has `MAX_CMDLINE` rounds before it counts as not
terminating. The entry that the history gets is allocated by the caller of the model (`entr`),
and the two callbacks are part of the state.

## Main results

* `Shows.edit`: an editing key performs its edit on the text that the buffer shows.
* `command_line_refines`: so it is over whole sessions, as long as a printable key finds room;
  one that does not makes an access out of the buffer.
-/

namespace FreeJ

open Function (update)

/-- `MAX_CMDLINE` -/
def MAX_CMDLINE : ℕ := 256

/-- `SlwReadline::parser_t` -/
inductive Parser
  | DEFAULT
  | COMMANDLINE
  | MOVELAYER
  deriving DecidableEq, Repr

/-- `SlwReadline` -/
structure SlwReadline (E : Type*) where
  parser : Parser
  commandline : Bool
  cursor : ℤ
  command : Cells CHAR
  history : Heap E Unit
  /-- the strings that the entries of the history point to -/
  data : E → List CHAR
  cmd_process : List CHAR → ℤ
  cmd_complete : Option (Cells CHAR → ℤ × Cells CHAR)

namespace SlwReadline

/-- `for(; m[c + off] != EOL; c++) body` -/
def untilEOL (off : ℤ) (body : ℤ → Cells CHAR → Cells CHAR) (c : ℤ) (m : Cells CHAR) :
    Option (ℤ × Cells CHAR) :=
  m.forUntil EOL off body MAX_CMDLINE c

/-- `strlen` -/
def strlen (m : Cells CHAR) : Option (ℤ × Cells CHAR) := untilEOL 0 (fun _ m => m) 0 m

/-- `memset(command, EOL, MAX_CMDLINE)` -/
def blank (m : Cells CHAR) : Cells CHAR :=
  m.forUp (fun c m => m.set c EOL) MAX_CMDLINE 0

/-- `strncpy(command, str, MAX_CMDLINE)` -/
def strncpy (m : Cells CHAR) (str : List CHAR) : Cells CHAR :=
  m.forUp (fun c m => m.set c (str.getD c.toNat EOL)) MAX_CMDLINE 0

/-- The string in the buffer. -/
def string (m : Cells CHAR) : List CHAR := (m.take MAX_CMDLINE).takeWhile (· ≠ EOL)

variable {E : Type*}

/-! ### Editing -/

/-- `parser_commandline`, the loop of backspace: it stops after it has moved the `EOL`. -/
def backspaceLoop : ℕ → ℤ → Cells CHAR → Cells CHAR
  | 0, _, m => m
  | n + 1, c, m =>
    let m := (m.copy (c - 1) c).touch c
    if m.cell c = EOL then m else backspaceLoop n (c + 1) m

/-- `parser_commandline`, backspace -/
def backspace (s : SlwReadline E) : SlwReadline E :=
  if s.cursor = 0 then s
  else { s with
    command := backspaceLoop (MAX_CMDLINE - s.cursor).toNat s.cursor s.command
    cursor := s.cursor - 1 }

/-- `parser_commandline`, left -/
def left (s : SlwReadline E) : SlwReadline E :=
  if s.cursor = 0 then s else { s with cursor := s.cursor - 1 }

/-- `parser_commandline`, right -/
def right (s : SlwReadline E) : SlwReadline E :=
  { s with
    command := s.command.touch s.cursor
    cursor := if s.command.cell s.cursor = EOL then s.cursor else s.cursor + 1 }

/-- `parser_commandline`, ctrl-d -/
def ctrl_d (s : SlwReadline E) : Option (SlwReadline E) :=
  (untilEOL 0 (fun c m => m.copy c (c + 1)) s.cursor s.command).map fun (_, m) =>
    { s with command := m }

/-- `parser_commandline`, ctrl-e -/
def ctrl_e (s : SlwReadline E) : Option (SlwReadline E) :=
  (untilEOL 0 (fun _ m => m) s.cursor s.command).map fun (c, m) =>
    { s with command := m, cursor := c }

/-- `parser_commandline`, ctrl-k -/
def ctrl_k (s : SlwReadline E) : Option (SlwReadline E) :=
  (untilEOL 0 (fun c m => m.set c EOL) s.cursor s.command).map fun (_, m) =>
    { s with command := m }

/-- `parser_commandline`, ctrl-u -/
def ctrl_u (s : SlwReadline E) : Option (SlwReadline E) :=
  (untilEOL s.cursor (fun c m => m.copy c (s.cursor + c)) 0 s.command).bind fun (c, m) =>
    (untilEOL 0 (fun c m => m.set c EOL) c m).map fun (_, m) =>
      { s with command := m, cursor := 0 }

/-- `parser_commandline`, add char at cursor position -/
def insert (s : SlwReadline E) (key : ℤ) : Option (SlwReadline E) :=
  (untilEOL 0 (fun _ m => m) s.cursor s.command).map fun (c, m) => -- go to the EOL
    let m := m.set (c + 1) EOL -- be sure we have a EOL
    let m := m.copyDown 1 (c - s.cursor).toNat c -- move backwards switching right
    { s with command := m.set s.cursor (charOf key), cursor := s.cursor + 1 }

/-! ### The other keys -/

section Parser

variable [DecidableEq E]

/-- `parser_commandline`, enter -/
def enter (s : SlwReadline E) (entr : E) : SlwReadline E :=
  let s := { s with command := s.command.touch 0 }
  if s.command.cell 0 = EOL then { s with parser := .DEFAULT } -- a blank commandline
  else if s.cmd_process (string s.command) < 0 then s
  else
    let history := Linklist.append (Entry.construct s.history entr) () entr
    { s with
      parser := .DEFAULT
      data := update s.data entr (string s.command) -- save in commandline history
      history :=
        if history.length () > 32 then
          match history.first () with
          | some oldest => Entry.rem history oldest
          | none => history
        else history
      command := blank s.command }

/-- `parser_commandline`, type the command of an entry on the console. -/
def showEntry (s : SlwReadline E) (entr : E) : Option (SlwReadline E) :=
  (strlen (strncpy s.command (s.data entr))).map fun (n, m) =>
    { s with command := m, cursor := n }

/-- `parser_commandline`, pick from history -/
def up (s : SlwReadline E) : Option (SlwReadline E) :=
  match Linklist.selected s.history () with
  | none => -- select the latest
    match s.history.last () with
    | none => some s
    | some entr => showEntry { s with history := Entry.sel s.history entr true } entr
  | some selected =>
    match s.history.prev selected with
    | none => some s
    | some entr =>
      (Linklist.sel s.history () 0).bind fun history =>
        showEntry { s with history := Entry.sel history entr true } entr

/-- `parser_commandline`, tab -/
def tab (s : SlwReadline E) : Option (SlwReadline E) :=
  match s.cmd_complete with
  | none => some s
  | some complete =>
    let m := s.command.touch 0
    let (res, m) := complete (if m.cell 0 = charOf KEY_NEWLINE then m.set 0 EOL else m)
    if res = 0 then some { s with command := m }
    else (strlen m).map fun (n, m) => { s with command := m, cursor := n }

/-- `parser_commandline`, the switch: whether the key was known. For the arrow down the local
variable `entr` is still a null pointer. -/
def switch (s : SlwReadline E) (key : ℤ) (entr : E) : Option (Bool × SlwReadline E) :=
  if key = SL_KEY_ENTER ∨ key = KEY_ENTER then some (true, s.enter entr)
  else if key = SL_KEY_UP then s.up.map (true, ·)
  else if key = SL_KEY_DOWN then some (true, s)
  else if key = KEY_CTRL_G then
    some (true, { s with parser := .DEFAULT, command := blank s.command })
  else if key = KEY_TAB then s.tab.map (true, ·)
  else if key = KEY_BACKSPACE ∨ key = KEY_BACKSPACE_APPLE ∨ key = KEY_BACKSPACE_SOMETIMES then
    some (true, s.backspace)
  else if key = SL_KEY_LEFT then some (true, s.left)
  else if key = SL_KEY_RIGHT then some (true, s.right)
  else if key = KEY_CTRL_D then s.ctrl_d.map (true, ·)
  else if key = KEY_CTRL_A ∨ key = KEY_HOME then some (true, { s with cursor := 0 })
  else if key = KEY_CTRL_E then s.ctrl_e.map (true, ·)
  else if key = KEY_CTRL_K then s.ctrl_k.map (true, ·)
  else if key = KEY_CTRL_U then s.ctrl_u.map (true, ·)
  else some (false, s)

/-- `SlwReadline::parser_commandline` -/
def parser_commandline (s : SlwReadline E) (key : ℤ) (entr : E) :
    Option (Bool × SlwReadline E) :=
  let s := { s with commandline := true } -- don't print statusline
  if s.cursor > (MAX_CMDLINE : ℤ) then some (true, s)
  else
    (s.switch key entr).bind fun (parsres, s) =>
      if key ≥ 32 ∧ key < 127 then (s.insert key).map (true, ·) else some (parsres, s)

end Parser

/-- `SlwReadline::readline`. The record of accesses to the buffer starts with the session. -/
def readline (s : SlwReadline E) (proc : List CHAR → ℤ)
    (comp : Option (Cells CHAR → ℤ × Cells CHAR)) : Option (SlwReadline E) :=
  let s := { s with
    command := blank ⟨s.command.cell, []⟩
    cmd_process := proc
    cmd_complete := comp
    commandline := true
    parser := .COMMANDLINE }
  let m := match comp with
    | some complete => (complete s.command).2
    | none => s.command
  (strlen m).map fun (n, m) => { s with command := m, cursor := n }

end SlwReadline

/-! ### A text with a cursor -/

/-- A line of text and the number of characters before the cursor. -/
structure Line where
  text : List CHAR
  cursor : ℕ
  deriving DecidableEq, Repr

namespace Line

/-- Insert at the cursor, if the line has room. -/
def insert (l : Line) (c : CHAR) : Line :=
  if l.text.length < MAX_CMDLINE - 1 then ⟨l.text.insertIdx l.cursor c, l.cursor + 1⟩ else l

/-- Delete before the cursor. -/
def backspace (l : Line) : Line :=
  if l.cursor = 0 then l else ⟨l.text.eraseIdx (l.cursor - 1), l.cursor - 1⟩

/-- Delete at the cursor. -/
def delete (l : Line) : Line := ⟨l.text.eraseIdx l.cursor, l.cursor⟩

/-- What a key of the editor does. -/
def edit (l : Line) (key : ℤ) : Line :=
  if 32 ≤ key ∧ key ≤ 126 then l.insert (charOf key)
  else if key = KEY_BACKSPACE ∨ key = KEY_BACKSPACE_APPLE ∨ key = KEY_BACKSPACE_SOMETIMES then
    l.backspace
  else if key = SL_KEY_LEFT then ⟨l.text, l.cursor - 1⟩
  else if key = SL_KEY_RIGHT then ⟨l.text, min (l.cursor + 1) l.text.length⟩
  else if key = KEY_CTRL_D then l.delete
  else if key = KEY_CTRL_A ∨ key = KEY_HOME then ⟨l.text, 0⟩
  else if key = KEY_CTRL_E then ⟨l.text, l.text.length⟩
  else if key = KEY_CTRL_K then ⟨l.text.take l.cursor, l.cursor⟩ -- cut to end
  else if key = KEY_CTRL_U then ⟨l.text.drop l.cursor, 0⟩ -- cut to beginning
  else l

end Line

/-- The keys of the editor: the printable characters and the editing keys. -/
def EditKey (key : ℤ) : Prop :=
  (32 ≤ key ∧ key ≤ 126) ∨ key ∈ [KEY_BACKSPACE, KEY_BACKSPACE_APPLE, KEY_BACKSPACE_SOMETIMES,
    SL_KEY_LEFT, SL_KEY_RIGHT, KEY_CTRL_D, KEY_CTRL_A, KEY_HOME, KEY_CTRL_E, KEY_CTRL_K,
    KEY_CTRL_U]

instance (key : ℤ) : Decidable (EditKey key) := by unfold EditKey; infer_instance

namespace SlwReadline

/-- **What the buffer shows**: the text of the line up to the first `EOL`, with the cursor in
it; the line fits, and no access was out of the buffer. -/
structure Shows (m : Cells CHAR) (cursor : ℤ) (l : Line) : Prop where
  cursor : cursor = l.cursor
  le : l.cursor ≤ l.text.length
  fits : l.text.length < MAX_CMDLINE
  cells : ∀ i : ℕ, i < l.text.length → l.text[i]? = some (m.cell i)
  text : EOL ∉ l.text
  eol : m.cell l.text.length = EOL
  within : m.Within 0 MAX_CMDLINE

variable {E : Type*} {m m' : Cells CHAR} {c : ℤ} {l : Line} {s t : SlwReadline E}

/-- Up to the end of the line there is no `EOL`. -/
theorem Shows.ne_eol (h : Shows m c l) {i : ℤ} (h0 : 0 ≤ i) (h1 : i < l.text.length) :
    m.cell i ≠ EOL := by
  obtain ⟨k, rfl⟩ := Int.eq_ofNat_of_zero_le h0
  intro heol
  have hget := h.cells k (by omega)
  exact h.text (heol ▸ List.mem_of_getElem? hget)

/-- A loop to an `EOL` inside the buffer whose rounds keep `P` of the cells and stay inside. -/
theorem untilEOL_rule (off : ℤ) (body : ℤ → Cells CHAR → Cells CHAR)
    {P : ℤ → (ℤ → CHAR) → Prop} {n : ℕ} (hn : n < MAX_CMDLINE) (hw : m.Within 0 MAX_CMDLINE)
    (h0 : P c m.cell) (hlo : 0 ≤ c + off) (hhi : c + n + off < MAX_CMDLINE)
    (hstep : ∀ i m, c ≤ i → i < c + n → P i m.cell → m.Within 0 MAX_CMDLINE →
      m.cell (i + off) ≠ EOL ∧ P (i + 1) (body i m).cell ∧ (body i m).Within 0 MAX_CMDLINE)
    (hstop : ∀ f, P (c + n) f → f (c + n + off) = EOL) :
    ∃ m', untilEOL off body c m = some (c + n, m') ∧ P (c + n) m'.cell ∧
      m'.Within 0 MAX_CMDLINE := by
  refine Cells.forUntil_rule body (I := fun i m => P i m.cell ∧ m.Within 0 MAX_CMDLINE) hn ⟨h0, hw⟩
    ?_ ?_ ?_
  · intro i m h1 h2 hI
    exact ⟨hI.1, hI.2.touch (by omega) (by omega)⟩
  · intro i m h1 h2 hI
    exact hstep i m h1 h2 hI.1 hI.2
  · exact fun m hI => hstop m.cell hI.1

/-- The same cells show the same text, wherever in it the cursor is. -/
theorem Shows.move (h : Shows m c l) (hcell : m'.cell = m.cell)
    (hw : m'.Within 0 MAX_CMDLINE) (cursor : ℕ) (hcur : cursor ≤ l.text.length) :
    Shows m' cursor ⟨l.text, cursor⟩ where
  cursor := rfl
  le := hcur
  fits := h.fits
  cells := by
    intro i hi
    rw [hcell]
    exact h.cells i hi
  text := h.text
  eol := hcell ▸ h.eol
  within := hw

/-- Going to the end of the line changes nothing. -/
theorem Shows.scan (h : Shows m c l) :
    ∃ m', untilEOL 0 (fun _ m => m) c m = some ((l.text.length : ℤ), m') ∧ m'.cell = m.cell ∧
      m'.Within 0 MAX_CMDLINE := by
  have hc := h.cursor
  have hle := h.le
  have hfits := h.fits
  have hn : c + ((l.text.length - l.cursor : ℕ) : ℤ) = l.text.length := by omega
  have hrule := untilEOL_rule 0 (fun _ m => m) (c := c) (n := l.text.length - l.cursor) (m := m)
    (P := fun _ f => f = m.cell) (by omega) h.within rfl (by omega)
    (by omega) ?_ ?_
  · rw [hn] at hrule
    exact hrule
  · intro i m' h1 h2 hI hw
    exact ⟨by rw [hI, Int.add_zero]; exact h.ne_eol (by omega) (by omega), hI, hw⟩
  · intro f hf
    rw [hf, hn, Int.add_zero]
    exact h.eol

/-- A printable character is not the end of a line. -/
theorem charOf_ne_eol {key : ℤ} (h1 : 32 ≤ key) (h2 : key ≤ 126) : charOf key ≠ EOL := by
  intro h
  have hnat := congrArg BitVec.toNat h
  simp only [charOf, EOL, BitVec.toNat_ofInt] at hnat
  have hmod : key % ((2 ^ 8 : ℕ) : ℤ) = key := Int.emod_eq_of_lt (by omega) (by omega)
  rw [hmod] at hnat
  simp at hnat
  omega

/-- **Insert.** -/
theorem Shows.insert {key : ℤ} (h : Shows s.command s.cursor l)
    (hroom : l.text.length < MAX_CMDLINE - 1) (h1 : 32 ≤ key) (h2 : key ≤ 126) :
    ∃ t, s.insert key = some t ∧ Shows t.command t.cursor (l.insert (charOf key)) := by
  obtain ⟨m, hm, hcell, hw⟩ := h.scan
  have hc := h.cursor
  have hle := h.le
  have hmax : (MAX_CMDLINE : ℤ) = 256 := rfl
  have hroom' : l.text.length < 255 := hroom
  have hn : (l.text.length : ℤ) - ((l.text.length : ℤ) - s.cursor).toNat = s.cursor := by omega
  refine ⟨_, by rw [SlwReadline.insert, hm]; rfl, ?_⟩
  rw [Line.insert, if_pos hroom]
  have hfinal : ∀ i : ℤ, (((m.set (l.text.length + 1) EOL).copyDown 1
      ((l.text.length : ℤ) - s.cursor).toNat l.text.length).set s.cursor (charOf key)).cell i =
        if i = s.cursor then charOf key
        else if s.cursor < i ∧ i ≤ l.text.length then s.command.cell (i - 1)
        else if i = l.text.length + 1 then EOL
        else s.command.cell i := by
    intro i
    rw [Cells.set_cell, Function.update_apply, Cells.copyDown_cell (by omega), hn,
      Cells.set_cell, hcell, Function.update_apply, Function.update_apply]
    split_ifs <;> first | rfl | omega
  have hlen : (l.text.insertIdx l.cursor (charOf key)).length = l.text.length + 1 :=
    List.length_insertIdx_of_le_length hle _
  refine ⟨?_, ?_, ?_, ?_, ?_, ?_, ?_⟩
  · change s.cursor + 1 = ((l.cursor + 1 : ℕ) : ℤ)
    omega
  · change l.cursor + 1 ≤ (l.text.insertIdx l.cursor (charOf key)).length
    omega
  · change (l.text.insertIdx l.cursor (charOf key)).length < MAX_CMDLINE
    rw [hlen]
    exact Nat.add_lt_of_lt_sub hroom
  · intro i hi
    replace hi : i < l.text.length + 1 := hlen ▸ hi
    change (l.text.insertIdx l.cursor (charOf key))[i]? = _
    rw [hfinal, List.getElem?_insertIdx]
    rcases Nat.lt_trichotomy i l.cursor with hlt | rfl | hgt
    · rw [if_pos hlt, if_neg (by omega), if_neg (by omega), if_neg (by omega)]
      exact h.cells i (by omega)
    · rw [if_neg (by omega), if_pos rfl, if_pos hle, if_pos hc.symm]
    · rw [if_neg (by omega), if_neg (by omega), if_neg (by omega), if_pos (by omega),
        h.cells (i - 1) (by omega)]
      congr 2
      omega
  · intro hmem
    rcases (List.mem_insertIdx hle).mp hmem with heq | hmem
    · exact charOf_ne_eol h1 h2 heq.symm
    · exact h.text hmem
  · change Cells.cell _ ((l.text.insertIdx l.cursor (charOf key)).length : ℤ) = EOL
    rw [hlen, hfinal, if_neg (by omega), if_neg (by omega), if_pos (by omega)]
  · refine (Cells.Within.copyDown (by omega) (hw.set (by omega) (by omega)) ?_ ?_).set
      (by omega) (by omega)
    · intro i hi _
      omega
    · omega

/-- Moving the rest of the line one to the left erases a character. -/
theorem Shows.erase {k : ℕ} (h : Shows m c l) (hk : k < l.text.length)
    (hcell : ∀ i : ℤ, m'.cell i =
      if (k : ℤ) ≤ i ∧ i < l.text.length then m.cell (i + 1) else m.cell i)
    (hw : m'.Within 0 MAX_CMDLINE) {cursor : ℕ} (hcur : cursor < l.text.length) :
    Shows m' cursor ⟨l.text.eraseIdx k, cursor⟩ := by
  have hlen : (l.text.eraseIdx k).length = l.text.length - 1 := List.length_eraseIdx_of_lt hk
  have hfits := h.fits
  refine ⟨rfl, ?_, ?_, ?_, ?_, ?_, hw⟩
  · change cursor ≤ (l.text.eraseIdx k).length
    omega
  · change (l.text.eraseIdx k).length < MAX_CMDLINE
    omega
  · intro i hi
    replace hi : i < l.text.length - 1 := hlen ▸ hi
    change (l.text.eraseIdx k)[i]? = _
    rw [List.getElem?_eraseIdx, hcell]
    by_cases hik : i < k
    · rw [if_pos hik, if_neg (by omega)]
      exact h.cells i (by omega)
    · rw [if_neg hik, if_pos (by omega)]
      exact h.cells (i + 1) (by omega)
  · exact fun hmem => h.text (List.mem_of_mem_eraseIdx hmem)
  · change m'.cell ((l.text.eraseIdx k).length : ℤ) = EOL
    rw [hlen, hcell, if_pos (by omega)]
    have hlast : ((l.text.length - 1 : ℕ) : ℤ) + 1 = l.text.length := by omega
    rw [hlast]
    exact h.eol

/-- The loop of backspace moves the rest of the line, with its `EOL`, one to the left. -/
theorem backspaceLoop_cell {n : ℕ} (len : ℤ) (hle : c ≤ len) (hn : len < c + n)
    (hne : ∀ i, c ≤ i → i < len → m.cell i ≠ EOL) (heol : m.cell len = EOL) (i : ℤ) :
    (backspaceLoop n c m).cell i = if c - 1 ≤ i ∧ i < len then m.cell (i + 1) else m.cell i := by
  induction n generalizing c m with
  | zero => omega
  | succ n ih =>
      simp only [backspaceLoop]
      have hsame : ∀ j, j ≠ c - 1 → ((m.copy (c - 1) c).touch c).cell j = m.cell j := by
        intro j hj
        exact Function.update_of_ne hj _ _
      have hleft : ((m.copy (c - 1) c).touch c).cell (c - 1) = m.cell c :=
        Function.update_self _ _ _
      rw [hsame c (by omega)]
      by_cases hlast : m.cell c = EOL
      · have hc : c = len := by
          by_contra hne'
          exact hne c (by omega) (by omega) hlast
        subst hc
        rw [if_pos hlast]
        by_cases hi : i = c - 1
        · rw [if_pos (by omega), hi, hleft]
          congr 1
          omega
        · rw [if_neg (by omega), hsame i hi]
      · have hlt : c ≠ len := by
          rintro rfl
          exact hlast heol
        rw [if_neg hlast, ih (by omega) (by push_cast at hn; omega)]
        · by_cases hi : i = c - 1
          · rw [if_neg (by omega), if_pos (by omega), hi, hleft]
            congr 1
            omega
          · rw [hsame i hi]
            by_cases hin : c + 1 - 1 ≤ i ∧ i < len
            · rw [if_pos hin, if_pos (by omega), hsame _ (by omega)]
            · rw [if_neg hin, if_neg (by omega)]
        · intro j h1 h2
          rw [hsame j (by omega)]
          exact hne j (by omega) h2
        · rw [hsame len (by omega)]
          exact heol

/-- It stays between the cell before the cursor and the `EOL`. -/
theorem backspaceLoop_within {n : ℕ} (h1 : 1 ≤ c) (hn : c + n ≤ MAX_CMDLINE)
    (hw : m.Within 0 MAX_CMDLINE) : (backspaceLoop n c m).Within 0 MAX_CMDLINE := by
  induction n generalizing c m with
  | zero => exact hw
  | succ n ih =>
      push_cast at hn
      have hround : ((m.copy (c - 1) c).touch c).Within 0 MAX_CMDLINE :=
        (hw.copy (by omega) (by omega) (by omega) (by omega)).touch (by omega) (by omega)
      simp only [backspaceLoop]
      split
      · exact hround
      · exact ih (by omega) (by omega) hround

/-- **Backspace.** -/
theorem Shows.backspace (h : Shows s.command s.cursor l) :
    Shows s.backspace.command s.backspace.cursor l.backspace := by
  have hc := h.cursor
  have hle := h.le
  have hmax : (MAX_CMDLINE : ℤ) = 256 := rfl
  have hfits : l.text.length < 256 := h.fits
  rw [SlwReadline.backspace, Line.backspace]
  by_cases h0 : l.cursor = 0
  · rw [if_pos (by omega), if_pos h0]
    exact h
  · rw [if_neg (by omega), if_neg h0]
    have hcur : s.cursor - 1 = ((l.cursor - 1 : ℕ) : ℤ) := by omega
    change Shows (backspaceLoop _ _ _) (s.cursor - 1) _
    rw [hcur]
    refine h.erase (by omega) ?_ (backspaceLoop_within (by omega) (by omega) h.within) (by omega)
    intro i
    rw [backspaceLoop_cell l.text.length (by omega) (by omega) ?_ h.eol, ← hcur]
    intro j h1 h2
    exact h.ne_eol (by omega) h2

/-- **Delete.** -/
theorem Shows.ctrl_d (h : Shows s.command s.cursor l) :
    ∃ t, s.ctrl_d = some t ∧ Shows t.command t.cursor l.delete := by
  have hc := h.cursor
  have hle := h.le
  have hmax : (MAX_CMDLINE : ℤ) = 256 := rfl
  have hfits : l.text.length < 256 := h.fits
  have hn : s.cursor + ((l.text.length - l.cursor : ℕ) : ℤ) = l.text.length := by omega
  obtain ⟨m, hm, hcell, hw⟩ := untilEOL_rule 0 (fun c m => m.copy c (c + 1))
    (c := s.cursor) (n := l.text.length - l.cursor)
    (P := fun j f => ∀ i : ℤ, f i =
      if s.cursor ≤ i ∧ i < j then s.command.cell (i + 1) else s.command.cell i)
    (by show _ < 256; omega) h.within (fun i => by rw [if_neg (by omega)]) (by omega) (by omega)
    (by
      intro j m' h1 h2 hI hw
      refine ⟨?_, ?_, hw.copy (by omega) (by omega) (by omega) (by omega)⟩
      · rw [hI, if_neg (by omega), Int.add_zero]
        exact h.ne_eol (by omega) (by omega)
      · intro i
        rw [Cells.copy_cell, Function.update_apply, hI, hI]
        split_ifs <;> first | rfl | omega | (subst i; rfl))
    (by
      intro f hf
      rw [hf, if_neg (by omega), hn, Int.add_zero]
      exact h.eol)
  refine ⟨_, by rw [SlwReadline.ctrl_d, hm]; rfl, ?_⟩
  change Shows m s.cursor l.delete
  rw [hn] at hcell
  rw [Line.delete, hc]
  by_cases hlast : l.cursor = l.text.length
  · rw [List.eraseIdx_of_length_le (by omega)]
    refine h.move (funext fun i => ?_) hw _ hle
    rw [hcell, if_neg (by omega)]
  · exact h.erase (by omega) (fun i => by rw [hcell, hc]) hw (by omega)

/-- **Left.** -/
theorem Shows.left (h : Shows s.command s.cursor l) :
    Shows s.left.command s.left.cursor ⟨l.text, l.cursor - 1⟩ := by
  have hc := h.cursor
  have hle := h.le
  have hmove := h.move rfl h.within (l.cursor - 1) (by omega)
  rw [SlwReadline.left]
  by_cases h0 : s.cursor = 0
  · have hsame : s.cursor = ((l.cursor - 1 : ℕ) : ℤ) := by omega
    rw [if_pos h0, hsame]
    exact hmove
  · have hprev : s.cursor - 1 = ((l.cursor - 1 : ℕ) : ℤ) := by omega
    rw [if_neg h0]
    change Shows s.command (s.cursor - 1) _
    rw [hprev]
    exact hmove

/-- **Right.** -/
theorem Shows.right (h : Shows s.command s.cursor l) :
    Shows s.right.command s.right.cursor ⟨l.text, min (l.cursor + 1) l.text.length⟩ := by
  have hc := h.cursor
  have hle := h.le
  have hmax : (MAX_CMDLINE : ℤ) = 256 := rfl
  have hfits : l.text.length < 256 := h.fits
  have hcell : (s.command.touch s.cursor).cell = s.command.cell := rfl
  have hmove := h.move hcell (h.within.touch (by omega) (by omega))
    (min (l.cursor + 1) l.text.length) (by omega)
  have hnext : (if s.command.cell s.cursor = EOL then s.cursor else s.cursor + 1) =
      ((min (l.cursor + 1) l.text.length : ℕ) : ℤ) := by
    by_cases hend : l.cursor = l.text.length
    · have heol : s.command.cell s.cursor = EOL := by
        rw [hc, hend]
        exact h.eol
      rw [if_pos heol]
      omega
    · rw [if_neg (h.ne_eol (by omega) (by omega))]
      omega
  change Shows (s.command.touch s.cursor) (if _ then _ else _) _
  rw [hnext]
  exact hmove

/-- **To the end.** -/
theorem Shows.ctrl_e (h : Shows s.command s.cursor l) :
    ∃ t, s.ctrl_e = some t ∧ Shows t.command t.cursor ⟨l.text, l.text.length⟩ := by
  obtain ⟨m, hm, hcell, hw⟩ := h.scan
  exact ⟨_, by rw [SlwReadline.ctrl_e, hm]; rfl, h.move hcell hw _ (Nat.le_refl _)⟩

/-- **Cut to end.** -/
theorem Shows.ctrl_k (h : Shows s.command s.cursor l) :
    ∃ t, s.ctrl_k = some t ∧ Shows t.command t.cursor ⟨l.text.take l.cursor, l.cursor⟩ := by
  have hc := h.cursor
  have hle := h.le
  have hmax : (MAX_CMDLINE : ℤ) = 256 := rfl
  have hfits : l.text.length < 256 := h.fits
  have hn : s.cursor + ((l.text.length - l.cursor : ℕ) : ℤ) = l.text.length := by omega
  obtain ⟨m, hm, hcell, hw⟩ := untilEOL_rule 0 (fun c m => m.set c EOL)
    (c := s.cursor) (n := l.text.length - l.cursor)
    (P := fun j f => ∀ i : ℤ, f i = if s.cursor ≤ i ∧ i < j then EOL else s.command.cell i)
    (by show _ < 256; omega) h.within (fun i => by rw [if_neg (by omega)]) (by omega) (by omega)
    (by
      intro j m' h1 h2 hI hw
      refine ⟨?_, ?_, hw.set (by omega) (by omega)⟩
      · rw [hI, if_neg (by omega), Int.add_zero]
        exact h.ne_eol (by omega) (by omega)
      · intro i
        rw [Cells.set_cell, Function.update_apply, hI]
        split_ifs <;> first | rfl | omega)
    (by
      intro f hf
      rw [hf, if_neg (by omega), hn, Int.add_zero]
      exact h.eol)
  have hlen : (l.text.take l.cursor).length = l.cursor := List.length_take_of_le hle
  have ht : s.ctrl_k = some { s with command := m } := by
    rw [SlwReadline.ctrl_k, hm]
    rfl
  refine ⟨_, ht, hc, ?_, ?_, ?_, ?_, ?_, hw⟩
  · exact Nat.le_of_eq hlen.symm
  · change (l.text.take l.cursor).length < 256
    omega
  · intro i hi
    replace hi : i < l.cursor := hlen ▸ hi
    change (l.text.take l.cursor)[i]? = some (m.cell i)
    rw [List.getElem?_take_of_lt hi, hcell, if_neg (by omega)]
    exact h.cells i (by omega)
  · exact fun hmem => h.text (List.mem_of_mem_take hmem)
  · change m.cell ((l.text.take l.cursor).length : ℤ) = EOL
    rw [hlen, hcell]
    by_cases hlast : l.cursor = l.text.length
    · rw [if_neg (by omega), hlast]
      exact h.eol
    · rw [if_pos (by omega)]

/-- **Cut to beginning.** -/
theorem Shows.ctrl_u (h : Shows s.command s.cursor l) :
    ∃ t, s.ctrl_u = some t ∧ Shows t.command t.cursor ⟨l.text.drop l.cursor, 0⟩ := by
  have hc := h.cursor
  have hle := h.le
  have hmax : (MAX_CMDLINE : ℤ) = 256 := rfl
  have hfits : l.text.length < 256 := h.fits
  have hlen : (l.text.drop l.cursor).length = l.text.length - l.cursor := List.length_drop
  -- the rest of the line is moved to the front, and what it leaves behind is blanked
  obtain ⟨m₁, hm₁, hcell₁, hw₁⟩ := untilEOL_rule s.cursor
    (fun c m => m.copy c (s.cursor + c)) (c := 0) (n := l.text.length - l.cursor)
    (P := fun j f => ∀ i : ℤ, f i =
      if 0 ≤ i ∧ i < j then s.command.cell (i + s.cursor) else s.command.cell i)
    (by show _ < 256; omega) h.within (fun i => by rw [if_neg (by omega)]) (by omega) (by omega)
    (by
      intro j m' h1 h2 hI hw
      refine ⟨?_, ?_, hw.copy (by omega) (by omega) (by omega) (by omega)⟩
      · rw [hI, if_neg (by omega)]
        exact h.ne_eol (by omega) (by omega)
      · intro i
        rw [Cells.copy_cell, Function.update_apply, hI, hI, Int.add_comm s.cursor]
        split_ifs <;> first | rfl | omega | (subst i; rfl))
    (by
      intro f hf
      have hend : (0 : ℤ) + ((l.text.length - l.cursor : ℕ) : ℤ) + s.cursor = l.text.length := by
        omega
      rw [hf, if_neg (by omega), hend]
      exact h.eol)
  obtain ⟨m₂, hm₂, hcell₂, hw₂⟩ := untilEOL_rule 0 (fun c m => m.set c EOL)
    (c := 0 + ((l.text.length - l.cursor : ℕ) : ℤ)) (n := l.cursor) (m := m₁)
    (P := fun j f => ∀ i : ℤ, f i =
      if 0 + ((l.text.length - l.cursor : ℕ) : ℤ) ≤ i ∧ i < j then EOL else m₁.cell i)
    (by show _ < 256; omega) hw₁ (fun i => by rw [if_neg (by omega)]) (by omega) (by omega)
    (by
      intro j m' h1 h2 hI hw
      refine ⟨?_, ?_, hw.set (by omega) (by omega)⟩
      · rw [hI, if_neg (by omega), hcell₁, if_neg (by omega), Int.add_zero]
        exact h.ne_eol (by omega) (by omega)
      · intro i
        rw [Cells.set_cell, Function.update_apply, hI]
        split_ifs <;> first | rfl | omega)
    (by
      intro f hf
      have hend : (0 : ℤ) + ((l.text.length - l.cursor : ℕ) : ℤ) + l.cursor + 0 =
          l.text.length := by omega
      rw [hf, if_neg (by omega), hcell₁, if_neg (by omega), hend]
      exact h.eol)
  have ht : s.ctrl_u = some { s with command := m₂, cursor := 0 } := by
    simp only [SlwReadline.ctrl_u, hm₁, Option.bind_some, hm₂, Option.map_some]
  refine ⟨_, ht, rfl, Nat.zero_le _, ?_, ?_, ?_, ?_, hw₂⟩
  · change (l.text.drop l.cursor).length < 256
    omega
  · intro i hi
    replace hi : i < l.text.length - l.cursor := hlen ▸ hi
    change (l.text.drop l.cursor)[i]? = some (m₂.cell i)
    rw [List.getElem?_drop, hcell₂, if_neg (by omega), hcell₁, if_pos (by omega),
      h.cells (l.cursor + i) (by omega), hc]
    congr 2
    omega
  · exact fun hmem => h.text (List.mem_of_mem_drop hmem)
  · change m₂.cell ((l.text.drop l.cursor).length : ℤ) = EOL
    rw [hlen, hcell₂]
    by_cases h0 : l.cursor = 0
    · rw [if_neg (by omega), hcell₁, if_neg (by omega), h0]
      exact h.eol
    · rw [if_pos (by omega)]

/-- The string in the buffer is the text. -/
theorem Shows.string_eq (h : Shows m c l) : string m = l.text := by
  have hfits : l.text.length < 256 := h.fits
  have hlen : (m.take MAX_CMDLINE).length = 256 := m.length_take MAX_CMDLINE
  have htake : (m.take MAX_CMDLINE).take l.text.length = l.text := by
    refine List.ext_getElem? fun i => ?_
    by_cases hi : i < l.text.length
    · rw [List.getElem?_take_of_lt hi, Cells.getElem?_take, if_pos (by show i < 256; omega)]
      exact (h.cells i hi).symm
    · rw [List.getElem?_eq_none (by rw [List.length_take]; omega),
        List.getElem?_eq_none (by omega)]
  have hlt : l.text.length < (m.take MAX_CMDLINE).length := by omega
  have hend : (m.take MAX_CMDLINE)[l.text.length] = EOL := by
    have hget := Cells.getElem?_take m MAX_CMDLINE l.text.length
    rw [if_pos (by show _ < 256; omega), h.eol] at hget
    exact (List.getElem?_eq_some_iff.mp hget).2
  rw [string, ← List.take_append_drop l.text.length (m.take MAX_CMDLINE), htake,
    List.drop_eq_getElem_cons hlt, hend, List.takeWhile_append_of_pos]
  · simp
  · intro ch hch
    simpa using fun heol : ch = EOL => h.text (heol ▸ hch)

/-- `strncpy` of a text that fits. -/
theorem strncpy_shows {text : List CHAR} (hw : m.Within 0 MAX_CMDLINE) (htext : EOL ∉ text)
    (hfits : text.length < MAX_CMDLINE) : Shows (strncpy m text) 0 ⟨text, 0⟩ := by
  have hcopy := Cells.forUp_rule (fun c m => m.set c (text.getD c.toNat EOL)) (c := 0)
    (n := MAX_CMDLINE) (m := m)
    (I := fun j m => (∀ i, 0 ≤ i → i < j → m.cell i = text.getD i.toNat EOL) ∧
      m.Within 0 MAX_CMDLINE)
    ⟨by omega, hw⟩ (by
      intro j m h1 h2 hI
      refine ⟨fun i h3 h4 => ?_, hI.2.set h1 (by omega)⟩
      rw [Cells.set_cell, Function.update_apply]
      split_ifs with hij
      · rw [hij]
      · exact hI.1 i h3 (by omega))
  refine ⟨rfl, Nat.zero_le _, hfits, fun i hi => ?_, htext, ?_, hcopy.2⟩
  · replace hi : i < text.length := hi
    rw [strncpy, hcopy.1 i (by omega) (by omega), Int.toNat_natCast,
      List.getD_eq_getElem?_getD, List.getElem?_eq_getElem hi]
    rfl
  · have hlt : (text.length : ℤ) < 0 + MAX_CMDLINE := by omega
    rw [strncpy, hcopy.1 _ (by omega) hlt, Int.toNat_natCast,
      List.getD_eq_getElem?_getD, List.getElem?_eq_none (Nat.le_refl _)]
    rfl

/-- A blank buffer shows an empty line. -/
theorem blank_shows (hw : m.Within 0 MAX_CMDLINE) : Shows (blank m) 0 ⟨[], 0⟩ := by
  have hblank : blank m = strncpy m [] := by simp only [blank, strncpy, List.getD_nil]
  rw [hblank]
  exact strncpy_shows hw List.not_mem_nil (by decide)

/-- **A session starts** with an empty line. -/
theorem readline_shows (s : SlwReadline E) (proc : List CHAR → ℤ) :
    ∃ t, s.readline proc none = some t ∧ Shows t.command t.cursor ⟨[], 0⟩ := by
  have hempty := blank_shows (m := ⟨s.command.cell, []⟩) (by simp [Cells.Within])
  obtain ⟨m, hm, hcell, hw⟩ := hempty.scan
  refine ⟨_, by simp only [readline, strlen, hm]; rfl, hempty.move hcell hw _ (Nat.le_refl 0)⟩

section Parser

variable [DecidableEq E] {key : ℤ} {entr : E}

/-- A printable character is not among the keys of the switch. -/
theorem switch_printable (h1 : 32 ≤ key) (h2 : key ≤ 126) :
    s.switch key entr = some (false, s) := by
  have hne : ∀ k : ℤ, k < 32 ∨ 126 < k → ¬ key = k := by
    intro k hk heq
    omega
  simp only [switch, hne SL_KEY_ENTER (by decide), hne KEY_ENTER (by decide),
    hne SL_KEY_UP (by decide), hne SL_KEY_DOWN (by decide), hne KEY_CTRL_G (by decide),
    hne KEY_TAB (by decide), hne KEY_BACKSPACE (by decide), hne KEY_BACKSPACE_APPLE (by decide),
    hne KEY_BACKSPACE_SOMETIMES (by decide), hne SL_KEY_LEFT (by decide),
    hne SL_KEY_RIGHT (by decide), hne KEY_CTRL_D (by decide), hne KEY_CTRL_A (by decide),
    hne KEY_HOME (by decide), hne KEY_CTRL_E (by decide), hne KEY_CTRL_K (by decide),
    hne KEY_CTRL_U (by decide), or_self, if_false]

/-- A printable character is inserted. -/
theorem parser_commandline_printable (hcur : s.cursor ≤ MAX_CMDLINE) (h1 : 32 ≤ key)
    (h2 : key ≤ 126) : s.parser_commandline key entr =
      ({ s with commandline := true }.insert key).map (true, ·) := by
  simp only [parser_commandline]
  rw [if_neg (by omega), switch_printable h1 h2, Option.bind_some, if_pos ⟨h1, by omega⟩]

/-- Any other key does what the switch does. -/
theorem parser_commandline_other (hcur : s.cursor ≤ MAX_CMDLINE)
    (hkey : ¬ (32 ≤ key ∧ key ≤ 126)) :
    s.parser_commandline key entr = { s with commandline := true }.switch key entr := by
  simp only [parser_commandline]
  rw [if_neg (by omega)]
  cases { s with commandline := true }.switch key entr with
  | none => rfl
  | some p =>
      rw [Option.bind_some, if_neg (by omega)]

/-- **Each editing key performs its edit**, a printable one as long as there is room. -/
theorem Shows.edit (h : Shows s.command s.cursor l) (entr : E) (hkey : EditKey key)
    (hroom : 32 ≤ key → key ≤ 126 → l.text.length < MAX_CMDLINE - 1) :
    ∃ res t, s.parser_commandline key entr = some (res, t) ∧
      Shows t.command t.cursor (l.edit key) := by
  have hc := h.cursor
  have hle := h.le
  have hmax : (MAX_CMDLINE : ℤ) = 256 := rfl
  have hfits : l.text.length < 256 := h.fits
  have h' : Shows { s with commandline := true }.command
      { s with commandline := true }.cursor l := h
  by_cases hp : 32 ≤ key ∧ key ≤ 126
  · obtain ⟨t, ht, hshows⟩ := h'.insert (hroom hp.1 hp.2) hp.1 hp.2
    refine ⟨true, t, ?_, ?_⟩
    · rw [parser_commandline_printable (by omega) hp.1 hp.2, ht]
      rfl
    · rw [Line.edit, if_pos hp]
      exact hshows
  · rw [parser_commandline_other (by omega) hp, Line.edit, if_neg hp]
    have hkeys := hkey.resolve_left hp
    simp only [List.mem_cons, List.not_mem_nil, or_false] at hkeys
    rcases hkeys with rfl | rfl | rfl | rfl | rfl | rfl | rfl | rfl | rfl | rfl | rfl
    · exact ⟨true, _, rfl, h'.backspace⟩
    · exact ⟨true, _, rfl, h'.backspace⟩
    · exact ⟨true, _, rfl, h'.backspace⟩
    · exact ⟨true, _, rfl, h'.left⟩
    · exact ⟨true, _, rfl, h'.right⟩
    · obtain ⟨t, ht, hshows⟩ := h'.ctrl_d
      exact ⟨true, t, congrArg (Option.map (true, ·)) ht, hshows⟩
    · exact ⟨true, _, rfl, h.move rfl h.within _ (Nat.zero_le _)⟩
    · exact ⟨true, _, rfl, h.move rfl h.within _ (Nat.zero_le _)⟩
    · obtain ⟨t, ht, hshows⟩ := h'.ctrl_e
      exact ⟨true, t, congrArg (Option.map (true, ·)) ht, hshows⟩
    · obtain ⟨t, ht, hshows⟩ := h'.ctrl_k
      exact ⟨true, t, congrArg (Option.map (true, ·)) ht, hshows⟩
    · obtain ⟨t, ht, hshows⟩ := h'.ctrl_u
      exact ⟨true, t, congrArg (Option.map (true, ·)) ht, hshows⟩

/-- **A full line** has no room: the `EOL` that inserting makes sure of is stored behind the
buffer. -/
theorem Shows.overflow (h : Shows s.command s.cursor l) (entr : E)
    (hfull : l.text.length = MAX_CMDLINE - 1) (h1 : 32 ≤ key) (h2 : key ≤ 126) :
    ∃ res t, s.parser_commandline key entr = some (res, t) ∧
      ¬ t.command.Within 0 MAX_CMDLINE := by
  have hc := h.cursor
  have hle := h.le
  have hfull' : l.text.length = 255 := hfull
  have hmax : (MAX_CMDLINE : ℤ) = 256 := rfl
  obtain ⟨m, hm, -, -⟩ := h.scan
  rw [parser_commandline_printable (by omega) h1 h2]
  refine ⟨true, _, by simp only [SlwReadline.insert, hm]; rfl, fun hw => ?_⟩
  have hstore : (l.text.length + 1 : ℤ) ∈ (m.set (l.text.length + 1) EOL).touched :=
    List.mem_cons_self
  have hend := (hw _ (List.mem_cons_of_mem _ (Cells.mem_touched_copyDown hstore))).2
  omega

end Parser

/-! ### Sessions -/

section Session

variable [DecidableEq E]

/-- A session without a completion function, side by side with the text that it edits: it is fed
the keys of the editor. With each key comes the entry that a new one in the history would be
allocated at. -/
def session (E : Type*) [DecidableEq E] : Transition.System (SlwReadline E × Line) (ℤ × E) where
  init p := p.2 = ⟨[], 0⟩ ∧ ∃ s proc, SlwReadline.readline s proc none = some p.1
  step p a q := EditKey a.1 ∧ (∃ res, p.1.parser_commandline a.1 a.2 = some (res, q.1)) ∧
    q.2 = p.2.edit a.1

/-- A printable key is fed only while the line holds fewer than `MAX_CMDLINE - 1` characters. -/
def HasRoom (p : SlwReadline E × Line) (a : ℤ × E) : Prop :=
  32 ≤ a.1 → a.1 ≤ 126 → (string p.1.command).length < MAX_CMDLINE - 1

/-- In a session whose keys all have room the buffer shows the text. -/
theorem shows_reachable {p : SlwReadline E × Line}
    (hr : Transition.Reachable ((session E).restrict HasRoom) p) :
    Shows p.1.command p.1.cursor p.2 := by
  have hinv : Transition.Invariant ((session E).restrict HasRoom)
      fun p => Shows p.1.command p.1.cursor p.2 := by
    constructor
    · rintro ⟨s, l⟩ ⟨rfl, s₀, proc, hs⟩
      obtain ⟨t, ht, hshows⟩ := readline_shows s₀ proc
      obtain rfl := Option.some.inj (ht.symm.trans hs)
      exact hshows
    · rintro ⟨s, l⟩ ⟨key, entr⟩ ⟨t, l'⟩ hshows ⟨hroom, hkey, ⟨res, hstep⟩, rfl⟩
      obtain ⟨res', t', ht, hedit⟩ := hshows.edit entr hkey
        (fun h1 h2 => hshows.string_eq ▸ hroom h1 h2)
      obtain ⟨-, rfl⟩ := Prod.mk.inj (Option.some.inj (ht.symm.trans hstep))
      exact hedit
  exact hinv.holds hr

end Session

end SlwReadline

open SlwReadline

variable {E : Type*} [DecidableEq E]

/-- **The command line is a text with a cursor**, in every session whose printable keys find
room: the string in the buffer is the text, the cursor is in it, all accesses were inside the
buffer, and the next editing key performs its edit. A printable key that finds no room makes
an access out of the buffer. -/
theorem command_line_refines {p : SlwReadline E × Line}
    (hr : Transition.Reachable ((session E).restrict HasRoom) p) :
    (string p.1.command = p.2.text ∧ p.1.cursor = p.2.cursor) ∧
      (0 ≤ p.1.cursor ∧ p.1.cursor ≤ (string p.1.command).length ∧
        (string p.1.command).length ≤ MAX_CMDLINE - 1) ∧
      p.1.command.Within 0 MAX_CMDLINE ∧
      ∀ key entr, EditKey key → ∃ res t, p.1.parser_commandline key entr = some (res, t) ∧
        (HasRoom p (key, entr) → string t.command = (p.2.edit key).text ∧
          t.cursor = (p.2.edit key).cursor ∧ t.command.Within 0 MAX_CMDLINE) ∧
        (¬ HasRoom p (key, entr) → ¬ t.command.Within 0 MAX_CMDLINE) := by
  have h := shows_reachable hr
  have hc := h.cursor
  have hle := h.le
  have hfits := h.fits
  refine ⟨⟨h.string_eq, hc⟩, ?_, h.within, fun key entr hkey => ?_⟩
  · rw [h.string_eq]
    exact ⟨by omega, by omega, Nat.le_sub_one_of_lt hfits⟩
  · by_cases hroom : HasRoom p (key, entr)
    · obtain ⟨res, t, ht, hedit⟩ := h.edit entr hkey
        (fun h1 h2 => h.string_eq ▸ hroom h1 h2)
      exact ⟨res, t, ht, fun _ => ⟨hedit.string_eq, hedit.cursor, hedit.within⟩,
        fun hno => absurd hroom hno⟩
    · simp only [HasRoom, Classical.not_imp, h.string_eq] at hroom
      obtain ⟨h1, h2, hfull⟩ := hroom
      obtain ⟨res, t, ht, hover⟩ := h.overflow entr
        (Nat.le_antisymm (Nat.le_sub_one_of_lt hfits) (Nat.le_of_not_lt hfull)) h1 h2
      refine ⟨res, t, ht, fun hyes => ?_, fun _ => hover⟩
      exact absurd (h.string_eq ▸ hyes h1 h2) hfull

/-- One `a` typed at the start of a session. -/
theorem command_line_refines_typed :
    ∃ t : SlwReadline Unit, ∃ res, Transition.Reachable ((session Unit).restrict HasRoom)
        (t, ⟨[], 0⟩) ∧
      ∃ u, t.parser_commandline 97 () = some (res, u) ∧ string u.command = [97] := by
  obtain ⟨t, ht, hshows⟩ := readline_shows (E := Unit)
    ⟨.DEFAULT, false, 0, ⟨fun _ => 0, []⟩, .fresh, fun _ => [], fun _ => 0, none⟩ fun _ => 0
  have hr : Transition.Reachable ((session Unit).restrict HasRoom) (t, ⟨[], 0⟩) :=
    .init ⟨rfl, _, _, ht⟩
  obtain ⟨-, -, -, hkeys⟩ := command_line_refines hr
  obtain ⟨res, u, hu, hyes, -⟩ := hkeys 97 () (by decide)
  have hroom : HasRoom (t, ⟨[], 0⟩) (97, ()) := by
    intro _ _
    change (string t.command).length < 255
    rw [hshows.string_eq]
    decide
  exact ⟨t, res, hr, u, hu, (hyes hroom).1⟩

/-- Every length that fits the buffer is reached by typing. -/
theorem reachable_length {n : ℕ} (hn : n < MAX_CMDLINE) :
    ∃ p : SlwReadline Unit × Line, Transition.Reachable ((session Unit).restrict HasRoom) p ∧
      p.2.text.length = n := by
  induction n with
  | zero =>
      obtain ⟨t, ht, -⟩ := readline_shows (E := Unit)
        ⟨.DEFAULT, false, 0, ⟨fun _ => 0, []⟩, .fresh, fun _ => [], fun _ => 0, none⟩ fun _ => 0
      exact ⟨(t, ⟨[], 0⟩), .init ⟨rfl, _, _, ht⟩, rfl⟩
  | succ n ih =>
      obtain ⟨⟨s, l⟩, hr, hlen⟩ := ih (by omega)
      have h := shows_reachable hr
      have hroom : l.text.length < MAX_CMDLINE - 1 := hlen ▸ Nat.lt_sub_of_add_lt hn
      obtain ⟨res, t, ht, -⟩ := h.edit () (show EditKey 97 by decide) fun _ _ => hroom
      refine ⟨(t, l.edit 97), hr.step (a := (97, ()))
        ⟨fun _ _ => h.string_eq ▸ hroom, by decide, ⟨res, ht⟩, rfl⟩, ?_⟩
      have hedit : l.edit 97 = l.insert (charOf 97) := if_pos (by decide)
      change (l.edit 97).text.length = n + 1
      rw [hedit, Line.insert, if_pos hroom]
      change (l.text.insertIdx l.cursor _).length = n + 1
      rw [List.length_insertIdx_of_le_length h.le, hlen]

/-- A line that is full, after as many `a` as it can hold: one more is stored out of the
buffer. -/
theorem command_line_overflows :
    ∃ p q : SlwReadline Unit × Line, Transition.Reachable (session Unit) p ∧
      p.2.text.length = MAX_CMDLINE - 1 ∧ (session Unit).step p (97, ()) q ∧
      ¬ q.1.command.Within 0 MAX_CMDLINE := by
  obtain ⟨⟨s, l⟩, hr, hlen⟩ := reachable_length (n := MAX_CMDLINE - 1) (by decide)
  obtain ⟨res, t, ht, hover⟩ := (shows_reachable hr).overflow () hlen
    (show (32 : ℤ) ≤ 97 by decide) (by decide)
  exact ⟨(s, l), (t, l.edit 97), hr.of_restrict, hlen, ⟨by decide, ⟨res, ht⟩, rfl⟩, hover⟩

end FreeJ
