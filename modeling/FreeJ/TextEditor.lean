import FreeJ.TextConsole

/-!
# The Text Console as an Editor

What the text console is for: editing a list of lines with a cursor. `Doc` is such a document,
split at the cursor, so that the cursor is always in it; its keys are those of the console.
A console shows a document when its rows hold the lines, its cursor stands where that of the
document does, in the column on the screen as in the row, and no deleted row was read.

## Main results

* `Doc.backspace_enter`: backspace takes enter back.
* `Shows.feed`: a key has the effect on the console that it has on the document, when it is
  none of those that let the two records of the column get apart or that read a deleted row.
* `console_refines`: a console shows the document in every run of such keys.
-/

namespace FreeJ

open Function (update)
open Transition TextConsole

/-! ### The document -/

/-- A document: the lines above the cursor, what stands before and behind the cursor in its
line, and the lines below. -/
structure Doc where
  above : List (List CHAR)
  before : List CHAR
  after : List CHAR
  below : List (List CHAR)

namespace Doc

/-- The lines of a document. -/
def lines (d : Doc) : List (List CHAR) := d.above ++ (d.before ++ d.after) :: d.below

/-- The line of the cursor. -/
def row (d : Doc) : ℕ := d.above.length

/-- The column of the cursor. -/
def col (d : Doc) : ℕ := d.before.length

/-- One empty line. -/
def empty : Doc := ⟨[], [], [], []⟩

/-- Split the line at the cursor. -/
def enter (d : Doc) : Doc := ⟨d.above ++ [d.before], [], d.after, d.below⟩

/-- Delete the character before the cursor; at the beginning of a line, join it with the one
above. -/
def backspace (d : Doc) : Doc :=
  match d.before.getLast?, d.above.getLast? with
  | some _, _ => { d with before := d.before.dropLast }
  | none, some line => { d with above := d.above.dropLast, before := line }
  | none, none => d

/-- One character to the left. -/
def left (d : Doc) : Doc :=
  match d.before.getLast? with
  | some c => { d with before := d.before.dropLast, after := c :: d.after }
  | none => d

/-- One character to the right, in the first `w` columns. -/
def right (w : ℤ) (d : Doc) : Doc :=
  match d.after with
  | c :: after => if d.col < w then { d with before := d.before ++ [c], after := after } else d
  | [] => d

/-- One line up, in the same column or at the end of the line. -/
def up (d : Doc) : Doc :=
  match d.above.getLast? with
  | some line =>
    ⟨d.above.dropLast, line.take d.col, line.drop d.col, (d.before ++ d.after) :: d.below⟩
  | none => d

/-- One line down, in the same column or at the end of the line. -/
def down (d : Doc) : Doc :=
  match d.below with
  | line :: below => ⟨d.above ++ [d.before ++ d.after], line.take d.col, line.drop d.col, below⟩
  | [] => d

/-- Write a character, in the first `w` columns. -/
def insert (w : ℤ) (ch : CHAR) (d : Doc) : Doc :=
  if d.col < w then { d with before := d.before ++ [ch] } else d

/-- A key. -/
def feed (w : ℤ) (key : ℤ) (d : Doc) : Doc :=
  match label key with
  | .newline => d.enter
  | .ctrl_l => d
  | .backspace => d.backspace
  | .tab => d
  | .left => d.left
  | .right => d.right w
  | .up => d.up
  | .down => d.down
  | .default => d.insert w (charOf key)

/-- The cursor is at its column of its line. -/
theorem getElem?_row (d : Doc) : d.lines[d.row]? = some (d.before ++ d.after) := by
  rw [lines, row, List.getElem?_append_right (Nat.le_refl _), Nat.sub_self]
  rfl

/-- **Enter** splits the line at the cursor. -/
theorem lines_enter (d : Doc) :
    d.enter.lines =
      d.lines.take d.row ++ [d.before, d.after] ++ d.lines.drop (d.row + 1) := by
  simp [lines, enter, row, List.drop_append]

/-- **Backspace takes enter back.** -/
theorem backspace_enter (d : Doc) : d.enter.backspace = d := by
  simp [enter, backspace]

/-- **Backspace** at the beginning of a line joins it with the one above, and leaves the
cursor where they meet. -/
theorem backspace_join {d : Doc} {above : List (List CHAR)} {line : List CHAR}
    (hb : d.before = []) (ha : d.above = above ++ [line]) :
    d.backspace.lines = above ++ (line ++ d.after) :: d.below ∧
      d.backspace.row = above.length ∧ d.backspace.col = line.length := by
  simp [backspace, hb, ha, lines, row, col]

end Doc

/-! ### A console that shows a document -/

namespace TextConsole

variable {E : Type*} {s t : TextConsole E} {d : Doc} {as bs ys : List E} {e r : E}

/-- The text of each row. -/
def texts (row : E → Row) (xs : List E) : List (List CHAR) := xs.map fun x => (row x).string

/-- The console shows the document: its rows hold the lines, split where the cursor is. -/
structure Shows (s : TextConsole E) (d : Doc) (as bs : List E) (e : E) (ys : List E) : Prop
    extends s.Laid as bs e ys where
  above : texts s.row (as ++ bs) = d.above
  cur : (s.row e).Holds d.before d.after
  below : texts s.row ys = d.below
  valid : ∀ x ∈ as ++ bs ++ e :: ys, (s.row x).Valid
  cur_x : s.cur_x = d.col
  stale : s.stale = []

/-- At the beginning of a row nothing stands before the cursor. -/
theorem Shows.before_eq (hs : s.Shows d as bs e ys) (hx : ¬ 0 < s.cur_x) : d.before = [] := by
  have hcol := hs.cur_x
  rw [Doc.col] at hcol
  exact List.length_eq_zero_iff.mp (by omega)

/-- The column in another row. -/
theorem Shows.columnIn (hs : s.Shows d as bs e ys) {p : E} (hpv : (s.row p).Valid) :
    s.columnIn p = ((s.row p).string.take d.col).length := by
  have hcol := hs.cur_x
  have h1 := hpv.pos_nonneg
  have h2 := hpv.pos_le
  rw [TextConsole.columnIn, List.length_take, Row.length_string]
  split <;> omega

/-- In the first columns of a row, its text up to there is as long as the column. -/
theorem Shows.column (hs : s.Shows d as bs e ys) {p : E} (hpv : (s.row p).Valid)
    (hp : (s.row p).pos = s.cur_x) : s.cur_x = ((s.row p).string.take d.col).length := by
  have hcol := hs.cur_x
  have h2 := hpv.pos_le
  rw [List.length_take, Row.length_string]
  omega

section Texts

variable {row row' : E → Row} {x : E} {xs : List E}

@[simp] theorem texts_append (xs ys : List E) :
    texts row (xs ++ ys) = texts row xs ++ texts row ys := List.map_append

@[simp] theorem texts_cons (x : E) (xs : List E) :
    texts row (x :: xs) = (row x).string :: texts row xs := rfl

@[simp] theorem texts_nil : texts row [] = [] := rfl

/-- The texts of other rows. -/
theorem texts_congr (h : ∀ y ∈ xs, row' y = row y) : texts row' xs = texts row xs :=
  List.map_congr_left fun y hy => by rw [h y hy]

theorem texts_update [DecidableEq E] (hx : x ∉ xs) (v : Row) :
    texts (update row x v) xs = texts row xs := by
  refine texts_congr fun y hy => Function.update_of_ne ?_ ..
  rintro rfl
  exact hx hy

end Texts

section Keys

variable [DecidableEq E] {b a : List CHAR} {memory : ℤ → CHAR}

/-- A step that edits the row of the cursor only. -/
theorem Shows.edit {d' : Doc} {v : Row} {x : ℤ} (hs : s.Shows d as bs e ys)
    (hgo : s.Leads t as bs e ys (update s.row e v) x) (hstale : t.stale = s.stale)
    (habove : d'.above = d.above) (hbelow : d'.below = d.below)
    (hcur : v.Holds d'.before d'.after) (hx : x = d'.col) : t.Shows d' as bs e ys where
  toLaid := hgo.toLaid
  above := by
    rw [hgo.row, texts_update hs.apart.1, hs.above, habove]
  cur := by
    rw [hgo.row, Function.update_self]
    exact hcur
  below := by
    rw [hgo.row, texts_update hs.apart.2, hs.below, hbelow]
  valid y hy := by
    rw [hgo.row, Function.update_apply]
    split
    · exact hcur.valid
    · exact hs.valid y hy
  cur_x := hgo.cur_x.trans hx
  stale := hstale.trans hs.stale

/-- What a newline leaves in the two rows. -/
theorem split_row (hre : r ≠ e) (h : (s.row e).Holds b a) (memory : ℤ → CHAR) :
    let row := ((s.newRow r).split memory r e).row
    (row r).Holds [] a ∧ (row e).Holds b [] ∧ ∀ x, x ≠ r → x ≠ e → row x = s.row x := by
  have hre' : e ≠ r := fun heq => hre heq.symm
  have hnew : (s.newRow r).row r = Row.new := Function.update_self ..
  have hold : (s.newRow r).row e = s.row e := Function.update_of_ne hre' ..
  have hlen := h.len
  have hpos := h.pos
  simp only [split]
  by_cases hin : (s.row e).pos < (s.row e).len
  · rw [hold, if_pos hin]
    simp only [move_string]
    rw [hnew, hold]
    have hcount : ((s.row e).len - (s.row e).pos).toNat = a.length := by omega
    have hins := Row.new_holds.insert_string memory
      (fun i => (s.row e).text.cell ((s.row e).pos + i))
      (l := (s.row e).len - (s.row e).pos) (by omega)
    rw [hcount, List.append_nil, h.after] at hins
    have hdlen := Row.insert_string_len Row.new_valid memory
      (fun i => (s.row e).text.cell ((s.row e).pos + i))
      (l := (s.row e).len - (s.row e).pos) (by omega)
    refine ⟨?_, ?_, fun x hxr hxe => ?_⟩
    · rw [Function.update_of_ne hre, Function.update_self]
      exact hins
    · rw [Function.update_self, Function.update_of_ne hre', hold, hdlen]
      refine h.delete_string ?_
      change (s.row e).len ≤ 0 + ((s.row e).len - (s.row e).pos) + (s.row e).pos
      omega
    · rw [Function.update_of_ne hxe, Function.update_of_ne hxr]
      exact Function.update_of_ne hxr ..
  · rw [hold, if_neg hin, hnew, hold]
    obtain rfl : a = [] := List.length_eq_zero_iff.mp (by omega)
    exact ⟨Row.new_holds, h, fun x hxr _ => Function.update_of_ne hxr ..⟩

/-- **Newline** -/
theorem Shows.newline (hs : s.Shows d as bs e ys) (hr : s.live r = false)
    (memory : ℤ → CHAR) :
    ∃ t as' bs', s.newline r memory = some t ∧ t.Shows d.enter as' bs' r ys ∧ t.w = s.w := by
  have hrn := hs.notMem hr
  have hre : r ≠ e := fun heq => hrn (by simp [heq])
  obtain ⟨t, as', bs', ht, happ, hgo, -, hstale⟩ := hs.toLaid.newline hr memory
  obtain ⟨hcur, hold, hrest⟩ := split_row hre hs.cur memory
  rw [← hgo.row] at hcur hold hrest
  have hsame : ∀ x ∈ as ++ bs ++ ys, t.row x = s.row x := by
    intro x hx
    refine hrest x ?_ ?_
    · rintro rfl
      exact hrn (by simp only [List.mem_append, List.mem_cons] at hx ⊢; tauto)
    · rintro rfl
      have hap := hs.apart
      simp only [List.mem_append] at hx hap
      tauto
  refine ⟨t, as', bs', ht, ⟨hgo.toLaid, ?_, hcur, ?_, ?_, hgo.cur_x, hstale.trans hs.stale⟩,
    hgo.w⟩
  · rw [happ, texts_append, texts_congr fun x hx => hsame x (List.mem_append_left _ hx), hs.above,
      texts_cons, texts_nil, hold.string, List.append_nil]
    rfl
  · rw [texts_congr fun x hx => hsame x (List.mem_append_right _ hx), hs.below]
    rfl
  · intro x hx
    by_cases hxr : x = r
    · exact hxr ▸ hcur.valid
    · by_cases hxe : x = e
      · exact hxe ▸ hold.valid
      · rw [happ] at hx
        have hmem : x ∈ as ++ bs ++ ys := by
          simp only [List.mem_append, List.mem_cons] at hx ⊢
          tauto
        rw [hsame x hmem]
        exact hs.valid x (by simp only [List.mem_append, List.mem_cons] at hmem ⊢; tauto)

/-- **Backspace** inside a row. -/
theorem Shows.backspace_char (hs : s.Shows d as bs e ys) (hx : 0 < s.cur_x)
    (memory : ℤ → CHAR) (trash : Row) :
    ∃ t, s.backspace memory trash = some t ∧ t.Shows d.backspace as bs e ys ∧ t.w = s.w := by
  obtain ⟨t, ht, hgo, -, hstale⟩ := hs.toLaid.backspace_char hx memory trash
  have hcol := hs.cur_x
  rcases d.before.eq_nil_or_concat with hb | ⟨b, c, hb⟩
  · rw [Doc.col, hb, List.length_nil] at hcol
    omega
  · rw [List.concat_eq_append] at hb
    have hdoc : d.backspace = { d with before := b } := by simp [Doc.backspace, hb]
    have hcur := hs.cur
    rw [hb] at hcur
    rw [Doc.col, hb, List.length_append, List.length_singleton] at hcol
    push_cast at hcol
    rw [hdoc]
    exact ⟨t, ht, hs.edit hgo hstale rfl rfl hcur.backspace
      (show s.cur_x - 1 = b.length by omega), hgo.w⟩

/-- **Backspace** at the beginning of the first row. -/
theorem Shows.backspace_first (hs : s.Shows d as bs e ys) (hx : ¬ 0 < s.cur_x)
    (hp : as ++ bs = []) (memory : ℤ → CHAR) (trash : Row) :
    ∃ t, s.backspace memory trash = some t ∧ t.Shows d.backspace as bs e ys ∧ t.w = s.w := by
  obtain ⟨t, ht, hgo, -, hstale⟩ := hs.toLaid.backspace_first hx hp memory trash
  have hb := hs.before_eq hx
  have ha : d.above = [] := by
    rw [← hs.above, hp]
    rfl
  have hdoc : d.backspace = d := by simp [Doc.backspace, hb, ha]
  have hstart : (s.row e).backspace.2 = s.row e := (hb ▸ hs.cur).backspace_start
  rw [hstart] at hgo
  rw [hdoc]
  exact ⟨t, ht, hs.edit hgo hstale rfl rfl hs.cur hs.cur_x, hgo.w⟩

/-- What joining the row of the cursor with the one above leaves there. -/
theorem joinedRow_spec {p : E} (hpe : p ≠ e) (he : (s.row e).Holds [] a)
    (hp : (s.row p).Valid) (memory : ℤ → CHAR) (trash : Row) :
    (s.joinedRow p e memory trash p).Holds (s.row p).string a ∧
      ∀ x, x ≠ p → x ≠ e → s.joinedRow p e memory trash x = s.row x := by
  have hep : e ≠ p := fun heq => hpe heq.symm
  have hend : ({ s.row p with pos := (s.row p).len } : Row).Holds (s.row p).string [] := by
    refine hp.holds.move (by simp) ?_
    have hlen := hp.holds.len
    rw [Row.length_string]
    omega
  simp only [joinedRow, move_string, he.backspace_start, Function.update_eq_self]
  refine ⟨?_, fun x hxp hxe => ?_⟩
  · rw [Function.update_of_ne hpe, Function.update_of_ne hpe, Function.update_self,
      Function.update_self, Function.update_of_ne hep]
    have hlen : (s.row e).len = a.length := by simpa using he.len
    have hins := hend.insert_string memory
      (fun i => (s.row e).text.cell ((s.row e).pos + i)) (l := (s.row e).len) (by omega)
    have hcount : (s.row e).len.toNat = a.length := by omega
    rwa [hcount, he.after, List.append_nil] at hins
  · rw [Function.update_of_ne hxe, Function.update_of_ne hxe, Function.update_of_ne hxp,
      Function.update_of_ne hxp]

/-- **Backspace** at the beginning of a row under one with text. -/
theorem Shows.backspace_join {us : List E} {p : E} (hs : s.Shows d as bs e ys)
    (hx : ¬ 0 < s.cur_x) (hp : as ++ bs = us ++ [p]) (hlen : ¬ (s.row p).len < 1)
    (memory : ℤ → CHAR) (trash : Row) :
    ∃ t as' bs', s.backspace memory trash = some t ∧ t.Shows d.backspace as' bs' p ys ∧
      t.w = s.w := by
  obtain ⟨t, as', bs', ht, hus, hgo, -, hstale⟩ :=
    hs.toLaid.backspace_join hx hp hlen memory trash
  have hb := hs.before_eq hx
  have hcur := hs.cur
  rw [hb] at hcur
  have hnd := hs.shape.nodup ()
  rw [hp, List.append_assoc, List.singleton_append] at hnd
  have hpus : p ∉ us ++ e :: ys := (List.nodup_middle.mp hnd).notMem
  have heup : e ∉ as ++ bs ∧ e ∉ ys := hs.apart
  have hpe : p ≠ e := fun heq => hpus (by simp [heq])
  have hpv : (s.row p).Valid := by
    refine hs.valid p ?_
    rw [hp]
    simp
  obtain ⟨hjoin, hrest⟩ := joinedRow_spec hpe hcur hpv memory trash
  rw [← hgo.row] at hjoin hrest
  have hsame : ∀ x ∈ us ++ ys, t.row x = s.row x := by
    intro x hx
    refine hrest x ?_ ?_
    · rintro rfl
      exact hpus (by simp only [List.mem_append, List.mem_cons] at hx ⊢; tauto)
    · rintro rfl
      rw [hp] at heup
      simp only [List.mem_append] at hx heup
      tauto
  have habove : d.above = texts s.row us ++ [(s.row p).string] := by
    rw [← hs.above, hp, texts_append]
    rfl
  have hdoc : d.backspace = { d with above := texts s.row us, before := (s.row p).string } := by
    simp [Doc.backspace, hb, habove]
  rw [hdoc]
  refine ⟨t, as', bs', ht, ⟨hgo.toLaid, ?_, hjoin, ?_, ?_, ?_, hstale.trans hs.stale⟩, hgo.w⟩
  · rw [hus, texts_congr fun x hx => hsame x (List.mem_append_left _ hx)]
  · rw [texts_congr fun x hx => hsame x (List.mem_append_right _ hx), hs.below]
  · intro x hx
    by_cases hxp : x = p
    · exact hxp ▸ hjoin.valid
    · rw [hus] at hx
      have hmem : x ∈ us ++ ys := by
        simp only [List.mem_append, List.mem_cons] at hx ⊢
        tauto
      rw [hsame x hmem]
      refine hs.valid x ?_
      rw [hp]
      simp only [List.mem_append, List.mem_cons] at hmem ⊢
      tauto
  · rw [hgo.cur_x, ← hgo.row, hjoin.pos]
    rfl

/-- **Left** -/
theorem Shows.left (hs : s.Shows d as bs e ys) :
    ∃ t, s.left = some t ∧ t.Shows d.left as bs e ys ∧ t.w = s.w := by
  have hcol := hs.cur_x
  rcases d.before.eq_nil_or_concat with hb | ⟨b, c, hb⟩
  · rw [Doc.col, hb, List.length_nil] at hcol
    have hdoc : d.left = d := by simp [Doc.left, hb]
    rw [hdoc]
    exact ⟨s, if_pos (by omega), hs, rfl⟩
  · rw [List.concat_eq_append] at hb
    have hdoc : d.left = { d with before := b, after := c :: d.after } := by
      simp [Doc.left, hb]
    rw [Doc.col, hb, List.length_append, List.length_singleton] at hcol
    push_cast at hcol
    obtain ⟨t, ht, hgo, -, hstale⟩ := hs.toLaid.left (by omega)
    have hcur := hs.cur
    rw [hb] at hcur
    have hpos := hcur.pos
    rw [List.length_append, List.length_singleton] at hpos
    push_cast at hpos
    have hback : (s.row e).pos - 1 = b.length := by omega
    have hcol' : s.cur_x - 1 = b.length := by omega
    rw [hdoc]
    exact ⟨t, ht, hs.edit hgo hstale rfl rfl (hcur.move (by simp) hback) hcol', hgo.w⟩

/-- **Right** -/
theorem Shows.right (hs : s.Shows d as bs e ys) :
    ∃ t, s.right = some t ∧ t.Shows (d.right s.w) as bs e ys ∧ t.w = s.w := by
  have hcol := hs.cur_x
  have hlen := hs.cur.len
  have hpos := hs.cur.pos
  rw [Doc.col] at hcol
  by_cases hx : s.cur_x ≥ s.w
  · have hdoc : d.right s.w = d := by
      have hw : ¬ (d.col : ℤ) < s.w := by
        rw [Doc.col]
        omega
      rw [Doc.right]
      split
      · rw [if_neg hw]
      · rfl
    rw [hdoc]
    exact ⟨s, if_pos hx, hs, rfl⟩
  · rcases ha : d.after with _ | ⟨c, after⟩
    · have hdoc : d.right s.w = d := by simp [Doc.right, ha]
      rw [ha, List.length_nil] at hlen
      rw [hdoc]
      exact ⟨s, hs.toLaid.right_end hx (by omega), hs, rfl⟩
    · have hw : (d.col : ℤ) < s.w := by
        rw [Doc.col]
        omega
      have hdoc : d.right s.w = { d with before := d.before ++ [c], after := after } := by
        simp [Doc.right, ha, hw]
      rw [ha, List.length_cons] at hlen
      push_cast at hlen
      obtain ⟨t, ht, hgo, -, hstale⟩ := hs.toLaid.right hx (by omega)
      have hstep : (s.row e).pos + 1 = (d.before ++ [c]).length := by
        rw [List.length_append, List.length_singleton, hpos]
        push_cast
        rfl
      have hcol' : s.cur_x + 1 = (d.before ++ [c]).length := by omega
      rw [hdoc]
      exact ⟨t, ht, hs.edit hgo hstale rfl rfl (hs.cur.move (by simp [ha]) hstep) hcol',
        hgo.w⟩

/-- **A character** -/
theorem Shows.insert (hs : s.Shows d as bs e ys) (key : ℤ) (memory : ℤ → CHAR) :
    ∃ t, s.insert key memory = some t ∧ t.Shows (d.insert s.w (charOf key)) as bs e ys ∧
      t.w = s.w := by
  have hcol := hs.cur_x
  by_cases hx : s.cur_x < s.w
  · have hdoc : d.insert s.w (charOf key) = { d with before := d.before ++ [charOf key] } :=
      if_pos (hcol ▸ hx)
    obtain ⟨t, ht, hgo, -, hstale⟩ := hs.toLaid.insert hx key memory
    have hcol' : s.cur_x + 1 = (d.before ++ [charOf key]).length := by
      rw [List.length_append, List.length_singleton, hcol, Doc.col]
      push_cast
      rfl
    rw [hdoc]
    exact ⟨t, ht, hs.edit hgo hstale rfl rfl (hs.cur.insert_char memory _) hcol', hgo.w⟩
  · have hdoc : d.insert s.w (charOf key) = d := if_neg (hcol ▸ hx)
    rw [hdoc]
    exact ⟨s, if_neg hx, hs, rfl⟩

/-- A step to another row, whose position it sets. -/
theorem Shows.goTo {d' : Doc} {as' bs' ys' : List E} {p : E} {x : ℤ}
    (hs : s.Shows d as bs e ys)
    (hgo : s.Leads t as' bs' p ys' (update s.row p { s.row p with pos := x }) x)
    (hstale : t.stale = s.stale) (hall : as' ++ bs' ++ p :: ys' = as ++ bs ++ e :: ys)
    (habove : texts s.row (as' ++ bs') = d'.above)
    (hline : (s.row p).string = d'.before ++ d'.after) (hx : x = d'.before.length)
    (hbelow : texts s.row ys' = d'.below) : t.Shows d' as' bs' p ys' := by
  have hpv : (s.row p).Valid := by
    refine hs.valid p ?_
    rw [← hall]
    simp
  have hcur : ({ s.row p with pos := x } : Row).Holds d'.before d'.after :=
    hpv.holds.move ((List.take_append_drop _ _).trans hline) hx
  have hap := hgo.toLaid.toFramed.apart
  refine ⟨hgo.toLaid, ?_, ?_, ?_, ?_, hgo.cur_x.trans hx, hstale.trans hs.stale⟩
  · rw [hgo.row, texts_update hap.1, habove]
  · rw [hgo.row, Function.update_self]
    exact hcur
  · rw [hgo.row, texts_update hap.2, hbelow]
  · intro y hy
    rw [hgo.row, Function.update_apply]
    split
    · exact hcur.valid
    · exact hs.valid y (hall ▸ hy)

omit [DecidableEq E] in
/-- The document after going up. -/
theorem Shows.doc_up {us : List E} {p : E} (hs : s.Shows d as bs e ys)
    (hp : as ++ bs = us ++ [p]) :
    d.up = ⟨texts s.row us, (s.row p).string.take d.col, (s.row p).string.drop d.col,
      (s.row e).string :: texts s.row ys⟩ := by
  have habove : d.above = texts s.row us ++ [(s.row p).string] := by
    rw [← hs.above, hp, texts_append]
    rfl
  simp [Doc.up, habove, hs.cur.string, hs.below]

/-- **Up** -/
theorem Shows.up (hs : s.Shows d as bs e ys)
    (hc : s.cur_y = 0 → ∀ p, s.rows.prev e = some p → (s.row p).pos = s.cur_x) :
    ∃ t as' bs' e' ys', s.up = some t ∧ t.Shows d.up as' bs' e' ys' ∧ t.w = s.w := by
  have hline := hs.cur_y
  rcases bs.eq_nil_or_concat with hbs | ⟨us, p, hbs⟩
  · rcases as.eq_nil_or_concat with has | ⟨us, p, has⟩
    · have ha : d.above = [] := by
        rw [← hs.above, has, hbs]
        rfl
      have hdoc : d.up = d := by simp [Doc.up, ha]
      rw [hdoc]
      exact ⟨s, as, bs, e, ys, hs.toLaid.up_first hbs has, hs, rfl⟩
    · rw [List.concat_eq_append] at has
      have hp : as ++ bs = us ++ [p] := by rw [has, hbs, List.append_nil]
      obtain ⟨t, ht, hgo, -, hstale⟩ := hs.toLaid.up_scroll hbs has
      have hprev : s.rows.prev e = some p := by
        rw [hs.prev, hp, List.getLast?_append_cons, List.getLast?_singleton]
      have hpos := hc (by rw [hline, hbs]; rfl) p hprev
      have hpv : (s.row p).Valid := hs.valid p (by rw [hp]; simp)
      have hrow : update s.row p { s.row p with pos := s.cur_x } = s.row := by
        rw [← hpos]
        exact Function.update_eq_self ..
      refine ⟨t, us, [], p, e :: ys, ht, ?_, hgo.w⟩
      rw [hs.doc_up hp]
      refine hs.goTo (hrow.symm ▸ hgo) hstale (by simp [hp]) (by rw [List.append_nil])
        (List.take_append_drop _ _).symm (hs.column hpv hpos) rfl
  · rw [List.concat_eq_append] at hbs
    have hp : as ++ bs = (as ++ us) ++ [p] := by rw [hbs, List.append_assoc]
    obtain ⟨t, ht, hgo, -, hstale⟩ := hs.toLaid.up hbs
    have hpv : (s.row p).Valid := hs.valid p (by rw [hp]; simp)
    refine ⟨t, as, us, p, e :: ys, ht, ?_, hgo.w⟩
    rw [hs.doc_up hp]
    exact hs.goTo hgo hstale (by rw [hp]; simp) rfl (List.take_append_drop _ _).symm
      (hs.columnIn hpv) rfl

omit [DecidableEq E] in
/-- The document after going down. -/
theorem Shows.doc_down {q : E} {zs : List E} (hs : s.Shows d as bs e ys) (hys : ys = q :: zs) :
    d.down = ⟨texts s.row (as ++ bs ++ [e]), (s.row q).string.take d.col,
      (s.row q).string.drop d.col, texts s.row zs⟩ := by
  have hbelow : d.below = (s.row q).string :: texts s.row zs := by
    rw [← hs.below, hys]
    rfl
  simp [Doc.down, hbelow, hs.cur.string, ← hs.above]

/-- **Down** -/
theorem Shows.down (hs : s.Shows d as bs e ys)
    (hc : s.cur_y = s.h → ∀ q, s.rows.next e = some q → (s.row q).pos = s.cur_x) :
    ∃ t as' bs' e' ys', s.down = some t ∧ t.Shows d.down as' bs' e' ys' ∧ t.w = s.w := by
  have hle := hs.cur_y_le
  rcases hys : ys with _ | ⟨q, zs⟩
  · have hb : d.below = [] := by
      rw [← hs.below, hys]
      rfl
    have hdoc : d.down = d := by simp [Doc.down, hb]
    rw [hdoc]
    exact ⟨s, as, bs, e, ys, hs.toLaid.down_last hys, hs, rfl⟩
  · have hqv : (s.row q).Valid := hs.valid q (by rw [hys]; simp)
    by_cases hin : s.cur_y < s.h
    · obtain ⟨t, ht, hgo, -, hstale⟩ := hs.toLaid.down hys hin
      refine ⟨t, as, bs ++ [e], q, zs, ht, ?_, hgo.w⟩
      rw [hs.doc_down hys]
      exact hs.goTo hgo hstale (by rw [hys]; simp) (by rw [List.append_assoc])
        (List.take_append_drop _ _).symm (hs.columnIn hqv) rfl
    · obtain ⟨t, v, cs, ht, hv, hgo, -, hstale⟩ := hs.toLaid.down_scroll hys hin
      have hnext : s.rows.next e = some q := by
        rw [hs.next, hys]
        rfl
      have hpos := hc (by omega) q hnext
      have hrow : update s.row q { s.row q with pos := s.cur_x } = s.row := by
        rw [← hpos]
        exact Function.update_eq_self ..
      have happ : as ++ [v] ++ cs = as ++ bs ++ [e] := by
        rw [List.append_assoc, List.singleton_append, ← hv, List.append_assoc]
      refine ⟨t, as ++ [v], cs, q, zs, ht, ?_, hgo.w⟩
      rw [hs.doc_down hys]
      exact hs.goTo (hrow.symm ▸ hgo) hstale (by rw [happ, hys]; simp) (by rw [happ])
        (List.take_append_drop _ _).symm (hs.column hqv hpos) rfl

/-- The key is none of those that let the two records of the column get apart or that read a
deleted row: backspace under an empty row, tab before the last column, and scrolling to a row
whose position is not the column. -/
def InStep (s : TextConsole E) (a : Fed E) : Prop :=
  match label a.key with
  | .backspace => s.cur_x = 0 → ∀ p, s.cur_row.bind s.rows.prev = some p → 1 ≤ (s.row p).len
  | .tab => s.cur_x = s.w
  | .up =>
    s.cur_y = 0 → ∀ p, s.cur_row.bind s.rows.prev = some p → (s.row p).pos = s.cur_x
  | .down =>
    s.cur_y = s.h → ∀ q, s.cur_row.bind s.rows.next = some q → (s.row q).pos = s.cur_x
  | _ => True

/-- **A key** has the effect on the console that it has on the document. -/
theorem Shows.feed (hs : s.Shows d as bs e ys) (a : Fed E) (hr : s.live a.r = false)
    (hc : s.InStep a) :
    ∃ t as' bs' e' ys', s.feed a = some t ∧ t.Shows (d.feed s.w a.key) as' bs' e' ys' ∧
      t.w = s.w := by
  have hcur := hs.cur_row
  simp only [InStep, hcur, Option.bind_some] at hc
  simp only [TextConsole.feed, Doc.feed]
  cases hlabel : label a.key with
  | newline =>
      obtain ⟨t, as', bs', ht, hshow, hw⟩ := hs.newline hr a.memory
      exact ⟨t, as', bs', a.r, ys, ht, hshow, hw⟩
  | ctrl_l =>
      exact ⟨s, as, bs, e, ys, congrArg some hs.refresh, hs, rfl⟩
  | backspace =>
      simp only [hlabel] at hc
      by_cases hx : 0 < s.cur_x
      · obtain ⟨t, ht, hshow, hw⟩ := hs.backspace_char hx a.memory a.trash
        exact ⟨t, as, bs, e, ys, ht, hshow, hw⟩
      · rcases (as ++ bs).eq_nil_or_concat with hp | ⟨us, p, hp⟩
        · obtain ⟨t, ht, hshow, hw⟩ := hs.backspace_first hx hp a.memory a.trash
          exact ⟨t, as, bs, e, ys, ht, hshow, hw⟩
        · rw [List.concat_eq_append] at hp
          have hprev : s.rows.prev e = some p := by
            rw [hs.prev, hp, List.getLast?_append_cons, List.getLast?_singleton]
          have hcol := hs.cur_x
          have hlen := hc (by omega) p hprev
          obtain ⟨t, as', bs', ht, hshow, hw⟩ :=
            hs.backspace_join hx hp (by omega) a.memory a.trash
          exact ⟨t, as', bs', p, ys, ht, hshow, hw⟩
  | tab =>
      simp only [hlabel] at hc
      have htab : s.tab = s := by
        rw [TextConsole.tab, if_neg (by omega), if_neg (by omega)]
      exact ⟨s, as, bs, e, ys, congrArg some htab, hs, rfl⟩
  | left =>
      obtain ⟨t, ht, hshow, hw⟩ := hs.left
      exact ⟨t, as, bs, e, ys, ht, hshow, hw⟩
  | right =>
      obtain ⟨t, ht, hshow, hw⟩ := hs.right
      exact ⟨t, as, bs, e, ys, ht, hshow, hw⟩
  | up =>
      simp only [hlabel] at hc
      exact hs.up hc
  | down =>
      simp only [hlabel] at hc
      exact hs.down hc
  | default =>
      obtain ⟨t, ht, hshow, hw⟩ := hs.insert a.key a.memory
      exact ⟨t, as, bs, e, ys, ht, hshow, hw⟩

/-- The records agree, and no deleted row was read. -/
def Agrees (s : TextConsole E) : Prop :=
  s.stale = [] ∧ ∀ e, s.cur_row = some e → s.cur_x = (s.row e).pos

omit [DecidableEq E] in
theorem Shows.agrees (hs : s.Shows d as bs e ys) : s.Agrees := by
  refine ⟨hs.stale, fun e' he' => ?_⟩
  obtain rfl : e = e' := Option.some.inj (hs.cur_row.symm.trans he')
  rw [hs.cur_x, hs.cur.pos]
  rfl

omit [DecidableEq E] in
/-- Tab before or behind the last column moves the cursor. -/
theorem tab_cur_x (hx : s.cur_x ≠ s.w) : s.tab.cur_x ≠ s.cur_x := by
  rw [TextConsole.tab]
  dsimp only
  split <;> split <;> omega

/-- **Every other key** lets the records get apart or reads a deleted row. -/
theorem Shows.feed_breaks (hs : s.Shows d as bs e ys) (a : Fed E) (hc : ¬ s.InStep a)
    (ht : s.feed a = some t) : ¬ t.Agrees := by
  have hcur := hs.cur_row
  simp only [InStep, hcur, Option.bind_some] at hc
  simp only [TextConsole.feed] at ht
  rintro ⟨hstale, hcol⟩
  cases hlabel : label a.key with
  | backspace =>
      simp only [hlabel, not_forall] at hc ht
      obtain ⟨hx, p, hprev, hlen⟩ := hc
      rcases (as ++ bs).eq_nil_or_concat with hp | ⟨us, q, hp⟩
      · rw [hs.prev, hp] at hprev
        simp at hprev
      · rw [List.concat_eq_append] at hp
        obtain rfl : q = p := by simpa [hs.prev, hp] using hprev
        obtain ⟨t', as', bs', ht', -, -, -, hread⟩ :=
          hs.toLaid.backspace_empty (by omega) hp (by omega) a.memory a.trash
        obtain rfl : t = t' := Option.some.inj (ht.symm.trans ht')
        rw [hread] at hstale
        simp at hstale
  | tab =>
      simp only [hlabel] at hc ht
      obtain rfl : s.tab = t := Option.some.inj ht
      have hsame := hcol e hcur
      have hpos := hs.agrees.2 e hcur
      exact tab_cur_x hc (hsame.trans hpos.symm)
  | up =>
      simp only [hlabel, not_forall] at hc ht
      obtain ⟨hy, p, hprev, hpos⟩ := hc
      have hline := hs.cur_y
      have hbs : bs = [] := List.length_eq_zero_iff.mp (by omega)
      rcases as.eq_nil_or_concat with has | ⟨us, q, has⟩
      · rw [hs.prev, has, hbs] at hprev
        simp at hprev
      · rw [List.concat_eq_append] at has
        obtain rfl : q = p := by simpa [hs.prev, has, hbs] using hprev
        obtain ⟨t', ht', hgo, -, -⟩ := hs.toLaid.up_scroll hbs has
        obtain rfl : t = t' := Option.some.inj (ht.symm.trans ht')
        have hsame := hcol q hgo.cur_row
        rw [hgo.cur_x, hgo.row] at hsame
        exact hpos hsame.symm
  | down =>
      simp only [hlabel, not_forall] at hc ht
      obtain ⟨hy, q, hnext, hpos⟩ := hc
      rcases hys : ys with _ | ⟨q', zs⟩
      · rw [hs.next, hys] at hnext
        simp at hnext
      · obtain rfl : q' = q := by simpa [hs.next, hys] using hnext
        obtain ⟨t', v, cs, ht', -, hgo, -, -⟩ := hs.toLaid.down_scroll hys (by omega)
        obtain rfl : t = t' := Option.some.inj (ht.symm.trans ht')
        have hsame := hcol q' hgo.cur_row
        rw [hgo.cur_x, hgo.row] at hsame
        exact hpos hsame.symm
  | newline | ctrl_l | left | right | default =>
      simp only [hlabel, not_true_eq_false] at hc

end Keys

end TextConsole

/-! ### Runs -/

section Runs

variable {E : Type*} [DecidableEq E] {w h : ℤ} {s : TextConsole E} {d : Doc}

/-- A console and the document it is to show, fed the same keys. -/
def editing (E : Type*) [DecidableEq E] (w h : ℤ) : System (TextConsole E × Doc) (Fed E) where
  init p := (∃ e mem, p.1 = start e mem w h) ∧ p.2 = Doc.empty
  step p a q := p.1.live a.r = false ∧ p.1.feed a = some q.1 ∧ q.2 = p.2.feed w a.key

/-- A console just started shows the empty document. -/
theorem start_shows (e : E) (mem : E → Row) (w : ℤ) (hh : 1 ≤ h) :
    (start e mem w h).Shows Doc.empty [] [] e [] where
  toLaid := start_laid e mem w hh
  above := rfl
  cur := by
    change (update mem e Row.new e).Holds [] []
    rw [Function.update_self]
    exact Row.new_holds
  below := rfl
  valid x hx := by
    obtain rfl : x = e := by simpa using hx
    change (update mem x Row.new x).Valid
    rw [Function.update_self]
    exact Row.new_valid
  cur_x := rfl
  stale := rfl

/-- In runs of keys in step the console shows the document. -/
theorem editing_shows (hh : 1 ≤ h) :
    Invariant ((editing E w h).restrict fun p a => p.1.InStep a) fun p =>
      p.1.w = w ∧ ∃ as bs e ys, p.1.Shows p.2 as bs e ys where
  init := by
    rintro ⟨s, d⟩ ⟨⟨e, mem, rfl⟩, rfl⟩
    exact ⟨rfl, [], [], e, [], start_shows e mem w hh⟩
  step := by
    rintro ⟨s, d⟩ a ⟨t, d'⟩ ⟨hw, as, bs, e, ys, hs⟩ ⟨hc, hr, ht, rfl⟩
    obtain ⟨t', as', bs', e', ys', ht', hshow, hw'⟩ := hs.feed a hr hc
    obtain rfl : t = t' := Option.some.inj (ht.symm.trans ht')
    exact ⟨hw'.trans hw, as', bs', e', ys', hw ▸ hshow⟩

/-- **The text console refines an editor of lines**, in every run whose keys are in step: the
texts of its rows are the lines of the document, the row that is edited is the line of the
cursor, the column on the screen is the position in the row and the column of the document,
and no deleted row was read. From such a state every key is handled, and it keeps the records
of the column together and reads no deleted row exactly when it is in step. In the document,
backspace takes enter back. -/
theorem console_refines (hh : 1 ≤ h)
    (hr : Reachable ((editing E w h).restrict fun p a => p.1.InStep a) (s, d)) :
    (∃ xs e, Links.Walk s.rows.next (s.rows.first ()) xs ∧ texts s.row xs = d.lines ∧
      xs[d.row]? = some e ∧ s.cur_row = some e ∧ s.cur_x = (s.row e).pos ∧ s.cur_x = d.col ∧
      0 ≤ (s.row e).pos ∧ (s.row e).pos ≤ (s.row e).len) ∧
      s.stale = [] ∧
      (∀ a, s.live a.r = false → ∃ t, s.feed a = some t ∧ (t.Agrees ↔ s.InStep a)) ∧
      ∀ enter backspace, label enter = .newline → label backspace = .backspace →
        (d.feed w enter).feed w backspace = d := by
  obtain ⟨-, as, bs, e, ys, hs⟩ := (editing_shows hh).holds hr
  refine ⟨⟨as ++ bs ++ e :: ys, e, (hs.shape.strand ()).walk_next, ?_, ?_, hs.cur_row,
    hs.agrees.2 e hs.cur_row, hs.cur_x, hs.cur.valid.pos_nonneg, hs.cur.valid.pos_le⟩,
    hs.stale, fun a ha => ?_, fun enter backspace henter hback => ?_⟩
  · rw [texts_append, hs.above, texts_cons, hs.cur.string, hs.below]
    rfl
  · have hlen : d.row = (as ++ bs).length := by
      rw [Doc.row, ← hs.above, texts, List.length_map]
    rw [hlen, List.getElem?_append_right (Nat.le_refl _), Nat.sub_self]
    rfl
  · obtain ⟨t, -, -, -, -, ht, -⟩ := hs.toLaid.feed a ha
    refine ⟨t, ht, fun hagree => ?_, fun hc => ?_⟩
    · by_contra hc
      exact hs.feed_breaks a hc ht hagree
    · obtain ⟨t', as', bs', e', ys', ht', hshow, -⟩ := hs.feed a ha hc
      obtain rfl : t = t' := Option.some.inj (ht.symm.trans ht')
      exact hshow.agrees
  · simp only [Doc.feed, henter, hback]
    exact d.backspace_enter

/-- Typing a character and enter. -/
theorem console_refines_enter :
    ∃ s : TextConsole ℕ, ∃ d : Doc, d.lines = [[charOf 97], []] ∧
      (∃ xs e, Links.Walk s.rows.next (s.rows.first ()) xs ∧ texts s.row xs = d.lines ∧
        xs[d.row]? = some e ∧ s.cur_row = some e ∧ s.cur_x = (s.row e).pos ∧ s.cur_x = d.col ∧
        0 ≤ (s.row e).pos ∧ (s.row e).pos ≤ (s.row e).len) ∧
      s.stale = [] ∧
      (∀ a, s.live a.r = false → ∃ t, s.feed a = some t ∧ (t.Agrees ↔ s.InStep a)) ∧
      ∀ enter backspace, label enter = .newline → label backspace = .backspace →
        (d.feed 80 enter).feed 80 backspace = d := by
  have hinit : Reachable ((editing ℕ 80 24).restrict fun p a => p.1.InStep a)
      (start 0 (fun _ => Row.new) 80 24, Doc.empty) := .init ⟨⟨0, fun _ => Row.new, rfl⟩, rfl⟩
  have hchar : ∀ s : TextConsole ℕ, s.InStep ⟨97, 1, fun _ => EOL, Row.new⟩ := fun _ => trivial
  have hkey : ∀ s : TextConsole ℕ, s.InStep ⟨KEY_ENTER, 1, fun _ => EOL, Row.new⟩ :=
    fun _ => trivial
  have htype := hinit.step (t := (_, _)) ⟨hchar _, rfl, rfl, rfl⟩
  have henter := htype.step (t := (_, _)) ⟨hkey _, rfl, rfl, rfl⟩
  exact ⟨_, _, rfl, console_refines (by decide) henter⟩

/-- **Enter and backspace in an empty document read the row that backspace has deleted, and
tab lets the column on the screen and that in the row get apart.** -/
theorem console_apart :
    (∃ s : TextConsole ℕ, ∃ d, Reachable (editing ℕ 80 24) (s, d) ∧ s.stale = [0]) ∧
      ∃ s : TextConsole ℕ, ∃ d, Reachable (editing ℕ 80 24) (s, d) ∧ s.cur_row = some 0 ∧
        s.cur_x = 8 ∧ (s.row 0).pos = 0 := by
  have hinit : Reachable (editing ℕ 80 24) (start 0 (fun _ => Row.new) 80 24, Doc.empty) :=
    .init ⟨⟨0, fun _ => Row.new, rfl⟩, rfl⟩
  have henter := hinit.step (a := ⟨KEY_ENTER, 1, fun _ => EOL, Row.new⟩) (t := (_, _))
    ⟨rfl, rfl, rfl⟩
  have hback := henter.step (a := ⟨KEY_BACKSPACE, 2, fun _ => EOL, Row.new⟩) (t := (_, _))
    ⟨rfl, rfl, rfl⟩
  have htab := hinit.step (a := ⟨KEY_TAB, 1, fun _ => EOL, Row.new⟩) (t := (_, _))
    ⟨rfl, rfl, rfl⟩
  exact ⟨⟨_, _, hback, rfl⟩, _, _, htab, rfl, rfl, rfl⟩

end Runs

end FreeJ
