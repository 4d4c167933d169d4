import FreeJ.LinklistShape
import FreeJ.Row
import FreeJ.Transition

/-!
# The Text Console

`TextConsole` of `abs_text_console.cpp`: a list of rows, the row that is edited (`cur_row`),
the first row of the window (`vis_row_in`), and the cursor on the screen. `feed` handles one
key. It returns `none` when it follows a null pointer. The rows are objects of the heap:
`live` tells which are allocated, and `stale` collects the rows of which a field was read
after they were deleted. What a call of `feed` gets from its surroundings is a `Fed`: the key,
the address that `new Row` would return, what an enlarged buffer holds behind the old one, and
what is left where a row was deleted.

The drawing itself (`blank`, `blank_row`, `putnch`) is done by the widget that the console is
placed on; of `refresh` and `refresh_current` there are the rows that they visit.

## Main results

* `TextConsole.Laid`: the rows are those above the window, those in it above the cursor, the
  row that is edited, and those below.
* `TextConsole.feed_laid`: every key keeps that, and no key follows a null pointer.
* `console_row_drawn`: the row that is edited is drawn, as long as no key moves the cursor
  down from the last line of the window.
-/

namespace FreeJ

open Function (update)
open Links Transition

/-- `TextConsole`, its rows, and which rows exist. -/
structure TextConsole (E : Type*) where
  rows : Heap E Unit
  /-- `Row`, the fields that are no list links -/
  row : E → Row
  /-- The rows that are allocated. -/
  live : E → Bool
  /-- The deleted rows of which a field was read. -/
  stale : List E
  w : ℤ
  h : ℤ
  cur_x : ℤ
  cur_y : ℤ
  cur_row : Option E
  vis_row_in : Option E

/-- What a call of `feed` is given. -/
structure Fed (E : Type*) where
  key : ℤ
  /-- The address that `new Row` returns. -/
  r : E
  /-- What an enlarged buffer holds behind the old one. -/
  memory : ℤ → CHAR
  /-- What is left where a row was deleted. -/
  trash : Row

namespace TextConsole

/-- The branches of the `switch` of `feed`. -/
inductive Label
  | newline
  | ctrl_l
  | backspace
  | tab
  | left
  | right
  | up
  | down
  | default
  deriving DecidableEq

/-- The branch that a key leads to. -/
def label (key : ℤ) : Label :=
  if key = KEY_NEWLINE ∨ key = KEY_ENTER then .newline
  else if key = KEY_CTRL_L then .ctrl_l
  else if key = KEY_BACKSPACE_ASCII ∨ key = KEY_BACKSPACE ∨ key = KEY_BACKSPACE_APPLE ∨
      key = KEY_BACKSPACE_SOMETIMES then .backspace
  else if key = KEY_TAB then .tab
  else if key = KEY_LEFT then .left
  else if key = KEY_RIGHT then .right
  else if key = KEY_UP then .up
  else if key = KEY_DOWN then .down
  else .default

variable {E : Type*}

/-! ### Drawing -/

/-- Read fields of the rows `es`. -/
def reads (s : TextConsole E) (es : List E) : TextConsole E :=
  { s with stale := es.filter (fun e => !s.live e) ++ s.stale }

/-- `refresh`, the loop: the rows visited from `r` on. -/
def visit (next : E → Option E) : ℕ → Option E → List E
  | 0, _ => []
  | _ + 1, none => []
  | k + 1, some r => r :: visit next k (next r)

/-- The rows that `refresh` draws, that on line 0 first. -/
def drawn (s : TextConsole E) : List E := visit s.rows.next s.h.toNat s.vis_row_in

/-- `refresh` -/
def refresh (s : TextConsole E) : TextConsole E := s.reads s.drawn

section Feed

variable [DecidableEq E]

/-- `refresh_current`, the loop: the rows visited from `r` on. -/
def visitCurrent (next : E → Option E) (cur_row : Option E) : ℕ → Option E → List E
  | 0, _ => []
  | _ + 1, none => []
  | k + 1, some r =>
    if some r = cur_row then [r] else r :: visitCurrent next cur_row k (next r)

/-- `refresh_current` -/
def refresh_current (s : TextConsole E) : TextConsole E :=
  s.reads (visitCurrent s.rows.next s.cur_row s.h.toNat s.vis_row_in)

/-! ### Rows -/

/-- `new Row` -/
def newRow (s : TextConsole E) (r : E) : TextConsole E :=
  { s with
    rows := Entry.construct s.rows r
    row := update s.row r Row.new
    live := update s.live r true }

/-- `TextConsole::TextConsole`, and the settings of `SLW_Text::init`. -/
def start (cur_row : E) (memory : E → Row) (w h : ℤ) : TextConsole E where
  rows := Linklist.append (Entry.construct Heap.fresh cur_row) () cur_row
  row := update memory cur_row Row.new
  live := update (fun _ => false) cur_row true
  stale := []
  w := w
  h := h
  cur_x := 0
  cur_y := 0
  cur_row := some cur_row
  vis_row_in := some cur_row

/-- `r->rem(); delete r;` -/
def deleteRow (s : TextConsole E) (r : E) (trash : Row) : TextConsole E :=
  { s.reads [r] with
    rows := Entry.rem (Entry.rem s.rows r) r -- the destructor of Entry removes it again
    row := update s.row r trash
    live := update s.live r false }

/-- `move_string` -/
def move_string (s : TextConsole E) (memory : ℤ → CHAR) (dest src : E) (len : ℤ) :
    TextConsole E :=
  let text := fun i => (s.row src).text.cell ((s.row src).pos + i)
  let dlen := ((s.row dest).insert_string memory text len).1
  let row := update s.row dest ((s.row dest).insert_string memory text len).2
  { s.reads [dest, src] with row := update row src ((row src).delete_string dlen).2 }

/-! ### The keys -/

/-- `feed`, KEY_NEWLINE: move what is right of the cursor to the new row. -/
def split (s : TextConsole E) (memory : ℤ → CHAR) (r cur : E) : TextConsole E :=
  if (s.row cur).pos < (s.row cur).len then
    s.move_string memory r cur ((s.row cur).len - (s.row cur).pos)
  else s

/-- `feed`, KEY_NEWLINE: one line down. -/
def advance (s : TextConsole E) : Option (TextConsole E) :=
  if s.cur_y + 1 > s.h then -- scrolling
    s.vis_row_in.map fun v =>
      { s.reads [v] with
        vis_row_in := s.rows.next v
        cur_y := s.h }
  else some { s with cur_y := s.cur_y + 1 }

/-- `feed`, KEY_NEWLINE -/
def newline (s : TextConsole E) (r : E) (memory : ℤ → CHAR) : Option (TextConsole E) :=
  s.cur_row.bind fun cur =>
    let s := (s.reads [cur]).newRow r
    let s := { s with rows := Linklist.insert_after s.rows () r cur }
    (s.split memory r cur).advance.map fun s =>
      { s with cur_row := some r, cur_x := 0 }.refresh

/-- `feed`, KEY_BACKSPACE at the beginning of a row, under the row `r`. -/
def join (s : TextConsole E) (r cur : E) (memory : ℤ → CHAR) (trash : Row) : TextConsole E :=
  let s := s.reads [r]
  if (s.row r).len < 1 then -- upper row is empty, just delete it
    { s.deleteRow r trash with cur_y := s.cur_y - 1 }
  else -- upper row is not empty, append to end
    let s := { s with row := update s.row r { s.row r with pos := (s.row r).len } }
    let s := s.move_string memory r cur (s.row cur).len
    { s.deleteRow cur trash with
      cur_y := s.cur_y - 1
      cur_row := some r }

/-- `feed`, KEY_BACKSPACE: `if(cur_y <1)`, we are up in the screen. -/
def settle (s : TextConsole E) : TextConsole E :=
  if s.cur_y < 1 then { s with vis_row_in := s.cur_row, cur_y := 0 }.refresh else s.refresh

/-- `feed`, KEY_BACKSPACE at the beginning of a row, under the row `r`: and the cursor. -/
def joinUp (s : TextConsole E) (r cur : E) (memory : ℤ → CHAR) (trash : Row) :
    TextConsole E :=
  let s := (s.join r cur memory trash).settle
  { s.reads [r] with cur_x := (s.row r).pos }

/-- `feed`, KEY_BACKSPACE -/
def backspace (s : TextConsole E) (memory : ℤ → CHAR) (trash : Row) :
    Option (TextConsole E) :=
  s.cur_row.map fun cur =>
    let s := s.reads [cur]
    let s := { s with row := update s.row cur (s.row cur).backspace.2 }
    if s.cur_x > 0 then { s with cur_x := s.cur_x - 1 }.refresh_current
    else match s.rows.prev cur with -- backspace at the beginning of a row
      | none => s
      | some r => s.joinUp r cur memory trash -- there is an upper row

/-- `feed`, KEY_TAB -/
def tab (s : TextConsole E) : TextConsole E :=
  let cur_x := if s.cur_x < s.w then s.cur_x + 8 else s.cur_x
  { s with cur_x := if cur_x > s.w then s.w else cur_x }

/-- `feed`, KEY_LEFT -/
def left (s : TextConsole E) : Option (TextConsole E) :=
  if s.cur_x ≤ 0 then some s
  else s.cur_row.map fun cur =>
    { s.reads [cur] with
      cur_x := s.cur_x - 1
      row := update s.row cur { s.row cur with pos := (s.row cur).pos - 1 } }

/-- `feed`, KEY_RIGHT -/
def right (s : TextConsole E) : Option (TextConsole E) :=
  if s.cur_x ≥ s.w then some s
  else s.cur_row.map fun cur =>
    if (s.row cur).pos ≥ (s.row cur).len then s.reads [cur]
    else
      { s.reads [cur] with
        cur_x := s.cur_x + 1
        row := update s.row cur { s.row cur with pos := (s.row cur).pos + 1 } }

/-- `feed`, KEY_UP and KEY_DOWN: cursor positioning in the row gone to. -/
def place (s : TextConsole E) (r : E) : TextConsole E :=
  let x := if s.cur_x > (s.row r).len then (s.row r).len else s.cur_x
  { s.reads [r] with
    cur_row := some r
    cur_x := x
    row := update s.row r { s.row r with pos := x } }

/-- `feed`, KEY_UP -/
def up (s : TextConsole E) : Option (TextConsole E) :=
  s.cur_row.bind fun cur =>
    if s.cur_y > 0 then
      (s.rows.prev cur).map fun r => { s.reads [cur] with cur_y := s.cur_y - 1 }.place r
    else match s.rows.prev cur with -- scroll
      | none => some (s.reads [cur])
      | some r => some { s.reads [cur] with vis_row_in := some r, cur_row := some r }.refresh

/-- `feed`, KEY_DOWN -/
def down (s : TextConsole E) : Option (TextConsole E) :=
  s.cur_row.bind fun cur =>
    match s.rows.next cur with
    | none => some (s.reads [cur])
    | some r =>
      if s.cur_y < s.h then some ({ s.reads [cur] with cur_y := s.cur_y + 1 }.place r)
      else -- scroll down the pointer to upper row
        s.vis_row_in.map fun v =>
          { s.reads [cur, v] with cur_row := some r, vis_row_in := s.rows.next v }.refresh

/-- `feed`, insert a new char. -/
def insert (s : TextConsole E) (key : ℤ) (memory : ℤ → CHAR) : Option (TextConsole E) :=
  if s.cur_x < s.w then -- fits in widget width
    s.cur_row.map fun cur =>
      let s := s.reads [cur]
      let s := { s with row := update s.row cur ((s.row cur).insert_char memory (charOf key)).2 }
      { s.refresh_current with cur_x := s.cur_x + 1 }
  else some s -- wrap to next line is left to do

/-- `feed` -/
def feed (s : TextConsole E) (a : Fed E) : Option (TextConsole E) :=
  match label a.key with
  | .newline => s.newline a.r a.memory
  | .ctrl_l => some s.refresh
  | .backspace => s.backspace a.memory a.trash
  | .tab => some s.tab
  | .left => s.left
  | .right => s.right
  | .up => s.up
  | .down => s.down
  | .default => s.insert a.key a.memory

end Feed

/-! ### The layout of the rows -/

section Layout

variable {s t : TextConsole E} {as bs ys : List E} {e r : E} {memory : ℤ → CHAR}

/-- Reading fields of rows that are allocated. -/
theorem reads_live {es : List E} (h : ∀ x ∈ es, s.live x = true) : s.reads es = s := by
  have hnil : es.filter (fun e => !s.live e) = [] := by
    rw [List.filter_eq_nil_iff]
    intro x hx
    simp [h x hx]
  rw [reads, hnil, List.nil_append]

/-- The rows `as` above the window, the rows `bs` in it above `cur_row`, which is `e`, and the
rows `ys` below. -/
structure Framed (s : TextConsole E) (as bs : List E) (e : E) (ys : List E) : Prop where
  shape : Shape s.rows fun _ => as ++ bs ++ e :: ys
  cur_row : s.cur_row = some e
  vis_row_in : s.vis_row_in = (bs ++ [e]).head?
  live : ∀ x ∈ as ++ bs ++ e :: ys, s.live x = true

theorem Framed.next (hf : s.Framed as bs e ys) : s.rows.next e = ys.head? :=
  (hf.shape.strand ()).links.1

theorem Framed.prev (hf : s.Framed as bs e ys) : s.rows.prev e = (as ++ bs).getLast? :=
  (hf.shape.strand ()).links.2

/-- The links of the first row of the window. -/
theorem Framed.links_vis (hf : s.Framed as bs e ys) {v : E} {cs : List E}
    (hv : bs ++ [e] = v :: cs) :
    s.rows.next v = (cs ++ ys).head? ∧ s.rows.prev v = as.getLast? := by
  have happ : as ++ bs ++ e :: ys = as ++ v :: (cs ++ ys) := by
    rw [List.append_assoc, List.append_cons bs, hv, List.cons_append]
  have hst : Strand s.rows () (as ++ v :: (cs ++ ys)) := happ ▸ hf.shape.strand ()
  exact hst.links

/-- What follows the first row of the window. -/
theorem Framed.next_vis (hf : s.Framed as bs e ys) {v : E} {cs : List E}
    (hv : bs ++ [e] = v :: cs) : s.rows.next v = (cs ++ ys).head? := (hf.links_vis hv).1

/-- What precedes the first row of the window. -/
theorem Framed.prev_vis (hf : s.Framed as bs e ys) {v : E} {cs : List E}
    (hv : bs ++ [e] = v :: cs) : s.rows.prev v = as.getLast? := (hf.links_vis hv).2

/-- There is a first row in the window, and it is allocated. -/
theorem Framed.exists_vis (hf : s.Framed as bs e ys) :
    ∃ v cs, bs ++ [e] = v :: cs ∧ s.vis_row_in = some v ∧ cs.length = bs.length ∧
      s.live v = true := by
  have hlive := hf.live
  cases bs with
  | nil => exact ⟨e, [], rfl, hf.vis_row_in, rfl, hlive e (by simp)⟩
  | cons b bs => exact ⟨b, bs ++ [e], rfl, hf.vis_row_in, by simp, hlive b (by simp)⟩

/-- From the first row of the window on, the links lead through the rows in it and below. -/
theorem Framed.walk_vis (hf : s.Framed as bs e ys) :
    Walk s.rows.next s.vis_row_in (bs ++ e :: ys) := by
  have hw := (hf.shape.strand ()).walk_next
  rw [List.append_assoc] at hw
  have hhead : (bs ++ e :: ys).head? = s.vis_row_in := by
    rw [hf.vis_row_in]
    cases bs <;> rfl
  exact hhead ▸ hw.drop_append

/-- From the first row of the window to `cur_row` there are as many links as rows above it. -/
theorem Framed.follow_vis (hf : s.Framed as bs e ys) :
    follow s.rows.next bs.length s.vis_row_in = some (some e) := by
  rw [hf.walk_vis.follow_eq (by rw [List.length_append]; omega),
    List.getElem?_append_right (Nat.le_refl _), Nat.sub_self]
  rfl

/-- Along a walk, the rows visited are the first ones. -/
theorem visit_eq {next : E → Option E} {p : Option E} {xs : List E} (h : Walk next p xs)
    (k : ℕ) : visit next k p = xs.take k := by
  induction k generalizing p xs with
  | zero => simp [visit]
  | succ k ih =>
      cases xs with
      | nil =>
          obtain rfl : p = none := h
          simp [visit]
      | cons x xs =>
          rw [h.1, visit, ih h.2, List.take_succ_cons]

/-- The rows drawn are those from the first of the window on, as many as fit. -/
theorem Framed.drawn (hf : s.Framed as bs e ys) :
    s.drawn = (bs ++ e :: ys).take s.h.toNat := visit_eq hf.walk_vis _

/-- `refresh` reads rows of the list. -/
theorem Framed.refresh (hf : s.Framed as bs e ys) : s.refresh = s := by
  refine reads_live fun x hx => hf.live x ?_
  rw [hf.drawn] at hx
  rw [List.append_assoc]
  exact List.mem_append_right _ (List.mem_of_mem_take hx)

/-- The layout together with the line of the cursor, which is in the window or one below. -/
structure Laid (s : TextConsole E) (as bs : List E) (e : E) (ys : List E) : Prop
    extends s.Framed as bs e ys where
  cur_y : s.cur_y = bs.length
  cur_y_le : s.cur_y ≤ s.h

/-- From `s` to `t` the console keeps its geometry, and then has the given layout, fields of
rows, and column of the cursor. -/
structure Leads (s t : TextConsole E) (as bs : List E) (e : E) (ys : List E) (row : E → Row)
    (x : ℤ) : Prop extends t.Laid as bs e ys where
  w : t.w = s.w
  h : t.h = s.h
  row : t.row = row
  cur_x : t.cur_x = x

/-- What stands at the end of two lists stands at the end of the second. -/
theorem snoc_of_append {us : List E} {p : E} (hp : as ++ bs = us ++ [p]) (hbs : bs ≠ []) :
    ∃ ws, bs = ws ++ [p] ∧ as ++ ws = us := by
  obtain ⟨ws, q, rfl⟩ := bs.eq_nil_or_concat.resolve_left hbs
  rw [List.concat_eq_append] at hp
  rw [← List.append_assoc] at hp
  obtain ⟨hus, hq⟩ := List.append_inj' hp rfl
  obtain rfl : q = p := by simpa using hq
  exact ⟨ws, List.concat_eq_append, hus⟩

theorem Framed.live_cur (hf : s.Framed as bs e ys) : s.live e = true := hf.live e (by simp)

/-- An address that is not allocated is none of the rows. -/
theorem Framed.notMem (hf : s.Framed as bs e ys) (hr : s.live r = false) :
    r ∉ as ++ bs ++ e :: ys := by
  intro hmem
  rw [hf.live r hmem] at hr
  exact absurd hr (by simp)

/-- With a new row allocated, it and the others are. -/
theorem Framed.live_update [DecidableEq E] (hf : s.Framed as bs e ys) {x : E}
    (hx : x = r ∨ x ∈ as ++ bs ++ e :: ys) : update s.live r true x = true := by
  by_cases hxr : x = r
  · rw [hxr, Function.update_self]
  · rw [Function.update_of_ne hxr]
    exact hf.live x (hx.resolve_left hxr)

/-- The rows of a list are different. -/
theorem Framed.apart (hf : s.Framed as bs e ys) : e ∉ as ++ bs ∧ e ∉ ys := by
  have hnd := (List.nodup_middle.mp (hf.shape.nodup ())).notMem
  rw [List.mem_append, not_or] at hnd
  exact hnd

/-- `cur_row` is the last row if and only if there are none below it. -/
theorem Framed.newest_iff (hf : s.Framed as bs e ys) :
    (as ++ bs ++ e :: ys).getLast? = some e ↔ ys = [] := by
  rcases ys.eq_nil_or_concat with rfl | ⟨zs, z, rfl⟩
  · simp
  · rw [List.concat_eq_append] at hf ⊢
    have hne : z ≠ e := by
      rintro rfl
      exact hf.apart.2 (by simp)
    have happ : as ++ bs ++ e :: (zs ++ [z]) = (as ++ bs ++ e :: zs) ++ [z] := by simp
    rw [happ, List.getLast?_append_cons, List.getLast?_singleton]
    simp [hne]

/-- The same rows, framed otherwise. -/
theorem Framed.reframe {as' bs' ys' : List E} {e' : E} (hf : s.Framed as bs e ys)
    (hrows : t.rows = s.rows) (hlive : t.live = s.live)
    (hsame : as ++ bs ++ e :: ys = as' ++ bs' ++ e' :: ys') (hcur : t.cur_row = some e')
    (hvis : t.vis_row_in = (bs' ++ [e']).head?) : t.Framed as' bs' e' ys' where
  shape := by
    rw [hrows, ← hsame]
    exact hf.shape
  cur_row := hcur
  vis_row_in := hvis
  live x hx := by
    rw [hlive]
    exact hf.live x (hsame ▸ hx)

/-- One row down in the same window. -/
theorem Framed.goDown (hf : s.Framed as bs e (r :: ys)) (hrows : t.rows = s.rows)
    (hlive : t.live = s.live) (hcur : t.cur_row = some r)
    (hvis : t.vis_row_in = s.vis_row_in) : t.Framed as (bs ++ [e]) r ys := by
  refine hf.reframe hrows hlive (by simp) hcur ?_
  rw [hvis, hf.vis_row_in]
  cases bs <;> rfl

/-- One row down, and the window with it. -/
theorem Framed.scrollDown {v : E} {cs : List E} (hf : s.Framed as bs e (r :: ys))
    (hv : bs ++ [e] = v :: cs) (hrows : t.rows = s.rows) (hlive : t.live = s.live)
    (hcur : t.cur_row = some r) (hvis : t.vis_row_in = s.rows.next v) :
    t.Framed (as ++ [v]) cs r ys := by
  have hsame : as ++ bs ++ e :: r :: ys = as ++ [v] ++ cs ++ r :: ys := by
    rw [List.append_assoc, List.append_cons bs, hv]
    simp
  refine hf.reframe hrows hlive hsame hcur ?_
  rw [hvis, hf.next_vis hv]
  cases cs <;> rfl

/-- One row up in the same window. -/
theorem Framed.goUp {p : E} (hf : s.Framed as (bs ++ [p]) e ys) (hrows : t.rows = s.rows)
    (hlive : t.live = s.live) (hcur : t.cur_row = some p)
    (hvis : t.vis_row_in = s.vis_row_in) : t.Framed as bs p (e :: ys) := by
  refine hf.reframe hrows hlive (by simp) hcur ?_
  rw [hvis, hf.vis_row_in]
  cases bs <;> rfl

/-- One row up from the first of the window, which follows. -/
theorem Framed.scrollUp {p : E} (hf : s.Framed (as ++ [p]) [] e ys) (hrows : t.rows = s.rows)
    (hlive : t.live = s.live) (hcur : t.cur_row = some p) (hvis : t.vis_row_in = some p) :
    t.Framed as [] p (e :: ys) :=
  hf.reframe hrows hlive (by simp) hcur hvis

/-- The same rows, in the same window. -/
theorem Framed.congr (hf : s.Framed as bs e ys) (hrows : t.rows = s.rows)
    (hlive : t.live = s.live) (hcur : t.cur_row = s.cur_row)
    (hvis : t.vis_row_in = s.vis_row_in) : t.Framed as bs e ys :=
  ⟨hrows ▸ hf.shape, hcur.trans hf.cur_row, hvis.trans hf.vis_row_in, hlive ▸ hf.live⟩

@[simp] theorem settle_row (s : TextConsole E) : s.settle.row = s.row := by
  rw [settle]
  split <;> rfl

@[simp] theorem settle_w (s : TextConsole E) : s.settle.w = s.w := by
  rw [settle]
  split <;> rfl

@[simp] theorem settle_h (s : TextConsole E) : s.settle.h = s.h := by
  rw [settle]
  split <;> rfl

/-- After a row was deleted the window starts where it did, unless the cursor has come to its
first line; then it starts there. -/
theorem settle_laid (us ys : List E) {c : E} (hshape : Shape s.rows fun _ => us ++ c :: ys)
    (hcur : s.cur_row = some c) (hlive : ∀ x ∈ us ++ c :: ys, s.live x = true)
    (hle : s.cur_y ≤ s.h) (hh : 0 ≤ s.h)
    (hvis : 1 ≤ s.cur_y → ∃ as bs, as ++ bs = us ∧ s.cur_y = bs.length ∧
      s.vis_row_in = (bs ++ [c]).head?) :
    ∃ as' bs', as' ++ bs' = us ∧ s.settle.Laid as' bs' c ys ∧ s.settle.cur_y = max s.cur_y 0 ∧
      s.settle.stale = s.stale ∧ s.settle.live = s.live := by
  by_cases hup : s.cur_y < 1
  · have hf : { s with vis_row_in := s.cur_row, cur_y := 0 }.Framed us [] c ys := by
      refine ⟨?_, hcur, hcur, ?_⟩
      · rw [List.append_nil]
        exact hshape
      · rw [List.append_nil]
        exact hlive
    have hsettle : s.settle = { s with vis_row_in := s.cur_row, cur_y := 0 } := by
      rw [settle, if_pos hup, hf.refresh]
    rw [hsettle]
    refine ⟨us, [], by simp, ⟨hf, rfl, hh⟩, ?_, rfl, rfl⟩
    change 0 = max s.cur_y 0
    omega
  · obtain ⟨as, bs, rfl, hy, hv⟩ := hvis (by omega)
    have hf : s.Framed as bs c ys := ⟨hshape, hcur, hv, hlive⟩
    have hsettle : s.settle = s := by
      rw [settle, if_neg hup, hf.refresh]
    rw [hsettle]
    exact ⟨as, bs, rfl, ⟨hf, hy, hle⟩, by omega, rfl, rfl⟩

section Feed

variable [DecidableEq E]

/-- `refresh_current` visits rows that `refresh` visits. -/
theorem visitCurrent_subset {next : E → Option E} {cur_row p : Option E} {k : ℕ} :
    visitCurrent next cur_row k p ⊆ visit next k p := by
  induction k generalizing p with
  | zero => exact List.Subset.refl _
  | succ k ih =>
      cases p with
      | none => exact List.Subset.refl _
      | some r =>
          rw [visitCurrent, visit]
          split
          · simp
          · exact List.cons_subset_cons r ih

/-- `refresh_current` comes to the row that is edited. -/
theorem visitCurrent_eq {next : E → Option E} {p : Option E} {k : ℕ}
    (h : Walk next p (bs ++ e :: ys)) (he : e ∉ bs) (hk : bs.length < k) :
    visitCurrent next (some e) k p = bs ++ [e] := by
  induction bs generalizing p k with
  | nil =>
      obtain ⟨k, rfl⟩ : ∃ k', k = k' + 1 := ⟨k - 1, by omega⟩
      rw [h.1, visitCurrent, if_pos rfl]
      rfl
  | cons b bs ih =>
      obtain ⟨k, rfl⟩ : ∃ k', k = k' + 1 := ⟨k - 1, by omega⟩
      have hbe : e ≠ b := fun heq => he (by simp [heq])
      have hebs : e ∉ bs := fun hmem => he (List.mem_cons_of_mem _ hmem)
      have hlt : bs.length < k := by simpa using hk
      rw [h.1, visitCurrent, if_neg fun heq => hbe (Option.some.inj heq).symm,
        ih h.2 hebs hlt]
      rfl

/-- `refresh_current` reads rows of the list. -/
theorem Framed.refresh_current (hf : s.Framed as bs e ys) : s.refresh_current = s := by
  refine reads_live fun x hx => hf.live x ?_
  have hmem : x ∈ s.drawn := visitCurrent_subset hx
  rw [hf.drawn] at hmem
  rw [List.append_assoc]
  exact List.mem_append_right _ (List.mem_of_mem_take hmem)

/-! ### What the keys do to the layout -/

/-- The console starts with one row. -/
theorem start_laid (e : E) (mem : E → Row) (w : ℤ) {h : ℤ} (hh : 1 ≤ h) :
    (start e mem w h).Laid [] [] e [] where
  shape := by
    have hs := ((Shape.fresh (E := E) (L := Unit)).construct
      (e := e) fun _ => List.not_mem_nil).append () e
    have horder : update (fun l : Unit => ([] : List E).erase e) () (([] : List E).erase e ++ [e])
        = fun _ => [] ++ [] ++ [e] := by
      funext l
      simp
    rwa [horder] at hs
  cur_row := rfl
  vis_row_in := rfl
  live x hx := by
    obtain rfl : x = e := by simpa using hx
    simp [start]
  cur_y := rfl
  cur_y_le := by
    change 0 ≤ h
    omega

/-- Moving text between rows that are allocated changes the fields of rows only. -/
theorem move_string_eq {cur : E} (hr : s.live r = true) (hc : s.live cur = true)
    (memory : ℤ → CHAR) (len : ℤ) :
    s.move_string memory r cur len = { s with row := (s.move_string memory r cur len).row } := by
  simp only [move_string]
  rw [reads_live (by simp [hr, hc])]

theorem split_eq {cur : E} (hr : s.live r = true) (hc : s.live cur = true)
    (memory : ℤ → CHAR) :
    s.split memory r cur = { s with row := (s.split memory r cur).row } := by
  simp only [split]
  split
  · exact move_string_eq hr hc memory _
  · rfl

/-- The rows with a new one under the cursor. -/
theorem Framed.insertRow (hf : s.Framed as bs e ys) (hr : s.live r = false) :
    { s.newRow r with rows := Linklist.insert_after (s.newRow r).rows () r e }.Framed
      as bs e (r :: ys) where
  shape := by
    have hrn := hf.notMem hr
    have herase : (as ++ bs ++ e :: ys).erase r = as ++ bs ++ e :: ys :=
      List.erase_of_not_mem hrn
    exact ((hf.shape.construct fun _ => hrn).insert_after (l := ()) herase).one
      (Function.update_self ..)
  cur_row := hf.cur_row
  vis_row_in := hf.vis_row_in
  live x hx := by
    refine hf.live_update ?_
    simp only [List.mem_append, List.mem_cons] at hx ⊢
    tauto

/-- **Newline** puts the new row under the cursor, which goes to it. -/
theorem Laid.newline (hl : s.Laid as bs e ys) (hr : s.live r = false) (memory : ℤ → CHAR) :
    ∃ t as' bs', s.newline r memory = some t ∧ as' ++ bs' = as ++ bs ++ [e] ∧
      s.Leads t as' bs' r ys ((s.newRow r).split memory r e).row 0 ∧
      t.cur_y = min (s.cur_y + 1) s.h ∧ t.stale = s.stale := by
  have hin := hl.insertRow hr
  set u : TextConsole E :=
    { s.newRow r with rows := Linklist.insert_after (s.newRow r).rows () r e } with hu
  have hrow : (u.split memory r e).row = ((s.newRow r).split memory r e).row := by
    simp only [split]
    split <;> rfl
  have hsplit := split_eq (hin.live r (by simp)) hin.live_cur memory
  have hcur : s.newline r memory = (u.split memory r e).advance.map fun s =>
      { s with cur_row := some r, cur_x := 0 }.refresh := by
    have hread : s.reads [e] = s := reads_live (by simp [hl.live_cur])
    simp only [TextConsole.newline, hl.cur_row, Option.bind_some, hread]
    rfl
  have hy := hl.cur_y
  have hle := hl.cur_y_le
  rw [hcur, hsplit, hrow, advance]
  dsimp only
  by_cases hscroll : s.cur_y + 1 > s.h
  · obtain ⟨v, cs, hv, hvis, hlen, hlive⟩ := hin.exists_vis
    let t : TextConsole E :=
      { u with
        row := ((s.newRow r).split memory r e).row
        vis_row_in := u.rows.next v
        cur_y := s.h
        cur_row := some r
        cur_x := 0 }
    have ht : t.Framed (as ++ [v]) cs r ys := hin.scrollDown hv rfl rfl rfl rfl
    refine ⟨t, as ++ [v], cs, ?_, ?_, ⟨⟨ht, ?_, ?_⟩, rfl, rfl, rfl, rfl⟩, ?_, rfl⟩
    · rw [if_pos (show u.cur_y + 1 > u.h from hscroll), hvis, Option.map_some, Option.map_some,
        reads_live (by simp [hlive])]
      exact congrArg some ht.refresh
    · rw [List.append_assoc, List.singleton_append, ← hv, List.append_assoc]
    · change s.h = cs.length
      omega
    · exact Int.le_refl _
    · change s.h = min (s.cur_y + 1) s.h
      omega
  · let t : TextConsole E :=
      { u with
        row := ((s.newRow r).split memory r e).row
        cur_y := s.cur_y + 1
        cur_row := some r
        cur_x := 0 }
    have ht : t.Framed as (bs ++ [e]) r ys := hin.goDown rfl rfl rfl rfl
    refine ⟨t, as, bs ++ [e], ?_, ?_, ⟨⟨ht, ?_, ?_⟩, rfl, rfl, rfl, rfl⟩, ?_, rfl⟩
    · rw [if_neg (show ¬ u.cur_y + 1 > u.h from hscroll), Option.map_some]
      exact congrArg some ht.refresh
    · rw [List.append_assoc]
    · change s.cur_y + 1 = (bs ++ [e]).length
      rw [List.length_append, List.length_singleton]
      push_cast
      omega
    · change s.cur_y + 1 ≤ s.h
      omega
    · change s.cur_y + 1 = min (s.cur_y + 1) s.h
      omega

/-- Deleting a row takes it out of the list. -/
theorem deleteRow_shape {xs zs : List E} {x : E} (hs : Shape s.rows fun _ => xs ++ x :: zs)
    (trash : Row) : Shape (s.deleteRow x trash).rows fun _ => xs ++ zs := by
  have hrem : Shape (Entry.rem s.rows x) fun _ => xs ++ zs :=
    (hs.rem_member (l := ()) rfl).one (Function.update_self ..)
  have hfree : (Entry.rem s.rows x).list x = none := Entry.rem_list_self s.rows x
  have htwice : Entry.rem (Entry.rem s.rows x) x = Entry.rem s.rows x := by
    rw [Entry.rem, hfree]
  change Shape (Entry.rem (Entry.rem s.rows x) x) _
  rw [htwice]
  exact hrem

/-- The other rows stay allocated. -/
theorem deleteRow_live {xs zs : List E} {x : E} (hs : Shape s.rows fun _ => xs ++ x :: zs)
    (hlive : ∀ y ∈ xs ++ x :: zs, s.live y = true) (trash : Row) :
    ∀ y ∈ xs ++ zs, (s.deleteRow x trash).live y = true := by
  intro y hy
  have hx : x ∉ xs ++ zs := (List.nodup_middle.mp (hs.nodup ())).notMem
  have hyx : y ≠ x := fun hyx => hx (hyx ▸ hy)
  change update s.live x false y = true
  rw [Function.update_of_ne hyx]
  refine hlive y ?_
  simp only [List.mem_append, List.mem_cons] at hy ⊢
  tauto

/-- **Backspace** inside a row. -/
theorem Laid.backspace_char (hl : s.Laid as bs e ys) (hx : 0 < s.cur_x) (memory : ℤ → CHAR)
    (trash : Row) :
    ∃ t, s.backspace memory trash = some t ∧
      s.Leads t as bs e ys (update s.row e (s.row e).backspace.2) (s.cur_x - 1) ∧
      t.cur_y = s.cur_y ∧ t.stale = s.stale := by
  let t : TextConsole E :=
    { s with row := update s.row e (s.row e).backspace.2, cur_x := s.cur_x - 1 }
  have ht : t.Framed as bs e ys := hl.congr rfl rfl rfl rfl
  refine ⟨t, ?_, ⟨⟨ht, hl.cur_y, hl.cur_y_le⟩, rfl, rfl, rfl, rfl⟩, rfl, rfl⟩
  rw [backspace, hl.cur_row, Option.map_some, reads_live (by simp [hl.live_cur])]
  dsimp only
  rw [if_pos hx]
  exact congrArg some ht.refresh_current

/-- **Backspace** at the beginning of the first row. -/
theorem Laid.backspace_first (hl : s.Laid as bs e ys) (hx : ¬ 0 < s.cur_x)
    (hp : as ++ bs = []) (memory : ℤ → CHAR) (trash : Row) :
    ∃ t, s.backspace memory trash = some t ∧
      s.Leads t as bs e ys (update s.row e (s.row e).backspace.2) s.cur_x ∧
      t.cur_y = s.cur_y ∧ t.stale = s.stale := by
  let t : TextConsole E := { s with row := update s.row e (s.row e).backspace.2 }
  have ht : t.Framed as bs e ys := hl.congr rfl rfl rfl rfl
  have hprev : s.rows.prev e = none := by
    rw [hl.prev, hp]
    rfl
  refine ⟨t, ?_, ⟨⟨ht, hl.cur_y, hl.cur_y_le⟩, rfl, rfl, rfl, rfl⟩, rfl, rfl⟩
  rw [backspace, hl.cur_row, Option.map_some, reads_live (by simp [hl.live_cur])]
  dsimp only
  rw [if_neg hx, hprev]

/-- Backspace at the beginning of a row under the row `p`: what is left to do is joining the
two. -/
theorem Laid.backspace_eq (hl : s.Laid as bs e ys) (hx : ¬ 0 < s.cur_x) {us : List E} {p : E}
    (hp : as ++ bs = us ++ [p]) (memory : ℤ → CHAR) (trash : Row) :
    s.backspace memory trash =
      some ({ s with row := update s.row e (s.row e).backspace.2 }.joinUp p e memory trash) := by
  have hprev : s.rows.prev e = some p := by
    rw [hl.prev, hp, List.getLast?_append_cons, List.getLast?_singleton]
  refine (congrArg (Option.map _) hl.cur_row).trans ?_
  rw [Option.map_some, reads_live (by simp [hl.live_cur])]
  dsimp only
  rw [if_neg hx, hprev]

omit [DecidableEq E] in
/-- The row above the cursor is another one, and allocated. -/
theorem Laid.above (hl : s.Laid as bs e ys) {us : List E} {p : E} (hp : as ++ bs = us ++ [p]) :
    p ≠ e ∧ s.live p = true := by
  have hmem : p ∈ as ++ bs := by rw [hp]; simp
  have hnd := hl.shape.nodup ()
  rw [List.nodup_append] at hnd
  exact ⟨hnd.2.2 p hmem e (by simp), hl.live p (List.mem_append_left _ hmem)⟩

omit [DecidableEq E] in
/-- A row above the cursor that is not the first of the window: what the window shows from
its first row on does not depend on where the cursor is. -/
theorem Laid.window_up (hl : s.Laid as bs e ys) {us : List E} {p : E}
    (hp : as ++ bs = us ++ [p]) (hge : 1 ≤ s.cur_y - 1) (c : E) :
    ∃ ws, as ++ ws = us ∧ s.cur_y - 1 = ws.length ∧ s.vis_row_in = (ws ++ [c]).head? := by
  have hy := hl.cur_y
  obtain ⟨ws, hws, hus⟩ := snoc_of_append hp (by rintro rfl; simp at hy; omega)
  rw [hws, List.length_append, List.length_singleton] at hy
  push_cast at hy
  refine ⟨ws, hus, by omega, ?_⟩
  rw [hl.vis_row_in, hws]
  cases ws with
  | nil => simp at hy; omega
  | cons w ws => rfl

/-- **Backspace** at the beginning of a row under an empty one, which is deleted. The column
is then read from the deleted row. -/
theorem Laid.backspace_empty (hl : s.Laid as bs e ys) (hx : ¬ 0 < s.cur_x) {us : List E} {p : E}
    (hp : as ++ bs = us ++ [p]) (hlen : (s.row p).len < 1) (memory : ℤ → CHAR) (trash : Row) :
    ∃ t as' bs', s.backspace memory trash = some t ∧ as' ++ bs' = us ∧
      s.Leads t as' bs' e ys (update (update s.row e (s.row e).backspace.2) p trash) trash.pos ∧
      t.cur_y = max (s.cur_y - 1) 0 ∧ t.stale = p :: s.stale := by
  have hy := hl.cur_y
  have hle := hl.cur_y_le
  have horder : as ++ bs ++ e :: ys = us ++ p :: e :: ys := by
    rw [hp, List.append_assoc, List.singleton_append]
  have hshape : Shape s.rows fun _ => us ++ p :: e :: ys := horder ▸ hl.shape
  have halive : ∀ x ∈ us ++ p :: e :: ys, s.live x = true := horder ▸ hl.live
  obtain ⟨hpe, hplive⟩ := hl.above hp
  let u : TextConsole E := { s with row := update s.row e (s.row e).backspace.2 }
  have hread : u.reads [p] = u := reads_live (by simp [u, hplive])
  have hjoin : u.join p e memory trash =
      { u.deleteRow p trash with cur_y := s.cur_y - 1 } := by
    have hup : (u.row p).len < 1 := by
      change (update s.row e (s.row e).backspace.2 p).len < 1
      rwa [Function.update_of_ne hpe]
    rw [join, hread, if_pos hup]
  obtain ⟨as', bs', hus, hlaid, hline, hstale, hlive⟩ := settle_laid us ys
    (s := { u.deleteRow p trash with cur_y := s.cur_y - 1 }) (c := e)
    (deleteRow_shape (s := u) hshape trash) hl.cur_row
    (deleteRow_live (s := u) hshape halive trash)
    (show s.cur_y - 1 ≤ s.h by omega) (show 0 ≤ s.h by omega)
    fun hge => ⟨as, hl.window_up hp hge e⟩
  let t : TextConsole E := { u.deleteRow p trash with cur_y := s.cur_y - 1 }
  let v : TextConsole E := { t.settle.reads [p] with cur_x := (t.settle.row p).pos }
  have hv : s.backspace memory trash = some v := by
    rw [hl.backspace_eq hx hp]
    change some (u.joinUp p e memory trash) = some v
    rw [joinUp, hjoin]
  have hrow : t.settle.row = update (update s.row e (s.row e).backspace.2) p trash :=
    settle_row t
  have hpdead : t.settle.live p = false := by
    rw [hlive]
    exact Function.update_self ..
  have hframed : v.Framed as' bs' e ys := hlaid.congr rfl rfl rfl rfl
  refine ⟨v, as', bs', hv, hus, ⟨⟨hframed, hlaid.cur_y, hlaid.cur_y_le⟩, ?_, ?_, ?_, ?_⟩,
    hline, ?_⟩
  · exact settle_w t
  · exact settle_h t
  · exact hrow
  · change (t.settle.row p).pos = trash.pos
    rw [hrow, Function.update_self]
  · change List.filter (fun x => !t.settle.live x) [p] ++ t.settle.stale = p :: s.stale
    rw [hstale, List.filter_cons_of_pos (by simp [hpdead]), List.filter_nil]
    change p :: (u.reads [p]).stale = p :: s.stale
    rw [hread]

/-- The fields of rows that `join` leaves behind, for an upper row that is not empty. -/
def joinedRow (s : TextConsole E) (p e : E) (memory : ℤ → CHAR) (trash : Row) : E → Row :=
  let s := { s with row := update s.row e (s.row e).backspace.2 }
  let s := { s with row := update s.row p { s.row p with pos := (s.row p).len } }
  update (s.move_string memory p e (s.row e).len).row e trash

/-- **Backspace** at the beginning of a row under one with text: they are joined. -/
theorem Laid.backspace_join (hl : s.Laid as bs e ys) (hx : ¬ 0 < s.cur_x) {us : List E} {p : E}
    (hp : as ++ bs = us ++ [p]) (hlen : ¬ (s.row p).len < 1) (memory : ℤ → CHAR) (trash : Row) :
    ∃ t as' bs', s.backspace memory trash = some t ∧ as' ++ bs' = us ∧
      s.Leads t as' bs' p ys (s.joinedRow p e memory trash)
        (s.joinedRow p e memory trash p).pos ∧
      t.cur_y = max (s.cur_y - 1) 0 ∧ t.stale = s.stale := by
  have hy := hl.cur_y
  have hle := hl.cur_y_le
  have horder : as ++ bs ++ e :: ys = (us ++ [p]) ++ e :: ys := by rw [hp]
  have hshape : Shape s.rows fun _ => (us ++ [p]) ++ e :: ys := horder ▸ hl.shape
  have halive : ∀ x ∈ (us ++ [p]) ++ e :: ys, s.live x = true := horder ▸ hl.live
  obtain ⟨hpe, hplive⟩ := hl.above hp
  let u : TextConsole E := { s with row := update s.row e (s.row e).backspace.2 }
  let w : TextConsole E := { u with row := update u.row p { u.row p with pos := (u.row p).len } }
  let m : TextConsole E := { w with row := (w.move_string memory p e (w.row e).len).row }
  have hread : u.reads [p] = u := reads_live (by simp [u, hplive])
  have hmove : w.move_string memory p e (w.row e).len = m :=
    move_string_eq (s := w) hplive hl.live_cur memory _
  have hjoin : u.join p e memory trash =
      { m.deleteRow e trash with cur_y := s.cur_y - 1, cur_row := some p } := by
    have hup : ¬ (u.row p).len < 1 := by
      change ¬ (update s.row e (s.row e).backspace.2 p).len < 1
      rwa [Function.update_of_ne hpe]
    rw [join, hread, if_neg hup]
    change { (w.move_string memory p e (w.row e).len).deleteRow e trash with
      cur_y := (w.move_string memory p e (w.row e).len).cur_y - 1
      cur_row := some p } = _
    rw [hmove]
  have happ : us ++ [p] ++ ys = us ++ p :: ys := by simp
  let t : TextConsole E :=
    { m.deleteRow e trash with cur_y := s.cur_y - 1, cur_row := some p }
  have hdshape := deleteRow_shape (s := m) hshape trash
  have hdlive := deleteRow_live (s := m) hshape halive trash
  rw [happ] at hdshape hdlive
  obtain ⟨as', bs', hus, hlaid, hline, hstale, hlive⟩ := settle_laid us ys
    (s := t) (c := p) hdshape rfl hdlive
    (show s.cur_y - 1 ≤ s.h by omega) (show 0 ≤ s.h by omega)
    fun hge => ⟨as, hl.window_up hp hge p⟩
  let v : TextConsole E := { t.settle.reads [p] with cur_x := (t.settle.row p).pos }
  have hv : s.backspace memory trash = some v := by
    rw [hl.backspace_eq hx hp]
    change some (u.joinUp p e memory trash) = some v
    rw [joinUp, hjoin]
  have hrow : t.settle.row = s.joinedRow p e memory trash := settle_row t
  have hstill : t.settle.reads [p] = t.settle := by
    refine reads_live fun x hx => ?_
    rw [hlive]
    exact hdlive x (by simp [List.mem_singleton.mp hx])
  have hframed : v.Framed as' bs' p ys := hlaid.congr rfl rfl rfl rfl
  refine ⟨v, as', bs', hv, hus, ⟨⟨hframed, hlaid.cur_y, hlaid.cur_y_le⟩, ?_, ?_, ?_, ?_⟩,
    hline, ?_⟩
  · exact settle_w t
  · exact settle_h t
  · exact hrow
  · change (t.settle.row p).pos = _
    rw [hrow]
  · change (t.settle.reads [p]).stale = s.stale
    rw [hstill, hstale]
    change (m.reads [e]).stale = s.stale
    have hread : m.reads [e] = m := reads_live (by simp [m, w, u, hl.live_cur])
    rw [hread]

omit [DecidableEq E] in
/-- **Tab** moves the cursor on the screen only. -/
theorem Laid.tab (hl : s.Laid as bs e ys) : s.Leads s.tab as bs e ys s.row s.tab.cur_x :=
  ⟨⟨hl.congr rfl rfl rfl rfl, hl.cur_y, hl.cur_y_le⟩, rfl, rfl, rfl, rfl⟩

/-- **Left** -/
theorem Laid.left (hl : s.Laid as bs e ys) (hx : ¬ s.cur_x ≤ 0) :
    ∃ t, s.left = some t ∧
      s.Leads t as bs e ys (update s.row e { s.row e with pos := (s.row e).pos - 1 })
        (s.cur_x - 1) ∧
      t.cur_y = s.cur_y ∧ t.stale = s.stale := by
  let t : TextConsole E :=
    { s with
      cur_x := s.cur_x - 1
      row := update s.row e { s.row e with pos := (s.row e).pos - 1 } }
  have ht : t.Framed as bs e ys := hl.congr rfl rfl rfl rfl
  refine ⟨t, ?_, ⟨⟨ht, hl.cur_y, hl.cur_y_le⟩, rfl, rfl, rfl, rfl⟩, rfl, rfl⟩
  rw [TextConsole.left, if_neg hx]
  refine (congrArg (Option.map _) hl.cur_row).trans ?_
  rw [Option.map_some, reads_live (by simp [hl.live_cur])]

/-- **Right** -/
theorem Laid.right (hl : s.Laid as bs e ys) (hx : ¬ s.cur_x ≥ s.w)
    (hp : ¬ (s.row e).pos ≥ (s.row e).len) :
    ∃ t, s.right = some t ∧
      s.Leads t as bs e ys (update s.row e { s.row e with pos := (s.row e).pos + 1 })
        (s.cur_x + 1) ∧
      t.cur_y = s.cur_y ∧ t.stale = s.stale := by
  let t : TextConsole E :=
    { s with
      cur_x := s.cur_x + 1
      row := update s.row e { s.row e with pos := (s.row e).pos + 1 } }
  have ht : t.Framed as bs e ys := hl.congr rfl rfl rfl rfl
  refine ⟨t, ?_, ⟨⟨ht, hl.cur_y, hl.cur_y_le⟩, rfl, rfl, rfl, rfl⟩, rfl, rfl⟩
  rw [TextConsole.right, if_neg hx]
  refine (congrArg (Option.map _) hl.cur_row).trans ?_
  rw [Option.map_some, if_neg hp, reads_live (by simp [hl.live_cur])]

/-- **Right** at the end of a row. -/
theorem Laid.right_end (hl : s.Laid as bs e ys) (hx : ¬ s.cur_x ≥ s.w)
    (hp : (s.row e).pos ≥ (s.row e).len) : s.right = some s := by
  rw [TextConsole.right, if_neg hx]
  refine (congrArg (Option.map _) hl.cur_row).trans ?_
  rw [Option.map_some, if_pos hp, reads_live (by simp [hl.live_cur])]

/-- **A character** is inserted where the row has its position. -/
theorem Laid.insert (hl : s.Laid as bs e ys) (hx : s.cur_x < s.w) (key : ℤ)
    (memory : ℤ → CHAR) :
    ∃ t, s.insert key memory = some t ∧
      s.Leads t as bs e ys (update s.row e ((s.row e).insert_char memory (charOf key)).2)
        (s.cur_x + 1) ∧
      t.cur_y = s.cur_y ∧ t.stale = s.stale := by
  let u : TextConsole E :=
    { s with row := update s.row e ((s.row e).insert_char memory (charOf key)).2 }
  have hu : u.Framed as bs e ys := hl.congr rfl rfl rfl rfl
  have ht : { u with cur_x := s.cur_x + 1 }.Framed as bs e ys := hu.congr rfl rfl rfl rfl
  refine ⟨_, ?_, ⟨⟨ht, hl.cur_y, hl.cur_y_le⟩, rfl, rfl, rfl, rfl⟩, rfl, rfl⟩
  rw [TextConsole.insert, if_pos hx]
  refine (congrArg (Option.map _) hl.cur_row).trans ?_
  rw [Option.map_some, reads_live (by simp [hl.live_cur])]
  change some { u.refresh_current with cur_x := s.cur_x + 1 } = _
  rw [hu.refresh_current]

/-- The column after going to row `r`. -/
def columnIn (s : TextConsole E) (r : E) : ℤ :=
  if s.cur_x > (s.row r).len then (s.row r).len else s.cur_x

/-- Going to a row that is allocated. -/
theorem place_eq (hr : s.live r = true) :
    s.place r =
      { s with
        cur_row := some r
        cur_x := s.columnIn r
        row := update s.row r { s.row r with pos := s.columnIn r } } := by
  rw [place, reads_live (by simp [hr])]
  rfl

/-- **Up** inside the window. -/
theorem Laid.up {us : List E} {p : E} (hl : s.Laid as bs e ys) (hbs : bs = us ++ [p]) :
    ∃ t, s.up = some t ∧
      s.Leads t as us p (e :: ys) (update s.row p { s.row p with pos := s.columnIn p })
        (s.columnIn p) ∧
      t.cur_y = s.cur_y - 1 ∧ t.stale = s.stale := by
  subst hbs
  have hy := hl.cur_y
  have hle := hl.cur_y_le
  rw [List.length_append, List.length_singleton] at hy
  push_cast at hy
  have hprev : s.rows.prev e = some p := by
    rw [hl.prev, ← List.append_assoc, List.getLast?_append_cons, List.getLast?_singleton]
  have hplive : s.live p = true := hl.live p (by simp)
  let t : TextConsole E :=
    { s with
      cur_y := s.cur_y - 1
      cur_row := some p
      cur_x := s.columnIn p
      row := update s.row p { s.row p with pos := s.columnIn p } }
  have ht : t.Framed as us p (e :: ys) := hl.toFramed.goUp rfl rfl rfl rfl
  refine ⟨t, ?_, ⟨⟨ht, show s.cur_y - 1 = us.length by omega, show s.cur_y - 1 ≤ s.h by omega⟩,
    rfl, rfl, rfl, rfl⟩, rfl, rfl⟩
  refine (congrArg (fun o => Option.bind o _) hl.cur_row).trans ?_
  rw [Option.bind_some, if_pos (by omega), hprev, Option.map_some,
    reads_live (by simp [hl.live_cur])]
  exact congrArg some (place_eq (s := { s with cur_y := s.cur_y - 1 }) hplive)

/-- **Up** from the first row of the window, which scrolls. -/
theorem Laid.up_scroll {us : List E} {p : E} (hl : s.Laid as bs e ys) (hbs : bs = [])
    (has : as = us ++ [p]) :
    ∃ t, s.up = some t ∧ s.Leads t us [] p (e :: ys) s.row s.cur_x ∧
      t.cur_y = s.cur_y ∧ t.stale = s.stale := by
  subst hbs has
  have hy := hl.cur_y
  have hprev : s.rows.prev e = some p := by
    rw [hl.prev, List.append_nil, List.getLast?_append_cons, List.getLast?_singleton]
  let t : TextConsole E := { s with vis_row_in := some p, cur_row := some p }
  have ht : t.Framed us [] p (e :: ys) := hl.toFramed.scrollUp rfl rfl rfl rfl
  refine ⟨t, ?_, ⟨⟨ht, hy, hl.cur_y_le⟩, rfl, rfl, rfl, rfl⟩, rfl, rfl⟩
  refine (congrArg (fun o => Option.bind o _) hl.cur_row).trans ?_
  rw [Option.bind_some, if_neg (by rw [hy]; simp), hprev]
  dsimp only
  rw [reads_live (by simp [hl.live_cur])]
  exact congrArg some ht.refresh

/-- **Up** from the first row of all. -/
theorem Laid.up_first (hl : s.Laid as bs e ys) (hbs : bs = []) (has : as = []) :
    s.up = some s := by
  subst hbs has
  have hy := hl.cur_y
  have hprev : s.rows.prev e = none := hl.prev
  refine (congrArg (fun o => Option.bind o _) hl.cur_row).trans ?_
  rw [Option.bind_some, if_neg (by rw [hy]; simp), hprev]
  dsimp only
  rw [reads_live (by simp [hl.live_cur])]

/-- **Down** inside the window, or to the line below it. -/
theorem Laid.down {q : E} {zs : List E} (hl : s.Laid as bs e ys) (hys : ys = q :: zs)
    (hin : s.cur_y < s.h) :
    ∃ t, s.down = some t ∧
      s.Leads t as (bs ++ [e]) q zs (update s.row q { s.row q with pos := s.columnIn q })
        (s.columnIn q) ∧
      t.cur_y = s.cur_y + 1 ∧ t.stale = s.stale := by
  subst hys
  have hy := hl.cur_y
  have hnext : s.rows.next e = some q := hl.next
  have hqlive : s.live q = true := hl.live q (by simp)
  let t : TextConsole E :=
    { s with
      cur_y := s.cur_y + 1
      cur_row := some q
      cur_x := s.columnIn q
      row := update s.row q { s.row q with pos := s.columnIn q } }
  have ht : t.Framed as (bs ++ [e]) q zs := hl.toFramed.goDown rfl rfl rfl rfl
  have hline : s.cur_y + 1 = (bs ++ [e]).length := by
    rw [List.length_append, List.length_singleton]
    push_cast
    omega
  refine ⟨t, ?_, ⟨⟨ht, hline, show s.cur_y + 1 ≤ s.h by omega⟩, rfl, rfl, rfl, rfl⟩, rfl, rfl⟩
  refine (congrArg (fun o => Option.bind o _) hl.cur_row).trans ?_
  rw [Option.bind_some, hnext]
  dsimp only
  rw [if_pos hin, reads_live (by simp [hl.live_cur])]
  exact congrArg some (place_eq (s := { s with cur_y := s.cur_y + 1 }) hqlive)

/-- **Down** from the line below the window, which scrolls. -/
theorem Laid.down_scroll {q : E} {zs : List E} (hl : s.Laid as bs e ys) (hys : ys = q :: zs)
    (hin : ¬ s.cur_y < s.h) :
    ∃ t v cs, s.down = some t ∧ bs ++ [e] = v :: cs ∧
      s.Leads t (as ++ [v]) cs q zs s.row s.cur_x ∧
      t.cur_y = s.cur_y ∧ t.stale = s.stale := by
  subst hys
  have hy := hl.cur_y
  have hnext : s.rows.next e = some q := hl.next
  obtain ⟨v, cs, hv, hvis, hlen, hvlive⟩ := hl.exists_vis
  let t : TextConsole E := { s with cur_row := some q, vis_row_in := s.rows.next v }
  have ht : t.Framed (as ++ [v]) cs q zs := hl.toFramed.scrollDown hv rfl rfl rfl rfl
  refine ⟨t, v, cs, ?_, hv, ⟨⟨ht, show s.cur_y = cs.length by omega, hl.cur_y_le⟩,
    rfl, rfl, rfl, rfl⟩, rfl, rfl⟩
  refine (congrArg (fun o => Option.bind o _) hl.cur_row).trans ?_
  rw [Option.bind_some, hnext]
  dsimp only
  rw [if_neg hin]
  refine (congrArg (Option.map _) hvis).trans ?_
  rw [Option.map_some, reads_live (by simp [hl.live_cur, hvlive])]
  exact congrArg some ht.refresh

/-- **Down** from the last row of all. -/
theorem Laid.down_last (hl : s.Laid as bs e ys) (hys : ys = []) : s.down = some s := by
  subst hys
  have hnext : s.rows.next e = none := hl.next
  refine (congrArg (fun o => Option.bind o _) hl.cur_row).trans ?_
  rw [Option.bind_some, hnext]
  dsimp only
  rw [reads_live (by simp [hl.live_cur])]

/-! ### Runs -/

/-- The key does not move the cursor down from the last line of the window. -/
def StaysAbove (s : TextConsole E) (a : Fed E) : Prop :=
  match label a.key with
  | .newline => s.cur_y + 1 < s.h
  | .down => s.cur_y + 1 < s.h ∨ s.cur_row.bind s.rows.next = none
  | _ => True

omit [DecidableEq E] in
/-- A step to another layout that takes the cursor no further down. -/
theorem Leads.goesOn {row : E → Row} {x : ℤ} {o : Option (TextConsole E)}
    (hgo : s.Leads t as bs e ys row x) (hline : t.cur_y ≤ s.cur_y) (ht : o = some t) :
    ∃ t as' bs' e' ys', o = some t ∧ t.Laid as' bs' e' ys' ∧ t.w = s.w ∧ t.h = s.h ∧
      (s.cur_y < s.h → (t.cur_y < t.h ↔ True)) := by
  refine ⟨t, as, bs, e, ys, ht, hgo.toLaid, hgo.w, hgo.h, fun hlt => iff_of_true ?_ trivial⟩
  have hh := hgo.h
  omega

omit [DecidableEq E] in
/-- A step that changes nothing. -/
theorem Laid.goesOn {o : Option (TextConsole E)} (hl : s.Laid as bs e ys) (hs : o = some s) :
    ∃ t as' bs' e' ys', o = some t ∧ t.Laid as' bs' e' ys' ∧ t.w = s.w ∧ t.h = s.h ∧
      (s.cur_y < s.h → (t.cur_y < t.h ↔ True)) :=
  ⟨s, as, bs, e, ys, hs, hl, rfl, rfl, fun hlt => iff_of_true hlt trivial⟩

/-- **Every key** follows no null pointer and keeps the layout; and it keeps the cursor in the
window exactly when it does not move it down from the last line. -/
theorem Laid.feed (hl : s.Laid as bs e ys) (a : Fed E) (hr : s.live a.r = false) :
    ∃ t as' bs' e' ys', s.feed a = some t ∧ t.Laid as' bs' e' ys' ∧ t.w = s.w ∧ t.h = s.h ∧
      (s.cur_y < s.h → (t.cur_y < t.h ↔ s.StaysAbove a)) := by
  simp only [TextConsole.feed, StaysAbove]
  cases label a.key with
  | newline =>
      obtain ⟨t, as', bs', ht, -, hgo, hline, -⟩ := hl.newline hr a.memory
      refine ⟨t, as', bs', a.r, ys, ht, hgo.toLaid, hgo.w, hgo.h, fun hlt => ?_⟩
      rw [hline, hgo.h]
      dsimp only
      omega
  | ctrl_l => exact hl.goesOn (congrArg some hl.refresh)
  | backspace =>
      have hy := hl.cur_y
      by_cases hx : 0 < s.cur_x
      · obtain ⟨t, ht, hgo, hline, -⟩ := hl.backspace_char hx a.memory a.trash
        exact hgo.goesOn (Int.le_of_eq hline) ht
      · rcases (as ++ bs).eq_nil_or_concat with hp | ⟨us, p, hp⟩
        · obtain ⟨t, ht, hgo, hline, -⟩ := hl.backspace_first hx hp a.memory a.trash
          exact hgo.goesOn (Int.le_of_eq hline) ht
        · rw [List.concat_eq_append] at hp
          by_cases hlen : (s.row p).len < 1
          · obtain ⟨t, as', bs', ht, -, hgo, hline, -⟩ :=
              hl.backspace_empty hx hp hlen a.memory a.trash
            exact hgo.goesOn (by omega) ht
          · obtain ⟨t, as', bs', ht, -, hgo, hline, -⟩ :=
              hl.backspace_join hx hp hlen a.memory a.trash
            exact hgo.goesOn (by omega) ht
  | tab => exact hl.tab.goesOn (Int.le_refl _) rfl
  | left =>
      by_cases hx : s.cur_x ≤ 0
      · exact hl.goesOn (if_pos hx)
      · obtain ⟨t, ht, hgo, hline, -⟩ := hl.left hx
        exact hgo.goesOn (Int.le_of_eq hline) ht
  | right =>
      by_cases hx : s.cur_x ≥ s.w
      · exact hl.goesOn (if_pos hx)
      · by_cases hp : (s.row e).pos ≥ (s.row e).len
        · exact hl.goesOn (hl.right_end hx hp)
        · obtain ⟨t, ht, hgo, hline, -⟩ := hl.right hx hp
          exact hgo.goesOn (Int.le_of_eq hline) ht
  | up =>
      rcases bs.eq_nil_or_concat with hbs | ⟨us, p, hbs⟩
      · rcases as.eq_nil_or_concat with has | ⟨us, p, has⟩
        · exact hl.goesOn (hl.up_first hbs has)
        · rw [List.concat_eq_append] at has
          obtain ⟨t, ht, hgo, hline, -⟩ := hl.up_scroll hbs has
          exact hgo.goesOn (Int.le_of_eq hline) ht
      · rw [List.concat_eq_append] at hbs
        obtain ⟨t, ht, hgo, hline, -⟩ := hl.up hbs
        exact hgo.goesOn (by omega) ht
  | down =>
      have hnext : s.cur_row.bind s.rows.next = ys.head? := by
        rw [hl.cur_row, Option.bind_some, hl.next]
      rw [hnext]
      rcases hys : ys with _ | ⟨q, zs⟩
      · subst hys
        obtain ⟨t, as', bs', e', ys', ht, hlaid, hw, hh, -⟩ := hl.goesOn (hl.down_last rfl)
        refine ⟨t, as', bs', e', ys', ht, hlaid, hw, hh, fun hlt => ?_⟩
        obtain rfl : s = t := Option.some.inj ((hl.down_last rfl).symm.trans ht)
        exact iff_of_true hlt (Or.inr rfl)
      · by_cases hin : s.cur_y < s.h
        · obtain ⟨t, ht, hgo, hline, -⟩ := hl.down hys hin
          refine ⟨t, as, bs ++ [e], q, zs, ht, hgo.toLaid, hgo.w, hgo.h, fun _ => ?_⟩
          rw [hline, hgo.h]
          simp
        · obtain ⟨t, v, cs, ht, -, hgo, hline, -⟩ := hl.down_scroll hys hin
          exact ⟨t, as ++ [v], cs, q, zs, ht, hgo.toLaid, hgo.w, hgo.h, fun hlt => absurd hlt hin⟩
  | default =>
      by_cases hx : s.cur_x < s.w
      · obtain ⟨t, ht, hgo, hline, -⟩ := hl.insert hx a.key a.memory
        exact hgo.goesOn (Int.le_of_eq hline) ht
      · exact hl.goesOn (if_neg hx)

/-- The runs of a console of `w` columns and `h` lines. -/
def console (E : Type*) [DecidableEq E] (w h : ℤ) : System (TextConsole E) (Fed E) where
  init s := ∃ e mem, s = start e mem w h
  step s a t := s.live a.r = false ∧ s.feed a = some t

/-- In every run the rows keep their layout. -/
theorem console_laid {w h : ℤ} (hh : 1 ≤ h) :
    Invariant (console E w h) fun s => s.h = h ∧ ∃ as bs e ys, s.Laid as bs e ys where
  init := by
    rintro s ⟨e, mem, rfl⟩
    exact ⟨rfl, [], [], e, [], start_laid e mem w hh⟩
  step := by
    rintro s a t ⟨hs, as, bs, e, ys, hl⟩ ⟨hr, ht⟩
    obtain ⟨t', as', bs', e', ys', ht', hlaid, -, hh', -⟩ := hl.feed a hr
    obtain rfl : t = t' := Option.some.inj (ht.symm.trans ht')
    exact ⟨hh'.trans hs, as', bs', e', ys', hlaid⟩

/-- As long as no key moves the cursor down from the last line, it stays in the window. -/
theorem console_above {w h : ℤ} (hh : 1 ≤ h) :
    Invariant ((console E w h).restrict StaysAbove) fun s =>
      s.h = h ∧ s.cur_y < h ∧ ∃ as bs e ys, s.Laid as bs e ys where
  init := by
    rintro s ⟨e, mem, rfl⟩
    refine ⟨rfl, ?_, [], [], e, [], start_laid e mem w hh⟩
    change 0 < h
    omega
  step := by
    rintro s a t ⟨hs, hlt, as, bs, e, ys, hl⟩ ⟨hc, hr, ht⟩
    obtain ⟨t', as', bs', e', ys', ht', hlaid, -, hh', hline⟩ := hl.feed a hr
    obtain rfl : t = t' := Option.some.inj (ht.symm.trans ht')
    refine ⟨hh'.trans hs, ?_, as', bs', e', ys', hlaid⟩
    have hdown := (hline (by omega)).mpr hc
    omega

end Feed

end Layout

end TextConsole

open TextConsole

section Runs

variable {E : Type*} [DecidableEq E] {w h : ℤ} {s : TextConsole E}

/-- **The row that is edited is drawn**, in every run in which no key moves the cursor down
from the last line of the window: it is a row of the list, as far below the first row of the
window as the cursor is on the screen, and `refresh` and `refresh_current` visit it. From such
a state a key keeps the cursor in the window exactly when it does not move it down from the
last line. -/
theorem console_row_drawn (hh : 1 ≤ h)
    (hr : Reachable ((console E w h).restrict StaysAbove) s) :
    ∃ xs v e, Walk s.rows.next (s.rows.first ()) xs ∧ v ∈ xs ∧ e ∈ xs ∧
      s.vis_row_in = some v ∧ s.cur_row = some e ∧
      0 ≤ s.cur_y ∧ s.cur_y < h ∧ follow s.rows.next s.cur_y.toNat (some v) = some (some e) ∧
      s.drawn[s.cur_y.toNat]? = some e ∧
      e ∈ visitCurrent s.rows.next s.cur_row s.h.toNat s.vis_row_in ∧
      ∀ a, s.live a.r = false →
        ∃ t, s.feed a = some t ∧ (t.cur_y < h ↔ s.StaysAbove a) := by
  obtain ⟨hs, hlt, as, bs, e, ys, hl⟩ := (console_above hh).holds hr
  have hy := hl.cur_y
  have hmem : ∀ x ∈ bs ++ [e], x ∈ as ++ bs ++ e :: ys := by
    intro x hx
    simp only [List.mem_append, List.mem_cons] at hx ⊢
    tauto
  have hstrand := hl.shape.strand ()
  obtain ⟨v, cs, hv, hvis, -, -⟩ := hl.exists_vis
  have hwalk : Walk s.rows.next (some v) (bs ++ e :: ys) := hvis ▸ hl.walk_vis
  have hget : (bs ++ e :: ys)[s.cur_y.toNat]? = some e := by
    rw [hy, Int.toNat_natCast, List.getElem?_append_right (Nat.le_refl _), Nat.sub_self]
    rfl
  have hebs : e ∉ bs := by
    have hnd := hl.shape.nodup ()
    rw [List.append_assoc] at hnd
    exact fun hin => List.disjoint_of_nodup_append hnd.of_append_right hin (by simp)
  refine ⟨as ++ bs ++ e :: ys, v, e, hstrand.walk_next, hmem v (by simp [hv]),
    hmem e (by simp), hvis, hl.cur_row, by omega, hlt, ?_, ?_, ?_, ?_⟩
  · rw [hy, Int.toNat_natCast, ← hvis]
    exact hl.follow_vis
  · rw [hl.drawn, List.getElem?_take_of_lt (by omega), hget]
  · rw [hl.cur_row, hvis, visitCurrent_eq hwalk hebs (by omega)]
    simp
  · intro a ha
    obtain ⟨t, -, -, -, -, ht, -, -, hth, hline⟩ := hl.feed a ha
    have hiff := hline (by omega)
    rw [hth, hs] at hiff
    exact ⟨t, ht, hiff⟩

/-- A console of two lines, after one newline. -/
theorem console_row_drawn_newline :
    ∃ s : TextConsole ℕ, ∃ xs v e, Walk s.rows.next (s.rows.first ()) xs ∧ v ∈ xs ∧ e ∈ xs ∧
      s.vis_row_in = some v ∧ s.cur_row = some e ∧
      0 ≤ s.cur_y ∧ s.cur_y < 2 ∧ follow s.rows.next s.cur_y.toNat (some v) = some (some e) ∧
      s.drawn[s.cur_y.toNat]? = some e ∧
      e ∈ visitCurrent s.rows.next s.cur_row s.h.toNat s.vis_row_in ∧
      ∀ a, s.live a.r = false →
        ∃ t, s.feed a = some t ∧ (t.cur_y < 2 ↔ s.StaysAbove a) := by
  have hinit : Reachable ((console ℕ 80 2).restrict StaysAbove)
      (start 0 (fun _ => Row.new) 80 2) := .init ⟨0, fun _ => Row.new, rfl⟩
  have hkeep : (start 0 (fun _ => Row.new) 80 2).StaysAbove
      ⟨KEY_NEWLINE, 1, fun _ => EOL, Row.new⟩ := (by decide : (0 : ℤ) + 1 < 2)
  have hstep := hinit.step ⟨hkeep, rfl, rfl⟩
  exact ⟨_, console_row_drawn (by decide) hstep⟩

/-- **In a window of one line the first newline takes the row that is edited off the
screen.** -/
theorem console_row_hidden :
    ∃ s : TextConsole ℕ, Reachable (console ℕ 80 1) s ∧ s.cur_y = s.h ∧
      s.cur_row = some 1 ∧ s.drawn = [0] := by
  have hinit : Reachable (console ℕ 80 1) (start 0 (fun _ => Row.new) 80 1) :=
    .init ⟨0, fun _ => Row.new, rfl⟩
  have hstep := hinit.step (a := ⟨KEY_NEWLINE, 1, fun _ => EOL, Row.new⟩) ⟨rfl, rfl⟩
  exact ⟨_, hstep, rfl, rfl, rfl⟩

end Runs

end FreeJ
