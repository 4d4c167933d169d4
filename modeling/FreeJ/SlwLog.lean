import FreeJ.TextConsole

/-!
# The Log Window

`SLW_Log`: a list of rows to which messages are appended, shown through the window of a text
console of which it uses the rows, `vis_row_in`, `cur_row` and `cur_y`, but not `feed`. While
`scrolling` is off the window follows the newest row; page up and page down move it.

## Main results

* `SLW_Log.Follows`: the window is full, or else holds all rows, and `cur_row` is its last.
* `log_follows`: the window follows the newest line or stays put.
-/

namespace FreeJ

open Function (update)
open Links Transition TextConsole

/-- `SLW_Log` -/
structure SLW_Log (E : Type*) where
  textconsole : TextConsole E
  scrolling : Bool
  /-- The height of the widget. -/
  h : ℤ

/-- What `refresh` puts on the screen: the rows from line 0 on, each with its color if it has
text, and whether there are marks for more rows below. -/
structure Picture (E : Type*) where
  rows : List (E × Option ℤ)
  marks : Bool

namespace SLW_Log

variable {E : Type*}

/-- `SLW_Log::refresh`, the color of a row. -/
def color (r : Row) : Option ℤ :=
  if r.allocated then
    some (if r.text.cell 1 = 0x57 then 4 -- 'W'
      else if r.text.cell 1 = 0x21 then 2 -- '!'
      else if r.text.cell 1 = 0x2a then 3 -- '*'
      else 1)
  else none

/-- `SLW_Log::refresh`, the loop: the rows drawn from `r` on, and the row at which it ends. -/
def draw (next : E → Option E) : ℕ → E → List E × E
  | 0, r => ([], r)
  | k + 1, r =>
    match next r with
    | none => ([r], r)
    | some r' => (r :: (draw next k r').1, (draw next k r').2)

section Operations

variable [DecidableEq E]

/-- `SLW_Log::refresh` -/
def refresh (s : SLW_Log E) : Option (Picture E) :=
  s.textconsole.vis_row_in.map fun v =>
    let (rows, r) := draw s.textconsole.rows.next s.h.toNat v
    { rows := rows.map fun e => (e, color (s.textconsole.row e))
      marks := s.textconsole.cur_row ≠ some r }

/-- `SLW_Log::SLW_Log` and `SLW_Log::init` -/
def start (cur_row : E) (memory : E → Row) (w h : ℤ) : SLW_Log E where
  textconsole := TextConsole.start cur_row memory w h
  scrolling := false
  h := h

/-- `SLW_Log::append`, the new row at the end of the list. -/
def addRow (s : TextConsole E) (r : E) (memory : ℤ → CHAR) (text : List CHAR) :
    TextConsole E :=
  let s := s.newRow r
  { s with
    row := update s.row r
      ((s.row r).insert_string memory (fun i => text.getD i.toNat EOL) text.length).2
    rows := Linklist.append s.rows () r }

/-- `SLW_Log::append` -/
def append (s : SLW_Log E) (r : E) (memory : ℤ → CHAR) (text : List CHAR) :
    Option (SLW_Log E) :=
  let t := addRow s.textconsole r memory text
  let cur_row := if s.scrolling then t.cur_row else some r
  let cur_y := if t.cur_y < t.h then t.cur_y + 1 else t.cur_y
  if !s.scrolling && decide (cur_y ≥ t.h) then
    t.vis_row_in.map fun v =>
      { s with
        textconsole :=
          { t with cur_row := cur_row, cur_y := cur_y, vis_row_in := t.rows.next v } }
  else some { s with textconsole := { t with cur_row := cur_row, cur_y := cur_y } }

/-- `SLW_Log::feed`, KEY_PAGE_UP -/
def page_up (s : SLW_Log E) : Option (SLW_Log E) :=
  let t := s.textconsole
  t.vis_row_in.bind fun v =>
    match t.rows.prev v with
    | none => some s
    | some p =>
      t.cur_row.map fun cur =>
        { s with
          textconsole := { t with cur_row := t.rows.prev cur, vis_row_in := some p }
          scrolling := true }

/-- `SLW_Log::feed`, KEY_PAGE_DOWN -/
def page_down (s : SLW_Log E) : Option (SLW_Log E) :=
  let t := s.textconsole
  t.cur_row.bind fun cur =>
    match t.rows.next cur with
    | none => some s
    | some n =>
      t.vis_row_in.map fun v =>
        { s with
          textconsole := { t with cur_row := some n, vis_row_in := t.rows.next v }
          scrolling := if (t.rows.next n).isNone then false else s.scrolling }

/-- `SLW_Log::feed` -/
def feed (s : SLW_Log E) (key : ℤ) : Option (Bool × SLW_Log E) :=
  if key = 0 then some (false, s)
  else if key = KEY_PAGE_UP then s.page_up.map fun s => (true, s)
  else if key = KEY_PAGE_DOWN then s.page_down.map fun s => (true, s)
  else some (false, s)

end Operations

/-- What is done to a log: a text is appended, its row at address `r`, or a key is fed. -/
inductive Act (E : Type*)
  | append (r : E) (memory : ℤ → CHAR) (text : List CHAR)
  | key (key : ℤ)

/-- The runs of a log of `w` columns and `h` lines. -/
def system (E : Type*) [DecidableEq E] (w h : ℤ) : System (SLW_Log E) (Act E) where
  init s := ∃ e mem, s = start e mem w h
  step s a t :=
    match a with
    | .append r memory text => s.textconsole.live r = false ∧ s.append r memory text = some t
    | .key key => ∃ res, s.feed key = some (res, t)

/-! ### The window -/

section Window

variable {s t : SLW_Log E} {as bs ys : List E} {e r : E} {h : ℤ}

/-- The window holds the last `h` rows up to `cur_row`, or all rows when there are fewer, and
`cur_row` is the newest unless the log is scrolled. -/
structure Follows (s : SLW_Log E) (h : ℤ) (as bs : List E) (e : E) (ys : List E) : Prop
    extends s.textconsole.Framed as bs e ys where
  h_widget : s.h = h
  h_console : s.textconsole.h = h
  full : (bs.length : ℤ) = min ((as.length : ℤ) + bs.length + 1 + ys.length) h - 1
  cur_y : s.textconsole.cur_y = min ((as.length : ℤ) + bs.length + ys.length) h
  scrolling : s.scrolling = true ↔ ys ≠ []

/-- The window moves up by one row. -/
theorem framed_pageUp {s t : TextConsole E} {us bs' : List E} {p e' : E}
    (hf : s.Framed (us ++ [p]) bs e ys) (hcons : p :: bs = bs' ++ [e'])
    (hrows : t.rows = s.rows) (hlive : t.live = s.live)
    (hcur : t.cur_row = s.rows.prev e) (hvis : t.vis_row_in = some p) :
    t.Framed us bs' e' (e :: ys) := by
  have hsame : us ++ [p] ++ bs ++ e :: ys = us ++ bs' ++ e' :: e :: ys := by
    rw [List.append_assoc us, List.singleton_append, hcons]
    simp
  refine hf.reframe hrows hlive hsame ?_ ?_
  · rw [hcur, hf.prev, List.append_assoc, List.singleton_append, hcons, ← List.append_assoc,
      List.getLast?_append_cons, List.getLast?_singleton]
  · rw [hvis, ← hcons]
    rfl

/-- The rows drawn along a walk are the first ones, and the loop ends at the next if there is
one. -/
theorem draw_eq {next : E → Option E} {xs : List E} (hw : Walk next (some r) (r :: xs))
    (k : ℕ) :
    (draw next k r).1 = (r :: xs).take k ∧
      some (draw next k r).2 = (r :: xs)[min k xs.length]? := by
  induction k generalizing r xs with
  | zero => exact ⟨rfl, by simp [draw]⟩
  | succ k ih =>
      cases xs with
      | nil =>
          have hnone : next r = none := hw.2
          simp [draw, hnone]
      | cons x xs =>
          have hnext : next r = some x := hw.2.1
          have hw' : Walk next (some x) (x :: xs) := hnext ▸ hw.2
          obtain ⟨hrows, hend⟩ := ih hw'
          have hidx : min (k + 1) (x :: xs).length = min k xs.length + 1 := by
            rw [List.length_cons]
            omega
          rw [draw, hnext]
          dsimp only
          rw [hrows, hend, hidx, List.getElem?_cons_succ]
          exact ⟨rfl, rfl⟩

/-- **Page up** moves the window up by one row, unless it starts with the first. -/
theorem Follows.page_up (hs : s.Follows h as bs e ys) :
    ∃ t as' bs' e' ys', s.page_up = some t ∧ t.Follows h as' bs' e' ys' ∧
      (as = [] → t = s) ∧
      (∀ v p, s.textconsole.vis_row_in = some v → s.textconsole.rows.prev v = some p →
        t.textconsole.vis_row_in = some p ∧
          t.textconsole.cur_row = s.textconsole.rows.prev e ∧ t.scrolling = true) := by
  obtain ⟨v, cs, hv, hvis, -, -⟩ := hs.exists_vis
  have hprev := hs.prev_vis hv
  have hfull := hs.full
  have hy := hs.cur_y
  rcases as.eq_nil_or_concat with has | ⟨us, p, has⟩
  · rw [has] at hprev
    refine ⟨s, as, bs, e, ys, ?_, hs, fun _ => rfl, fun v' p hv' hp => ?_⟩
    · simp only [SLW_Log.page_up, hvis, Option.bind_some]
      rw [hprev]
      rfl
    · obtain rfl : v = v' := Option.some.inj (hvis.symm.trans hv')
      rw [hprev] at hp
      simp at hp
  · rw [List.concat_eq_append] at has
    subst has
    rw [List.getLast?_append_cons, List.getLast?_singleton] at hprev
    obtain ⟨bs', e', hcons⟩ := (p :: bs).eq_nil_or_concat.resolve_left (by simp)
    rw [List.concat_eq_append] at hcons
    have hlen := congrArg List.length hcons
    rw [List.length_append, List.length_cons, List.length_singleton] at hlen
    rw [List.length_append, List.length_singleton] at hfull hy
    push_cast at hfull hy
    let t : SLW_Log E :=
      { s with
        textconsole :=
          { s.textconsole with
            cur_row := s.textconsole.rows.prev e
            vis_row_in := some p }
        scrolling := true }
    have ht : t.textconsole.Framed us bs' e' (e :: ys) :=
      framed_pageUp hs.toFramed hcons rfl rfl rfl rfl
    refine ⟨t, us, bs', e', e :: ys, ?_, ⟨ht, hs.h_widget, hs.h_console, ?_, ?_, by simp [t]⟩,
      by simp, fun v' p' hv' hp' => ?_⟩
    · simp only [SLW_Log.page_up, hvis, Option.bind_some, hprev]
      exact congrArg (Option.map _) hs.cur_row
    · rw [List.length_cons]
      push_cast
      omega
    · change s.textconsole.cur_y = _
      rw [List.length_cons]
      push_cast
      omega
    · obtain rfl : v = v' := Option.some.inj (hvis.symm.trans hv')
      exact ⟨hprev.symm.trans hp', rfl, rfl⟩

/-- **Page down** moves the window down by one row, unless it ends with the newest; when it
comes to that, scrolling is off. -/
theorem Follows.page_down (hs : s.Follows h as bs e ys) :
    ∃ t as' bs' e' ys', s.page_down = some t ∧ t.Follows h as' bs' e' ys' ∧
      (ys = [] → t = s) ∧
      (∀ v q, s.textconsole.vis_row_in = some v → s.textconsole.rows.next e = some q →
        t.textconsole.vis_row_in = s.textconsole.rows.next v ∧
          t.textconsole.cur_row = some q ∧
          (t.scrolling = false ↔ s.textconsole.rows.next q = none)) := by
  have hnext := hs.next
  have hfull := hs.full
  have hy := hs.cur_y
  rcases hys : ys with _ | ⟨q, zs⟩
  · rw [hys] at hnext
    refine ⟨s, as, bs, e, [], ?_, hys ▸ hs, fun _ => rfl, fun v' q _ hq => ?_⟩
    · simp only [SLW_Log.page_down, hs.cur_row, Option.bind_some]
      rw [hnext]
      rfl
    · rw [hnext] at hq
      simp at hq
  · subst hys
    obtain ⟨v, cs, hv, hvis, hlen, -⟩ := hs.exists_vis
    rw [List.length_cons] at hfull hy
    push_cast at hfull hy
    have hscroll : s.scrolling = true := hs.scrolling.mpr (by simp)
    let t : SLW_Log E :=
      { s with
        textconsole :=
          { s.textconsole with
            cur_row := some q
            vis_row_in := s.textconsole.rows.next v }
        scrolling := if (s.textconsole.rows.next q).isNone then false else s.scrolling }
    have ht : t.textconsole.Framed (as ++ [v]) cs q zs :=
      hs.toFramed.scrollDown hv rfl rfl rfl rfl
    have hq : s.textconsole.rows.next q = zs.head? := ht.next
    refine ⟨t, as ++ [v], cs, q, zs, ?_, ⟨ht, hs.h_widget, hs.h_console, ?_, ?_, ?_⟩,
      by simp, fun v' q' hv' hq' => ?_⟩
    · simp only [SLW_Log.page_down, hs.cur_row, Option.bind_some]
      rw [hnext]
      exact congrArg (Option.map _) hvis
    · rw [List.length_append, List.length_singleton]
      push_cast
      omega
    · change s.textconsole.cur_y = _
      rw [List.length_append, List.length_singleton]
      push_cast
      omega
    · simp only [t, hq, hscroll]
      cases zs <;> simp
    · obtain rfl : v = v' := Option.some.inj (hvis.symm.trans hv')
      obtain rfl : q = q' := by simpa [hnext] using hq'
      refine ⟨rfl, rfl, ?_⟩
      simp only [t, hq, hscroll]
      cases zs <;> simp

section Operations

variable [DecidableEq E]

/-- A log starts with one row, and that in the window. -/
theorem start_follows (e : E) (mem : E → Row) (w : ℤ) (hh : 1 ≤ h) :
    (start e mem w h).Follows h [] [] e [] where
  toFramed := (start_laid e mem w hh).toFramed
  h_widget := rfl
  h_console := rfl
  full := by
    simp only [List.length_nil]
    omega
  cur_y := by
    change (0 : ℤ) = _
    simp only [List.length_nil]
    omega
  scrolling := by simp [start]

/-- The rows with a new one at the end. -/
theorem addRow_framed {s : TextConsole E} (hf : s.Framed as bs e ys) (hr : s.live r = false)
    (memory : ℤ → CHAR) (text : List CHAR) :
    (addRow s r memory text).Framed as bs e (ys ++ [r]) where
  shape := by
    have hrn := hf.notMem hr
    have hs := (hf.shape.construct fun _ => hrn).append () r
    have hone := hs.one (Function.update_self ..)
    rw [List.erase_of_not_mem hrn, List.append_assoc, List.cons_append] at hone
    exact hone
  cur_row := hf.cur_row
  vis_row_in := hf.vis_row_in
  live x hx := by
    refine hf.live_update ?_
    simp only [List.mem_append, List.mem_cons, List.not_mem_nil, or_false] at hx ⊢
    tauto

/-- **Appending** takes the window to the new row, or leaves it where it is when the log is
scrolled. -/
theorem Follows.append (hs : s.Follows h as bs e ys) (hr : s.textconsole.live r = false)
    (memory : ℤ → CHAR) (text : List CHAR) :
    ∃ t as' bs' e' ys', s.append r memory text = some t ∧ t.Follows h as' bs' e' ys' ∧
      t.scrolling = s.scrolling ∧
      (s.scrolling = true → t.textconsole.vis_row_in = s.textconsole.vis_row_in ∧
        t.textconsole.cur_row = s.textconsole.cur_row) ∧
      (s.scrolling = false → t.textconsole.cur_row = some r) := by
  have hf := addRow_framed hs.toFramed hr memory text
  have hfull := hs.full
  have hy := hs.cur_y
  have hh := hs.h_console
  let u := addRow s.textconsole r memory text
  let cur_y := if u.cur_y < u.h then u.cur_y + 1 else u.cur_y
  have hcur_y : cur_y = min ((as.length : ℤ) + bs.length + ys.length + 1) h := by
    change (if s.textconsole.cur_y < s.textconsole.h then s.textconsole.cur_y + 1
      else s.textconsole.cur_y) = _
    rw [hy, hh]
    split <;> omega
  rcases hscroll : s.scrolling with _ | _
  · have hys : ys = [] := by
      by_contra hne
      rw [hs.scrolling.mpr hne] at hscroll
      exact absurd hscroll (by simp)
    subst hys
    rw [List.nil_append] at hf
    rw [List.length_nil] at hfull hcur_y
    by_cases hroll : cur_y ≥ u.h
    · have hroll' : cur_y ≥ h := hh ▸ hroll
      obtain ⟨v, cs, hv, hvis, hlen, -⟩ := hf.exists_vis
      let t : SLW_Log E :=
        { s with
          textconsole :=
            { u with cur_row := some r, cur_y := cur_y, vis_row_in := u.rows.next v }
          scrolling := false }
      have ht : t.textconsole.Framed (as ++ [v]) cs r [] := hf.scrollDown hv rfl rfl rfl rfl
      refine ⟨t, as ++ [v], cs, r, [], ?_, ⟨ht, hs.h_widget, hh, ?_, ?_, by simp [t]⟩, rfl, by simp,
        fun _ => rfl⟩
      · simp only [SLW_Log.append, hscroll]
        rw [if_pos (by simpa using hroll)]
        exact congrArg (Option.map _) hvis
      · rw [List.length_append, List.length_singleton, List.length_nil]
        push_cast
        omega
      · rw [List.length_append, List.length_singleton, List.length_nil]
        change cur_y = _
        push_cast
        omega
    · have hroll' : ¬ cur_y ≥ h := hh ▸ hroll
      let t : SLW_Log E :=
        { s with textconsole := { u with cur_row := some r, cur_y := cur_y }, scrolling := false }
      have ht : t.textconsole.Framed as (bs ++ [e]) r [] := hf.goDown rfl rfl rfl rfl
      refine ⟨t, as, bs ++ [e], r, [], ?_, ⟨ht, hs.h_widget, hh, ?_, ?_, by simp [t]⟩, rfl, by simp,
        fun _ => rfl⟩
      · simp only [SLW_Log.append, hscroll]
        rw [if_neg (by simpa using hroll)]
        rfl
      · rw [List.length_append, List.length_singleton, List.length_nil]
        push_cast
        omega
      · rw [List.length_append, List.length_singleton, List.length_nil]
        change cur_y = _
        push_cast
        omega
  · have hys : ys ≠ [] := hs.scrolling.mp hscroll
    have hpos := List.length_pos_iff.mpr hys
    let t : SLW_Log E :=
      { s with
        textconsole := { u with cur_row := u.cur_row, cur_y := cur_y }
        scrolling := true }
    have ht : t.textconsole.Framed as bs e (ys ++ [r]) := hf.congr rfl rfl rfl rfl
    refine ⟨t, as, bs, e, ys ++ [r], ?_, ⟨ht, hs.h_widget, hh, ?_, ?_, by simp [t]⟩, rfl,
      fun _ => ⟨rfl, rfl⟩, by simp⟩
    · simp only [SLW_Log.append, hscroll]
      rfl
    · rw [List.length_append, List.length_singleton]
      push_cast
      omega
    · rw [List.length_append, List.length_singleton]
      change cur_y = _
      push_cast
      omega

/-- What `refresh` draws: the rows down to `cur_row`, and the marks when there are more. -/
theorem Follows.refresh (hs : s.Follows h as bs e ys) :
    ∃ p, s.refresh = some p ∧ p.rows.map Prod.fst = bs ++ [e] ∧ p.marks = s.scrolling := by
  obtain ⟨v, cs, hv, hvis, hlen, -⟩ := hs.exists_vis
  have hcons : bs ++ e :: ys = v :: (cs ++ ys) := by
    rw [List.append_cons, hv, List.cons_append]
  have hwalk : Walk s.textconsole.rows.next (some v) (v :: (cs ++ ys)) := by
    rw [← hvis, ← hcons]
    exact hs.walk_vis
  obtain ⟨hrows, hend⟩ := draw_eq hwalk s.h.toNat
  have hfull := hs.full
  have hh := hs.h_widget
  rw [← hcons] at hrows hend
  refine ⟨_, congrArg (Option.map _) hvis, ?_, ?_⟩
  · change List.map Prod.fst (List.map _ (draw _ _ v).1) = _
    have hid : (Prod.fst ∘ fun x => (x, color (s.textconsole.row x))) = id := rfl
    rw [hrows, List.map_map, hid, List.map_id, List.append_cons]
    rcases ys with _ | ⟨y, ys⟩
    · rw [List.append_nil, List.take_of_length_le]
      rw [List.length_append, List.length_singleton]
      simp only [List.length_nil] at hfull
      omega
    · have hlast : s.h.toNat = (bs ++ [e]).length := by
        rw [List.length_append, List.length_singleton]
        rw [List.length_cons] at hfull
        push_cast at hfull
        omega
      rw [hlast, List.take_left]
  · change decide (s.textconsole.cur_row ≠ some (draw _ _ v).2) = s.scrolling
    rw [hend, hs.cur_row]
    rcases hys : ys with _ | ⟨y, zs⟩
    · have hscroll : s.scrolling = false := by
        rcases hsc : s.scrolling with _ | _
        · rfl
        · exact absurd hys (hs.scrolling.mp hsc)
      have hidx : min s.h.toNat (cs ++ []).length = bs.length := by
        rw [hys, List.length_nil] at hfull
        rw [List.append_nil]
        omega
      rw [hidx, List.getElem?_append_right (Nat.le_refl _), Nat.sub_self, hscroll]
      simp
    · have hscroll : s.scrolling = true := hs.scrolling.mpr (by simp [hys])
      have hidx : min s.h.toNat (cs ++ y :: zs).length = bs.length + 1 := by
        rw [hys, List.length_cons] at hfull
        push_cast at hfull
        rw [List.length_append, List.length_cons]
        omega
      have hne : e ≠ y := by
        rintro rfl
        exact hs.toFramed.apart.2 (by simp [hys])
      rw [hidx, List.getElem?_append_right (by omega), Nat.add_sub_cancel_left, hscroll]
      simp [hne]

end Operations

/-! ### Runs -/

/-- In every run the window follows the newest row or is scrolled. -/
theorem system_follows [DecidableEq E] {w : ℤ} (hh : 1 ≤ h) :
    Invariant (system E w h) fun s => ∃ as bs e ys, s.Follows h as bs e ys where
  init := by
    rintro s ⟨e, mem, rfl⟩
    exact ⟨[], [], e, [], start_follows e mem w hh⟩
  step := by
    rintro s a t ⟨as, bs, e, ys, hs⟩ hst
    cases a with
    | append r memory text =>
        obtain ⟨t', as', bs', e', ys', ht', hf, -⟩ := hs.append hst.1 memory text
        obtain rfl : t = t' := Option.some.inj (hst.2.symm.trans ht')
        exact ⟨as', bs', e', ys', hf⟩
    | key key =>
        obtain ⟨res, hfeed⟩ := hst
        simp only [feed] at hfeed
        split at hfeed
        · obtain ⟨-, rfl⟩ := Prod.mk.inj (Option.some.inj hfeed)
          exact ⟨as, bs, e, ys, hs⟩
        · split at hfeed
          · obtain ⟨t', as', bs', e', ys', ht', hf, -⟩ := hs.page_up
            rw [ht'] at hfeed
            obtain ⟨-, rfl⟩ := Prod.mk.inj (Option.some.inj hfeed)
            exact ⟨as', bs', e', ys', hf⟩
          · split at hfeed
            · obtain ⟨t', as', bs', e', ys', ht', hf, -⟩ := hs.page_down
              rw [ht'] at hfeed
              obtain ⟨-, rfl⟩ := Prod.mk.inj (Option.some.inj hfeed)
              exact ⟨as', bs', e', ys', hf⟩
            · obtain ⟨-, rfl⟩ := Prod.mk.inj (Option.some.inj hfeed)
              exact ⟨as, bs, e, ys, hs⟩

end Window

end SLW_Log

open SLW_Log

variable {E : Type*} [DecidableEq E] {w h : ℤ} {s : SLW_Log E}

/-- **The log window follows the newest line or stays put**, in every run. `vis_row_in` and
`cur_row` are rows of the list, and `cur_row` is as far below as the window has lines, or as
there are rows; it is the last row drawn, and the newest unless the log is scrolled. Appending
leaves both rows where they are when the log is scrolled; page up and page down move both by
one row, or change nothing at the ends, and only page down ends scrolling, when it comes to the
newest row. -/
theorem log_follows (hh : 1 ≤ h) (hr : Reachable (system E w h) s) :
    ∃ xs v e, Walk s.textconsole.rows.next (s.textconsole.rows.first ()) xs ∧
      v ∈ xs ∧ e ∈ xs ∧
      s.textconsole.vis_row_in = some v ∧ s.textconsole.cur_row = some e ∧
      follow s.textconsole.rows.next (min (xs.length : ℤ) h - 1).toNat (some v) =
        some (some e) ∧
      (∃ p, s.refresh = some p ∧ (p.rows.map Prod.fst).getLast? = some e ∧
        p.marks = s.scrolling) ∧
      (s.scrolling = false ↔ xs.getLast? = some e) ∧
      (∀ r memory text, s.textconsole.live r = false →
        ∃ t, s.append r memory text = some t ∧ t.scrolling = s.scrolling ∧
          (s.scrolling = true → t.textconsole.vis_row_in = some v ∧
            t.textconsole.cur_row = some e) ∧
          (s.scrolling = false → t.textconsole.cur_row = some r)) ∧
      (∃ t, s.feed KEY_PAGE_UP = some (true, t) ∧
        (s.textconsole.rows.prev v = none → t = s) ∧
        ∀ p, s.textconsole.rows.prev v = some p → t.textconsole.vis_row_in = some p ∧
          t.textconsole.cur_row = s.textconsole.rows.prev e ∧ t.scrolling = true) ∧
      ∃ t, s.feed KEY_PAGE_DOWN = some (true, t) ∧
        (s.textconsole.rows.next e = none → t = s) ∧
        ∀ q, s.textconsole.rows.next e = some q →
          t.textconsole.vis_row_in = s.textconsole.rows.next v ∧
          t.textconsole.cur_row = some q ∧
          (t.scrolling = false ↔ s.textconsole.rows.next q = none) := by
  obtain ⟨as, bs, e, ys, hs⟩ := (system_follows hh).holds hr
  obtain ⟨v, cs, hv, hvis, -, -⟩ := hs.exists_vis
  have hcons : bs ++ e :: ys = v :: (cs ++ ys) := by
    rw [List.append_cons, hv, List.cons_append]
  have hall := (hs.shape.strand ()).walk_next
  have hdist : (min ((as ++ bs ++ e :: ys).length : ℤ) h - 1).toNat = bs.length := by
    have hfull := hs.full
    rw [List.length_append, List.length_append, List.length_cons]
    push_cast
    omega
  have hvmem : v ∈ bs ++ e :: ys := by simp [hcons]
  refine ⟨as ++ bs ++ e :: ys, v, e, hall, ?_, by simp, hvis, hs.cur_row, ?_, ?_, ?_, ?_, ?_, ?_⟩
  · rw [List.append_assoc]
    exact List.mem_append_right _ hvmem
  · rw [hdist, ← hvis]
    exact hs.follow_vis
  · obtain ⟨p, hp, hrows, hmarks⟩ := hs.refresh
    refine ⟨p, hp, ?_, hmarks⟩
    rw [hrows, List.getLast?_append_cons, List.getLast?_singleton]
  · rw [hs.newest_iff, ← not_iff_not, Bool.not_eq_false]
    exact hs.scrolling
  · intro r memory text hr
    obtain ⟨t, -, -, -, -, ht, -, hscroll, hstay, hnew⟩ := hs.append hr memory text
    refine ⟨t, ht, hscroll, fun hsc => ?_, hnew⟩
    exact ⟨(hstay hsc).1.trans hvis, (hstay hsc).2.trans hs.cur_row⟩
  · obtain ⟨t, -, -, -, -, ht, -, hend, hmove⟩ := hs.page_up
    refine ⟨t, ?_, fun hprev => hend ?_, fun p hp => hmove v p hvis hp⟩
    · simp only [SLW_Log.feed, ht]
      rfl
    · rw [hs.prev_vis hv] at hprev
      exact List.getLast?_eq_none_iff.mp hprev
  · obtain ⟨t, -, -, -, -, ht, -, hend, hmove⟩ := hs.page_down
    refine ⟨t, ?_, fun hnext => hend ?_, fun q hq => hmove v q hvis hq⟩
    · simp only [SLW_Log.feed, ht]
      rfl
    · rw [hs.next] at hnext
      exact List.head?_eq_none_iff.mp hnext

/-- A log of one line, after a message and page up. -/
theorem log_follows_scrolled :
    ∃ s : SLW_Log ℕ, s.scrolling = true ∧
      ∃ xs v e, Walk s.textconsole.rows.next (s.textconsole.rows.first ()) xs ∧
        v ∈ xs ∧ e ∈ xs ∧
        s.textconsole.vis_row_in = some v ∧ s.textconsole.cur_row = some e ∧
        follow s.textconsole.rows.next (min (xs.length : ℤ) 1 - 1).toNat (some v) =
          some (some e) ∧
        (∃ p, s.refresh = some p ∧ (p.rows.map Prod.fst).getLast? = some e ∧
          p.marks = s.scrolling) ∧
        (s.scrolling = false ↔ xs.getLast? = some e) := by
  have hinit : Reachable (system ℕ 80 1) (start 0 (fun _ => Row.new) 80 1) :=
    .init ⟨0, fun _ => Row.new, rfl⟩
  have happend := hinit.step (a := Act.append 1 (fun _ => EOL) [charOf 97]) (And.intro rfl rfl)
  have hup := happend.step (a := Act.key KEY_PAGE_UP) (Exists.intro true rfl)
  obtain ⟨xs, v, e, hwalk, hv, he, hvis, hcur, hdist, hdraw, hnewest, -⟩ :=
    log_follows (by decide) hup
  exact ⟨_, rfl, xs, v, e, hwalk, hv, he, hvis, hcur, hdist, hdraw, hnewest⟩

end FreeJ
