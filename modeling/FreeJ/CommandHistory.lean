import FreeJ.LinklistRun
import FreeJ.SlwReadline

/-!
# The History of Commands

`SlwReadline::parser_commandline` saves the commands that are entered in a list of at most 32
entries. How far back the arrows have gone is not a variable of its own, but the selection of that
list: the arrow up selects the last entry if there is no selection, else the previous one. Nothing
takes the selection away again when a command is entered or a new line is started, and the arrow
down begins with a null pointer.

`Typing` is the console together with two things that it does not store: the commands that were
entered, and the position, how far back in them the selection is.

## Main results

* `Keeps.step`: a key or a new line keeps the history the last commands that were entered, and the
  selection at the position.
* `history_shows_iff`: when the arrows show the command that they should.
-/

namespace FreeJ

open Function (update)
open Links SlwReadline Transition

variable {E : Type*}

/-- histsize -/
def HISTSIZE : ℕ := 32

/-! ### Lines with a history -/

/-- The key enters the command. -/
def SlwReadline.Enters (s : SlwReadline E) (key : ℤ) : Prop :=
  (key = SL_KEY_ENTER ∨ key = KEY_ENTER) ∧ s.command.cell 0 ≠ EOL ∧
    0 ≤ s.cmd_process (string s.command)

instance (s : SlwReadline E) (key : ℤ) : Decidable (s.Enters key) :=
  inferInstanceAs (Decidable (_ ∧ _ ∧ _))

/-- The console, the commands that were entered so far, the most recent first, and how far back
in them the arrow up has gone. -/
structure Typing (E : Type*) where
  console : SlwReadline E
  entered : List (List CHAR)
  position : ℕ

/-- The commands that are kept. -/
def Typing.kept (t : Typing E) : List (List CHAR) := t.entered.take HISTSIZE

/-- What happens to the console: a new line is started, or a key is pressed; with it comes where
a new entry would be allocated. -/
inductive Input (E : Type*)
  | readline (proc : List CHAR → ℤ) (comp : Option (Cells CHAR → ℤ × Cells CHAR))
  | key (key : ℤ) (entr : E)

/-- One step, and what it means for the commands and the position: the position goes up with the
arrow, and also when a command is entered, which makes the others older by one. -/
def Typing.exec [DecidableEq E] (t : Typing E) : Input E → Option (Typing E)
  | .readline proc comp => (t.console.readline proc comp).map fun s => { t with console := s }
  | .key key entr => (t.console.parser_commandline key entr).map fun (_, s) =>
    if t.console.Enters key then
      { console := s
        entered := string t.console.command :: t.entered
        position := if t.position = 0 then 0 else min (t.position + 1) HISTSIZE }
    else if key = SL_KEY_UP then
      { t with console := s, position := min (t.position + 1) t.kept.length }
    else { t with console := s }

/-- A completion leaves a line of text that does not reach behind the buffer; where it returns 0,
the cursor stays where it is, and so must be in the text. -/
def KeepsLine (complete : Cells CHAR → ℤ × Cells CHAR) : Prop :=
  ∀ m c l, Shows m c l → ∃ text, Shows (complete m).2 (text.length : ℕ) ⟨text, text.length⟩ ∧
    ((complete m).1 = 0 → l.cursor ≤ text.length)

/-- What a step needs: a key is for the command line and a printable one finds room in it, a new
entry is allocated at a free address, and the callbacks keep the buffer in order. -/
def Typing.Ok (t : Typing E) : Input E → Prop
  | .readline _ comp => ∀ complete, comp = some complete → KeepsLine complete
  | .key key entr =>
    t.console.parser = .COMMANDLINE ∧ t.console.history.list entr = none ∧
      (32 ≤ key → key ≤ 126 → (string t.console.command).length < MAX_CMDLINE - 1) ∧
      (key = KEY_TAB → t.console.command.cell 0 ≠ charOf KEY_NEWLINE)

/-- The console from its start on. -/
def typing (E : Type*) [DecidableEq E] : System (Typing E) (Input E) :=
  System.ofFun (fun t => t.console.history = Heap.fresh ∧ t.console.parser = .DEFAULT ∧
    t.console.cmd_complete = none ∧ t.entered = [] ∧ t.position = 0) Typing.exec

/-! ### The list of entries -/

variable {h h' : Heap E Unit} {recent : List E} {p i : ℕ} {e : E}

/-- The history consists of the entries `recent`, the newest first, and the one at the position
`p`, counted from 1, is selected. -/
structure Marked (h : Heap E Unit) (recent : List E) (p : ℕ) : Prop where
  shape : Shape h fun _ => recent.reverse
  position_le : p ≤ recent.length
  selection : h.selection () = if p = 0 then none else recent[p - 1]?
  select : ∀ e ∈ recent, h.select e = true ↔ h.selection () = some e

theorem Marked.fresh : Marked (Heap.fresh : Heap E Unit) [] 0 where
  shape := Shape.fresh
  position_le := Nat.le_refl 0
  selection := rfl
  select _ he := absurd he List.not_mem_nil

theorem Marked.nodup (h : Marked h' recent p) : recent.Nodup :=
  List.nodup_reverse.mp (h.shape.nodup ())

theorem Marked.list (hm : Marked h recent p) (he : e ∈ recent) : h.list e = some () :=
  (hm.shape.list e ()).mpr (List.mem_reverse.mpr he)

theorem Marked.free (hm : Marked h recent p) (he : e ∉ recent) : h.list e = none := by
  cases hlist : h.list e with
  | none => rfl
  | some u => exact absurd (List.mem_reverse.mp ((hm.shape.list e u).mp hlist)) he

theorem Marked.last (hm : Marked h recent p) : h.last () = recent.head? := by
  rw [(hm.shape.strand ()).last, List.getLast?_reverse]

/-- `prev` leads to the next older entry. -/
theorem Marked.prev (hm : Marked h recent p) (hi : recent[i]? = some e) :
    h.prev e = recent[i + 1]? := by
  have hwalk := (hm.shape.strand ()).walk_prev
  rw [List.reverse_reverse] at hwalk
  exact hwalk.link_eq hi

/-- `selected` is the entry at the position. -/
theorem Marked.selected (hm : Marked h recent p) :
    Linklist.selected h () = if p = 0 then none else recent[p - 1]? := by
  have hfirst := (hm.shape.strand ()).first
  rw [Linklist.selected, hfirst, ← hm.selection]
  cases hrev : recent.reverse with
  | nil =>
      have hnil : recent = [] := List.reverse_eq_nil_iff.mp hrev
      rw [hm.selection, hnil]
      simp
  | cons x xs => rfl

section Edit

variable [DecidableEq E]

/-- Selecting an entry where none is selected. -/
theorem Marked.sel (hm : Marked h recent 0) (hi : recent[i]? = some e) :
    Marked (Entry.sel h e true) recent (i + 1) := by
  have hmem : e ∈ recent := List.mem_of_getElem? hi
  have hnone : h.selection () = none := hm.selection
  have hsel : Entry.sel h e true = { h with
      select := update h.select e true
      selection := update h.selection () (some e) } := by
    simp only [Entry.sel]
    rw [hm.list hmem]
    simp
  refine ⟨hm.shape.sel e, (List.getElem?_eq_some_iff.mp hi).1, ?_, fun x hx => ?_⟩
  · rw [hsel, if_neg (Nat.succ_ne_zero i), Nat.add_sub_cancel, hi]
    rfl
  · rw [hsel]
    by_cases hxe : x = e
    · simp [hxe]
    · have hno : h.select x ≠ true := fun hs => by
        rw [hm.select x hx, hnone] at hs
        cases hs
      simp [Function.update_of_ne hxe, hno, Ne.symm hxe]

/-- `sel(0)` takes the selection away. -/
theorem Marked.deselect (hm : Marked h recent p) :
    ∃ h', Linklist.sel h () 0 = some h' ∧ Marked h' recent 0 := by
  rw [hm.shape.deselect ()]
  refine ⟨_, rfl, ?_⟩
  split
  · rename_i hnil
    have hnil' : recent = [] := List.reverse_eq_nil_iff.mp hnil
    have hp : p = 0 := by
      have hle := hm.position_le
      rw [hnil'] at hle
      exact Nat.le_zero.mp hle
    exact hp ▸ hm
  · refine ⟨hm.shape.of_selection _ _, Nat.zero_le _, ?_, fun x hx => ?_⟩
    · simp
    · simp [hx]

/-- **A new entry** is the newest, and the selected one is older by one. -/
theorem Marked.append (hm : Marked h recent p) (he : h.list e = none) :
    Marked (Linklist.append (Entry.construct h e) () e) (e :: recent)
      (if p = 0 then 0 else p + 1) := by
  have hnot : e ∉ recent := fun hmem => by
    rw [hm.list hmem] at he
    cases he
  have hcons : (Entry.construct h e).list e = none := Function.update_self ..
  have hshape : Shape (Linklist.append (Entry.construct h e) () e)
      fun _ => (e :: recent).reverse := by
    have happ := (hm.shape.construct fun _ => by simpa using hnot).append () e
    refine happ.one ?_
    rw [Function.update_self, List.erase_of_not_mem (by simpa using hnot), List.reverse_cons]
  have hmarks : (Linklist.append (Entry.construct h e) () e).select = update h.select e false ∧
      (Linklist.append (Entry.construct h e) () e).selection = h.selection := by
    rw [Linklist.append_eq hcons]
    exact ⟨rfl, rfl⟩
  have hle := hm.position_le
  refine ⟨hshape, ?_, ?_, fun x hx => ?_⟩
  · rw [List.length_cons]
    split <;> omega
  · rw [hmarks.2, hm.selection]
    by_cases hp : p = 0
    · simp [hp]
    · obtain ⟨q, rfl⟩ : ∃ q, p = q + 1 := ⟨p - 1, by omega⟩
      simp
  · rw [hmarks.1, hmarks.2]
    by_cases hxe : x = e
    · have hno : h.selection () ≠ some e := by
        rw [hm.selection]
        split
        · simp
        · exact fun hsel => hnot (List.mem_of_getElem? hsel)
      simp [hxe, hno]
    · rw [Function.update_of_ne hxe]
      exact hm.select x ((List.mem_cons.mp hx).resolve_left hxe)

omit [DecidableEq E] in
/-- The oldest entry is selected at the last position. -/
theorem Marked.select_oldest_iff (hm : Marked h (recent ++ [e]) p) (hnot : e ∉ recent) :
    h.select e = true ↔ p = recent.length + 1 := by
  have hle := hm.position_le
  rw [List.length_append, List.length_singleton] at hle
  rw [hm.select e (by simp), hm.selection]
  constructor
  · intro hsel
    split at hsel
    · cases hsel
    · by_contra hp
      have hlt : p - 1 < recent.length := by omega
      rw [List.getElem?_append_left hlt] at hsel
      exact hnot (List.mem_of_getElem? hsel)
  · intro hp
    rw [if_neg (by omega), hp, Nat.add_sub_cancel, List.getElem?_append_right (Nat.le_refl _),
      Nat.sub_self]
    rfl

/-- **The oldest entry is deleted**: if it is selected, the next one is. -/
theorem Marked.rem_oldest (hm : Marked h (recent ++ [e]) p) (hne : recent ≠ []) :
    Marked (Entry.rem h e) recent (min p recent.length) := by
  obtain ⟨n, ys, hrev⟩ : ∃ n ys, recent.reverse = n :: ys :=
    List.exists_cons_of_ne_nil (by simpa using hne)
  have hnd := hm.nodup
  have hnot : e ∉ recent := fun hmem => List.disjoint_of_nodup_append hnd hmem (by simp)
  have hlist := hm.list (e := e) (by simp)
  have hlen : recent.length = ys.length + 1 := by
    rw [← List.length_reverse, hrev, List.length_cons]
  have horder : (recent ++ [e]).reverse = [] ++ e :: recent.reverse := by simp
  have hst : Strand h () ([] ++ e :: recent.reverse) := horder ▸ hm.shape.strand ()
  have hnext : h.next e = some n := by rw [hst.links.1, hrev, List.head?_cons]
  have hprev : h.prev e = none := hst.links.2
  have hn : recent[recent.length - 1]? = some n := by
    rw [← List.getLast?_eq_getElem?, List.getLast?_eq_head?_reverse, hrev, List.head?_cons]
  have hnmem : n ∈ recent := List.mem_of_getElem? hn
  have hshape : Shape (Entry.rem h e) fun _ => recent.reverse := by
    refine (hm.shape.rem_member (l := ()) horder).one ?_
    rw [Function.update_self, List.nil_append]
  have hrem := Entry.rem_eq hlist (h := h) (e := e) (by
    rw [hnext]
    exact fun heq => hnot (Option.some.inj heq ▸ hnmem))
  have hle := hm.position_le
  rw [List.length_append, List.length_singleton] at hle
  have hold := hm.select e (by simp)
  have hlast := hm.select_oldest_iff hnot
  refine ⟨hshape, Nat.min_le_right _ _, ?_, fun x hx => ?_⟩
  · rw [hrem]
    simp only [hnext, hprev, Option.none_or]
    by_cases hs : h.select e = true
    · have hp := hlast.mp hs
      rw [if_pos hs, Function.update_self, Nat.min_eq_right (by omega), if_neg (by omega), hn]
    · have hp : p ≤ recent.length := by
        have hne := mt hlast.mpr hs
        omega
      rw [if_neg hs, Nat.min_eq_left hp, hm.selection]
      split
      · rfl
      · rw [List.getElem?_append_left (by omega)]
  · have hxe : x ≠ e := fun heq => hnot (heq ▸ hx)
    have hxs := hm.select x (List.mem_append_left _ hx)
    rw [hrem]
    simp only [hnext, hprev, Option.none_or, Option.some_or]
    by_cases hs : h.select e = true
    · rw [if_pos hs, if_pos hs, Function.update_self]
      by_cases hxn : x = n
      · simp [hxn]
      · rw [Function.update_of_ne hxn, hxs, hold.mp hs]
        simp [Ne.symm hxe, Ne.symm hxn]
    · rw [if_neg hs, if_neg hs]
      exact hxs

/-- **A command is saved**: of more than 32 entries the oldest is deleted. -/
theorem Marked.save (hm : Marked h recent p) (he : h.list e = none)
    (hlen : recent.length ≤ HISTSIZE) :
    let appended := Linklist.append (Entry.construct h e) () e
    Marked (if appended.length () > 32 then
        match appended.first () with
        | some oldest => Entry.rem appended oldest
        | none => appended
      else appended) ((e :: recent).take HISTSIZE)
      (if p = 0 then 0 else min (p + 1) HISTSIZE) := by
  intro appended
  have happ : Marked appended (e :: recent) (if p = 0 then 0 else p + 1) := hm.append he
  have hlength := happ.shape.length ()
  have hp := hm.position_le
  have hmax : HISTSIZE = 32 := rfl
  rw [List.length_reverse, List.length_cons] at hlength
  by_cases hfull : recent.length = 32
  · rw [if_pos (by omega)]
    obtain ⟨kept, oldest, hsplit⟩ : ∃ kept oldest, e :: recent = kept ++ [oldest] :=
      ⟨_, _, (List.dropLast_append_getLast (List.cons_ne_nil e recent)).symm⟩
    have hkept : kept.length = 32 := by
      have hlens := congrArg List.length hsplit
      rw [List.length_cons, List.length_append, List.length_singleton] at hlens
      omega
    have hfirst : appended.first () = some oldest := by
      rw [(happ.shape.strand ()).first, hsplit]
      simp
    rw [hfirst, hsplit, List.take_left' (hkept.trans hmax.symm)]
    rw [hsplit] at happ
    have hrem := happ.rem_oldest (List.ne_nil_of_length_pos (by omega))
    rw [hkept] at hrem
    split at hrem
    · rename_i h0
      rwa [if_pos h0]
    · rename_i h0
      rwa [if_neg h0]
  · rw [if_neg (by omega), List.take_of_length_le (by rw [List.length_cons]; omega)]
    split at happ
    · rename_i h0
      rwa [if_pos h0]
    · rename_i h0
      rwa [if_neg h0, Nat.min_eq_left (by omega)]

end Edit

/-! ### The buffer -/

variable {m : Cells CHAR} {c : ℤ} {l : Line} {s s' : SlwReadline E} {text : List CHAR}
  {key : ℤ} {entr : E}

/-- The command of an entry is shown with the cursor at its end. -/
theorem showEntry_shows (hw : s.command.Within 0 MAX_CMDLINE) (htext : EOL ∉ s.data e)
    (hfits : (s.data e).length < MAX_CMDLINE) :
    ∃ m, s.showEntry e = some { s with command := m, cursor := ((s.data e).length : ℕ) } ∧
      Shows m ((s.data e).length : ℕ) ⟨s.data e, (s.data e).length⟩ := by
  have hcopy := strncpy_shows hw htext hfits
  obtain ⟨m, hm, hcell, hwithin⟩ := hcopy.scan
  refine ⟨m, ?_, hcopy.move hcell hwithin _ (Nat.le_refl _)⟩
  simp only [showEntry, strlen, hm]
  rfl

/-- A step of the line leaves the history and the callbacks as they are. -/
structure SameHistory (s s' : SlwReadline E) : Prop where
  history : s'.history = s.history
  data : s'.data = s.data
  parser : s'.parser = s.parser
  process : s'.cmd_process = s.cmd_process
  complete : s'.cmd_complete = s.cmd_complete

theorem SameHistory.trans {t : SlwReadline E} (h : SameHistory s s') (h' : SameHistory s' t) :
    SameHistory s t :=
  ⟨h'.history.trans h.history, h'.data.trans h.data, h'.parser.trans h.parser,
    h'.process.trans h.process, h'.complete.trans h.complete⟩

theorem backspace_sameHistory (s : SlwReadline E) : SameHistory s s.backspace := by
  rw [backspace]
  split <;> exact ⟨rfl, rfl, rfl, rfl, rfl⟩

theorem left_sameHistory (s : SlwReadline E) : SameHistory s s.left := by
  rw [left]
  split <;> exact ⟨rfl, rfl, rfl, rfl, rfl⟩

/-- A loop that only writes the buffer and moves the cursor. -/
theorem SameHistory.of_map {f : ℤ × Cells CHAR → SlwReadline E} {o : Option (ℤ × Cells CHAR)}
    (h : o.map f = some s') (hf : ∀ x, SameHistory s (f x)) : SameHistory s s' := by
  obtain ⟨x, -, rfl⟩ := Option.map_eq_some_iff.mp h
  exact hf x

theorem ctrl_u_sameHistory (h : s.ctrl_u = some s') : SameHistory s s' := by
  obtain ⟨x, -, hx⟩ := Option.bind_eq_some_iff.mp h
  exact .of_map hx fun _ => ⟨rfl, rfl, rfl, rfl, rfl⟩

section Keys

variable [DecidableEq E] {res : Bool}

/-- The editing keys touch neither the history nor the callbacks. -/
theorem edit_sameHistory (hcur : s.cursor ≤ MAX_CMDLINE) (hkey : EditKey key)
    (h : s.parser_commandline key entr = some (res, s')) : SameHistory s s' := by
  have hstart : SameHistory s { s with commandline := true } := ⟨rfl, rfl, rfl, rfl, rfl⟩
  refine hstart.trans ?_
  by_cases hp : 32 ≤ key ∧ key ≤ 126
  · rw [parser_commandline_printable hcur hp.1 hp.2] at h
    obtain ⟨t, ht, hpair⟩ := Option.map_eq_some_iff.mp h
    obtain ⟨-, rfl⟩ := Prod.mk.inj hpair
    exact .of_map ht fun _ => ⟨rfl, rfl, rfl, rfl, rfl⟩
  · rw [parser_commandline_other hcur hp] at h
    generalize { s with commandline := true } = s at h ⊢
    have hkeys := hkey.resolve_left hp
    simp only [List.mem_cons, List.not_mem_nil, or_false] at hkeys
    have hsome : ∀ {t : SlwReadline E}, some (true, t) = some (res, s') → SameHistory s t →
        SameHistory s s' := by
      intro t ht hs
      obtain ⟨-, rfl⟩ := Prod.mk.inj (Option.some.inj ht)
      exact hs
    have hmap : ∀ {o : Option (SlwReadline E)}, o.map (true, ·) = some (res, s') →
        (∀ t, o = some t → SameHistory s t) → SameHistory s s' := by
      intro o ho hs
      obtain ⟨t, ht, hpair⟩ := Option.map_eq_some_iff.mp ho
      obtain ⟨-, rfl⟩ := Prod.mk.inj hpair
      exact hs t ht
    rcases hkeys with rfl | rfl | rfl | rfl | rfl | rfl | rfl | rfl | rfl | rfl | rfl
    · exact hsome h (backspace_sameHistory s)
    · exact hsome h (backspace_sameHistory s)
    · exact hsome h (backspace_sameHistory s)
    · exact hsome h (left_sameHistory s)
    · exact hsome h ⟨rfl, rfl, rfl, rfl, rfl⟩
    · exact hmap (o := s.ctrl_d) h fun _ ht => .of_map ht fun _ => ⟨rfl, rfl, rfl, rfl, rfl⟩
    · exact hsome h ⟨rfl, rfl, rfl, rfl, rfl⟩
    · exact hsome h ⟨rfl, rfl, rfl, rfl, rfl⟩
    · exact hmap (o := s.ctrl_e) h fun _ ht => .of_map ht fun _ => ⟨rfl, rfl, rfl, rfl, rfl⟩
    · exact hmap (o := s.ctrl_k) h fun _ ht => .of_map ht fun _ => ⟨rfl, rfl, rfl, rfl, rfl⟩
    · exact hmap (o := s.ctrl_u) h fun _ => ctrl_u_sameHistory

/-- A key that the switch does not know does nothing. -/
theorem switch_unknown (hedit : ¬ EditKey key) (henter : key ≠ SL_KEY_ENTER ∧ key ≠ KEY_ENTER)
    (hup : key ≠ SL_KEY_UP) (hdown : key ≠ SL_KEY_DOWN) (hg : key ≠ KEY_CTRL_G)
    (htab : key ≠ KEY_TAB) : s.switch key entr = some (false, s) := by
  simp only [EditKey, List.mem_cons, List.not_mem_nil, or_false, not_or] at hedit
  obtain ⟨-, h1, h2, h3, h4, h5, h6, h7, h8, h9, h10, h11⟩ := hedit
  simp only [switch, henter.1, henter.2, hup, hdown, hg, htab, h1, h2, h3, h4, h5, h6, h7, h8,
    h9, h10, h11, or_self, if_false]

/-- What the arrow up does: with an older entry than the one at the position it selects and shows
this, else nothing. -/
theorem up_eq (hm : Marked s.history recent p) :
    (∀ e, recent[p]? = some e → ∃ h', Marked h' recent (p + 1) ∧
      s.up = showEntry { s with history := h' } e) ∧
    (recent.length ≤ p → s.up = some s) := by
  have hsel := hm.selected
  constructor
  · intro e he
    by_cases hp : p = 0
    · subst hp
      rw [if_pos rfl] at hsel
      have hlast := hm.last
      rw [List.head?_eq_getElem?, he] at hlast
      refine ⟨_, hm.sel he, ?_⟩
      simp only [up, hsel, hlast]
    · obtain ⟨q, rfl⟩ : ∃ q, p = q + 1 := ⟨p - 1, by omega⟩
      have hlt := (List.getElem?_eq_some_iff.mp he).1
      have hcur : recent[q]? = some recent[q] := List.getElem?_eq_getElem (by omega)
      rw [if_neg hp, Nat.add_sub_cancel, hcur] at hsel
      have hprev := hm.prev hcur
      rw [he] at hprev
      obtain ⟨h', hdes, hm'⟩ := hm.deselect
      refine ⟨_, hm'.sel he, ?_⟩
      simp only [up, hsel, hprev, hdes, Option.bind_some]
  · intro hle
    by_cases hp : p = 0
    · rw [if_pos hp] at hsel
      have hnil : recent = [] := List.eq_nil_of_length_eq_zero (by omega)
      have hlast := hm.last
      rw [hnil] at hlast
      simp only [up, hsel, hlast, List.head?_nil]
    · have hple := hm.position_le
      have hcur : recent[p - 1]? = some recent[p - 1] := List.getElem?_eq_getElem (by omega)
      rw [if_neg hp, hcur] at hsel
      have hprev := hm.prev hcur
      rw [List.getElem?_eq_none (by omega)] at hprev
      simp only [up, hsel, hprev]

end Keys

/-! ### Runs -/

/-- **What holds all the time**: the list has an entry for each command that is kept, the newest
first, the selection is at the position, and the buffer shows a line. -/
structure Keeps (t : Typing E) (recent : List E) : Prop where
  marked : Marked t.console.history recent t.position
  data : recent.map t.console.data = t.kept
  texts : ∀ text ∈ t.entered, text ≠ [] ∧ EOL ∉ text ∧ text.length < MAX_CMDLINE
  line : t.console.parser = .COMMANDLINE → ∃ l, Shows t.console.command t.console.cursor l
  complete : ∀ complete, t.console.cmd_complete = some complete → KeepsLine complete

variable {t t' : Typing E}

theorem Keeps.length (hk : Keeps t recent) : recent.length = t.kept.length := by
  rw [← hk.data, List.length_map]

theorem Keeps.length_le (hk : Keeps t recent) : recent.length ≤ HISTSIZE := by
  rw [hk.length, Typing.kept, List.length_take]
  exact Nat.min_le_left _ _

/-- The text of an entry. -/
theorem Keeps.command (hk : Keeps t recent) (he : recent[i]? = some e) :
    t.kept[i]? = some (t.console.data e) ∧ EOL ∉ t.console.data e ∧
      (t.console.data e).length < MAX_CMDLINE := by
  have hi : t.kept[i]? = some (t.console.data e) := by
    rw [← hk.data, List.getElem?_map, he]
    rfl
  have hmem : t.console.data e ∈ t.entered := List.mem_of_mem_take (List.mem_of_getElem? hi)
  exact ⟨hi, (hk.texts _ hmem).2⟩

/-- A step that leaves the history alone. -/
theorem Keeps.of_same (hk : Keeps t recent) (hs : SameHistory t.console s)
    (hl : ∃ l, Shows s.command s.cursor l) : Keeps { t with console := s } recent where
  marked := by
    rw [hs.history]
    exact hk.marked
  data := by
    rw [hs.data]
    exact hk.data
  texts := hk.texts
  line _ := hl
  complete := by
    rw [hs.complete]
    exact hk.complete

section Steps

variable [DecidableEq E]

/-- A new line. -/
theorem exec_readline {proc : List CHAR → ℤ} {comp : Option (Cells CHAR → ℤ × Cells CHAR)}
    (h : t.console.readline proc comp = some s) :
    t.exec (.readline proc comp) = some { t with console := s } := by
  simp only [Typing.exec, h, Option.map_some]

/-- A key that neither enters the command nor is the arrow up. -/
theorem exec_other {res : Bool} (henter : ¬ t.console.Enters key) (hup : key ≠ SL_KEY_UP)
    (h : t.console.parser_commandline key entr = some (res, s)) :
    t.exec (.key key entr) = some { t with console := s } := by
  simp only [Typing.exec, h, Option.map_some, if_neg henter, if_neg hup]

/-- **The arrow up** shows the next older command, if there is one, and else nothing new. -/
theorem Keeps.up (hk : Keeps t recent) (hl : Shows t.console.command t.console.cursor l)
    (entr : E) :
    ∃ t', t.exec (.key SL_KEY_UP entr) = some t' ∧ Keeps t' recent ∧ t'.entered = t.entered ∧
      t'.position = min (t.position + 1) t.kept.length ∧
      t'.console.parser = t.console.parser ∧
      (∀ text, t.kept[t.position]? = some text →
        Shows t'.console.command t'.console.cursor ⟨text, text.length⟩) ∧
      (t.kept.length ≤ t.position → Shows t'.console.command t'.console.cursor l) := by
  have hcur := hl.cursor
  have hle := hl.le
  have hfits : l.text.length < 256 := hl.fits
  have hmax : (MAX_CMDLINE : ℤ) = 256 := rfl
  have hlen := hk.length
  have henter : ¬ t.console.Enters SL_KEY_UP := fun h => absurd h.1 (by decide)
  have hparse : t.console.parser_commandline SL_KEY_UP entr =
      { t.console with commandline := true }.up.map (true, ·) :=
    parser_commandline_other (by omega) (by decide)
  obtain ⟨hshow, hstay⟩ := up_eq (s := { t.console with commandline := true }) hk.marked
  by_cases hlt : t.position < recent.length
  · obtain ⟨h', hm', hup⟩ := hshow _ (List.getElem?_eq_getElem hlt)
    obtain ⟨hkept, heol, hshort⟩ := hk.command (List.getElem?_eq_getElem hlt)
    obtain ⟨m, hm, hshows⟩ := showEntry_shows
      (s := { t.console with commandline := true, history := h' }) hl.within heol hshort
    have hexec : t.exec (.key SL_KEY_UP entr) = some { t with
        console := { t.console with
          commandline := true
          history := h'
          command := m
          cursor := ((t.console.data recent[t.position]).length : ℕ) }
        position := min (t.position + 1) t.kept.length } := by
      simp only [Typing.exec, hparse, hup, hm, Option.map_some, if_neg henter]
      rfl
    refine ⟨_, hexec, ?_, rfl, rfl, rfl, fun text htext => ?_, fun hge => absurd hlt (by omega)⟩
    · refine ⟨?_, hk.data, hk.texts, fun _ => ⟨_, hshows⟩, hk.complete⟩
      rw [← hlen, Nat.min_eq_left (by omega)]
      exact hm'
    · obtain rfl := Option.some.inj (hkept.symm.trans htext)
      exact hshows
  · have hstay' := hstay (by omega)
    have hple := hk.marked.position_le
    have hexec : t.exec (.key SL_KEY_UP entr) = some { t with
        console := { t.console with commandline := true }
        position := min (t.position + 1) t.kept.length } := by
      simp only [Typing.exec, hparse, hstay', Option.map_some, if_neg henter]
      rfl
    refine ⟨_, hexec, ?_, rfl, rfl, rfl, fun text htext => ?_, fun _ => hl⟩
    · refine ⟨?_, hk.data, hk.texts, fun _ => ⟨_, hl⟩, hk.complete⟩
      rw [← hlen, Nat.min_eq_right (by omega), show recent.length = t.position by omega]
      exact hk.marked
    · have hlt' := (List.getElem?_eq_some_iff.mp htext).1
      omega

/-- **A command is entered** and kept. -/
theorem Keeps.enter (hk : Keeps t recent) (hl : Shows t.console.command t.console.cursor l)
    (hfree : t.console.history.list entr = none) (henter : t.console.Enters key) :
    ∃ t', t.exec (.key key entr) = some t' ∧ Keeps t' ((entr :: recent).take HISTSIZE) ∧
      t'.entered = l.text :: t.entered ∧
      t'.position = if t.position = 0 then 0 else min (t.position + 1) HISTSIZE := by
  have hcur := hl.cursor
  have hle := hl.le
  have hfits : l.text.length < 256 := hl.fits
  have hmax : (MAX_CMDLINE : ℤ) = 256 := rfl
  have hparse : t.console.parser_commandline key entr =
      some (true, { t.console with commandline := true }.enter entr) := by
    obtain hkey | hkey := henter.1
    · subst hkey
      exact parser_commandline_other (by omega) (by decide)
    · subst hkey
      exact parser_commandline_other (by omega) (by decide)
  have hdone : { t.console with commandline := true }.enter entr = _ :=
    (if_neg henter.2.1).trans (if_neg (Int.not_lt.mpr henter.2.2))
  have hsave := hk.marked.save hfree hk.length_le
  have hnot : entr ∉ recent := fun hmem => by
    rw [hk.marked.list hmem] at hfree
    cases hfree
  rw [hdone] at hparse
  refine ⟨_, by simp only [Typing.exec, hparse, Option.map_some, if_pos henter]; rfl, ?_,
    congrArg (· :: t.entered) hl.string_eq, rfl⟩
  refine ⟨hsave, ?_, ?_, fun hparser => (nomatch hparser), hk.complete⟩
  · have hdata : recent.map (update t.console.data entr (string t.console.command)) =
        t.kept := by
      rw [← hk.data]
      refine List.map_congr_left fun x hx => Function.update_of_ne ?_ _ _
      exact fun heq => hnot (heq ▸ hx)
    change ((entr :: recent).take HISTSIZE).map
      (update t.console.data entr (string t.console.command)) =
        (string t.console.command :: t.entered).take HISTSIZE
    rw [List.map_take, List.map_cons, hdata, Function.update_self, Typing.kept]
    simp [HISTSIZE, List.take_take]
  · rintro text (_ | ⟨_, hmem⟩)
    · rw [hl.string_eq]
      refine ⟨fun hnil => henter.2.1 ?_, hl.text, hl.fits⟩
      have heol := hl.eol
      rwa [hnil] at heol
    · exact hk.texts text hmem

/-- The arrow down begins with a null pointer and does nothing. -/
theorem Keeps.down (hk : Keeps t recent) (hl : Shows t.console.command t.console.cursor l)
    (entr : E) :
    t.exec (.key SL_KEY_DOWN entr) =
        some { t with console := { t.console with commandline := true } } ∧
      Keeps { t with console := { t.console with commandline := true } } recent := by
  have hcur := hl.cursor
  have hle := hl.le
  have hfits : l.text.length < 256 := hl.fits
  have hmax : (MAX_CMDLINE : ℤ) = 256 := rfl
  have hparse : t.console.parser_commandline SL_KEY_DOWN entr =
      some (true, { t.console with commandline := true }) :=
    parser_commandline_other (by omega) (by decide)
  exact ⟨exec_other (fun h => absurd h.1 (by decide)) (by decide) hparse,
    hk.of_same ⟨rfl, rfl, rfl, rfl, rfl⟩ ⟨l, hl⟩⟩

/-- Ctrl-g gives the line up. -/
theorem Keeps.give_up (hk : Keeps t recent)
    (hl : Shows t.console.command t.console.cursor l) (entr : E) :
    ∃ t', t.exec (.key KEY_CTRL_G entr) = some t' ∧ Keeps t' recent ∧ t'.entered = t.entered ∧
      t'.position = t.position := by
  have hcur := hl.cursor
  have hle := hl.le
  have hfits : l.text.length < 256 := hl.fits
  have hmax : (MAX_CMDLINE : ℤ) = 256 := rfl
  have hparse : t.console.parser_commandline KEY_CTRL_G entr = _ :=
    parser_commandline_other (by omega) (by decide)
  refine ⟨_, exec_other (fun h => absurd h.1 (by decide)) (by decide) hparse, ?_, rfl, rfl⟩
  exact ⟨hk.marked, hk.data, hk.texts, fun h => (nomatch h), hk.complete⟩

/-- The buffer of a new line: blank, or what the completion makes of that. -/
def started (s : SlwReadline E) (comp : Option (Cells CHAR → ℤ × Cells CHAR)) : Cells CHAR :=
  match comp with
  | some complete => (complete (blank ⟨s.command.cell, []⟩)).2
  | none => blank ⟨s.command.cell, []⟩

/-- What a new line shows at first. -/
def firstText (s : SlwReadline E) (comp : Option (Cells CHAR → ℤ × Cells CHAR)) : List CHAR :=
  string (started s comp)

omit [DecidableEq E] in
theorem started_shows (s : SlwReadline E) {comp : Option (Cells CHAR → ℤ × Cells CHAR)}
    (hcomp : ∀ complete, comp = some complete → KeepsLine complete) :
    Shows (started s comp) (firstText s comp).length
      ⟨firstText s comp, (firstText s comp).length⟩ := by
  have hblank := blank_shows (m := ⟨s.command.cell, []⟩) (by simp [Cells.Within])
  cases comp with
  | none =>
      have htext : firstText s none = [] := hblank.string_eq
      rw [htext]
      exact hblank
  | some complete =>
      obtain ⟨text, hshows, -⟩ := hcomp complete rfl _ _ _ hblank
      have htext : firstText s (some complete) = text := hshows.string_eq
      rw [htext]
      exact hshows

omit [DecidableEq E] in
/-- **A new line** leaves the history and its selection as they are. -/
theorem Keeps.readline (hk : Keeps t recent) (proc : List CHAR → ℤ)
    {comp : Option (Cells CHAR → ℤ × Cells CHAR)}
    (hcomp : ∀ complete, comp = some complete → KeepsLine complete) :
    ∃ s, t.console.readline proc comp = some s ∧ Keeps { t with console := s } recent ∧
      s.parser = .COMMANDLINE ∧ s.cmd_process = proc ∧ s.history = t.console.history ∧
      Shows s.command s.cursor
        ⟨firstText t.console comp, (firstText t.console comp).length⟩ := by
  have hfirst := started_shows t.console hcomp
  have hzero : Shows (started t.console comp) 0 ⟨firstText t.console comp, 0⟩ :=
    hfirst.move rfl hfirst.within 0 (Nat.zero_le _)
  obtain ⟨m, hm, hcell, hw⟩ := hzero.scan
  have hline := hfirst.move hcell hw _ (Nat.le_refl _)
  have hread : t.console.readline proc comp = some { t.console with
      command := m
      cursor := ((firstText t.console comp).length : ℕ)
      cmd_process := proc
      cmd_complete := comp
      commandline := true
      parser := .COMMANDLINE } := by
    have hshape : t.console.readline proc comp =
        (strlen (started t.console comp)).map fun x => { t.console with
          command := x.2
          cursor := x.1
          cmd_process := proc
          cmd_complete := comp
          commandline := true
          parser := .COMMANDLINE } := by
      cases comp <;> simp only [SlwReadline.readline, started]
    rw [hshape, strlen, hm]
    rfl
  exact ⟨_, hread, ⟨hk.marked, hk.data, hk.texts, fun _ => ⟨_, hline⟩, hcomp⟩, rfl, rfl, rfl, hline⟩

omit [DecidableEq E] in
/-- Tab: the completion leaves a line. -/
theorem Keeps.tab (hk : Keeps t recent) (hl : Shows t.console.command t.console.cursor l)
    (hnl : t.console.command.cell 0 ≠ charOf KEY_NEWLINE) :
    ∃ s, { t.console with commandline := true }.tab = some s ∧
      Keeps { t with console := s } recent := by
  have hc := hl.cursor
  cases hcomp : t.console.cmd_complete with
  | none =>
      refine ⟨{ t.console with commandline := true }, ?_, ?_⟩
      · simp only [SlwReadline.tab, hcomp]
      · exact hk.of_same ⟨rfl, rfl, rfl, rfl, rfl⟩ ⟨l, hl⟩
  | some complete =>
      have hmax : MAX_CMDLINE = 256 := rfl
      have htouch : Shows (t.console.command.touch 0) t.console.cursor l := by
        have hwithin : (t.console.command.touch 0).Within 0 MAX_CMDLINE :=
          hl.within.touch (Int.le_refl 0) (by omega)
        rw [hc]
        exact hl.move (Cells.touch_cell _ 0) hwithin l.cursor hl.le
      obtain ⟨text, hshows, hzero⟩ := hk.complete complete hcomp _ _ _ htouch
      by_cases hres : (complete (t.console.command.touch 0)).1 = 0
      · have hline : Shows (complete (t.console.command.touch 0)).2 t.console.cursor
            ⟨text, l.cursor⟩ := by
          rw [hc]
          exact hshows.move rfl hshows.within l.cursor (hzero hres)
        refine ⟨{ t.console with
          commandline := true
          command := (complete (t.console.command.touch 0)).2 }, ?_,
          hk.of_same ⟨rfl, rfl, rfl, rfl, rfl⟩ ⟨_, hline⟩⟩
        simp only [SlwReadline.tab, hcomp, Cells.touch_cell, hnl, hres, if_false, if_true]
      · have hstart : Shows (complete (t.console.command.touch 0)).2 0 ⟨text, 0⟩ :=
          hshows.move rfl hshows.within 0 (Nat.zero_le _)
        obtain ⟨m, hm, hcell, hw⟩ := hstart.scan
        refine ⟨{ t.console with
          commandline := true
          command := m
          cursor := (text.length : ℕ) }, ?_,
          hk.of_same ⟨rfl, rfl, rfl, rfl, rfl⟩ ⟨_, hshows.move hcell hw _ (Nat.le_refl _)⟩⟩
        simp only [SlwReadline.tab, hcomp, Cells.touch_cell, hnl, hres, if_false, strlen, hm,
          Option.map_some]

/-- **One step**: a key or a new line keeps the history. -/
theorem Keeps.step (hk : Keeps t recent) {input : Input E} (hok : t.Ok input) :
    ∃ t' recent', t.exec input = some t' ∧ Keeps t' recent' := by
  cases input with
  | readline proc comp =>
      obtain ⟨s, hs, hkeeps, -⟩ := hk.readline proc hok
      exact ⟨_, recent, exec_readline hs, hkeeps⟩
  | key key entr =>
      obtain ⟨hparser, hfree, hroom, hnl⟩ := hok
      obtain ⟨l, hl⟩ := hk.line hparser
      have hcur := hl.cursor
      have hle := hl.le
      have hfits : l.text.length < 256 := hl.fits
      have hmax : (MAX_CMDLINE : ℤ) = 256 := rfl
      have hsame : ∀ s', SameHistory t.console s' → s'.command.cell = t.console.command.cell →
          s'.cursor = t.console.cursor → s'.command.Within 0 MAX_CMDLINE →
          Keeps { t with console := s' } recent := by
        intro s' hs hcell hcursor hw
        refine hk.of_same hs ⟨⟨l.text, l.cursor⟩, ?_⟩
        rw [hcursor, hcur]
        exact hl.move hcell hw l.cursor hle
      by_cases hup : key = SL_KEY_UP
      · subst hup
        obtain ⟨t', hexec, hkeeps, -⟩ := hk.up hl entr
        exact ⟨t', recent, hexec, hkeeps⟩
      by_cases henters : t.console.Enters key
      · obtain ⟨t', hexec, hkeeps, -⟩ := hk.enter hl hfree henters
        exact ⟨t', _, hexec, hkeeps⟩
      by_cases hedit : EditKey key
      · obtain ⟨res, s', hs', hshows⟩ := hl.edit entr hedit fun h1 h2 =>
          hl.string_eq ▸ hroom h1 h2
        exact ⟨_, recent, exec_other henters hup hs',
          hk.of_same (edit_sameHistory (by omega) hedit hs') ⟨_, hshows⟩⟩
      have hprint : ¬ (32 ≤ key ∧ key ≤ 126) := fun h => hedit (Or.inl h)
      have hparse : t.console.parser_commandline key entr = _ :=
        parser_commandline_other (by omega) hprint
      by_cases henter : key = SL_KEY_ENTER ∨ key = KEY_ENTER
      · -- a blank line, or one that is not processed
        have hswitch : { t.console with commandline := true }.switch key entr =
            some (true, { t.console with commandline := true }.enter entr) := if_pos henter
        refine ⟨_, recent, exec_other henters hup (hparse.trans hswitch), ?_⟩
        by_cases hblank : t.console.command.cell 0 = EOL
        · have hdone : { t.console with commandline := true }.enter entr = _ := if_pos hblank
          rw [hdone]
          exact ⟨hk.marked, hk.data, hk.texts, fun h => (nomatch h), hk.complete⟩
        · have hproc : t.console.cmd_process (string t.console.command) < 0 :=
            Int.not_le.mp fun h => henters ⟨henter, hblank, h⟩
          have hdone : { t.console with commandline := true }.enter entr = _ :=
            (if_neg hblank).trans (if_pos hproc)
          rw [hdone]
          exact hsame _ ⟨rfl, rfl, rfl, rfl, rfl⟩ rfl rfl
            (hl.within.touch (Int.le_refl 0) (by omega))
      have henter' : key ≠ SL_KEY_ENTER ∧ key ≠ KEY_ENTER := not_or.mp henter
      by_cases hdown : key = SL_KEY_DOWN
      · subst hdown
        exact ⟨_, recent, (hk.down hl entr).1, (hk.down hl entr).2⟩
      by_cases hg : key = KEY_CTRL_G
      · subst hg
        obtain ⟨t', hexec, hkeeps, -⟩ := hk.give_up hl entr
        exact ⟨t', recent, hexec, hkeeps⟩
      by_cases htab : key = KEY_TAB
      · subst htab
        obtain ⟨s', hs', hkeeps⟩ := hk.tab hl (hnl rfl)
        have hswitch : { t.console with commandline := true }.switch KEY_TAB entr =
            some (true, s') := congrArg (Option.map (true, ·)) hs'
        exact ⟨_, recent, exec_other henters hup (hparse.trans hswitch), hkeeps⟩
      have hswitch : { t.console with commandline := true }.switch key entr = _ :=
        switch_unknown hedit henter' hup hdown hg htab
      exact ⟨_, recent, exec_other henters hup (hparse.trans hswitch),
        hsame _ ⟨rfl, rfl, rfl, rfl, rfl⟩ rfl rfl hl.within⟩

/-- **The history over whole runs.** -/
theorem keeps_invariant :
    Invariant ((typing E).restrict Typing.Ok) fun t => ∃ recent, Keeps t recent where
  init := by
    rintro t ⟨hhistory, hparser, hcomp, hentered, hposition⟩
    refine ⟨[], ?_, ?_, ?_, ?_, ?_⟩
    · rw [hhistory, hposition]
      exact Marked.fresh
    · rw [Typing.kept, hentered]
      rfl
    · rw [hentered]
      exact fun text hmem => absurd hmem List.not_mem_nil
    · rw [hparser]
      exact fun h => (nomatch h)
    · rw [hcomp]
      exact fun complete h => (nomatch h)
  step := by
    rintro t input t' ⟨recent, hk⟩ ⟨hok, hexec⟩
    obtain ⟨t'', recent', hexec', hk'⟩ := hk.step hok
    obtain rfl := Option.some.inj (hexec'.symm.trans hexec)
    exact ⟨recent', hk'⟩

/-- The text after `k` presses of the arrow up on a line that starts with `text`. -/
def Typing.shown (t : Typing E) (text : List CHAR) (k : ℕ) : List CHAR :=
  if k = 0 ∨ t.kept.length ≤ t.position then text
  else t.kept.getD (min (t.position + k) t.kept.length - 1) []

/-- Pressing the arrow up several times. -/
theorem Keeps.ups (hk : Keeps t recent)
    (hl : Shows t.console.command t.console.cursor ⟨text, text.length⟩) (entr : E) (k : ℕ) :
    ∃ t', Transition.exec Typing.exec t (List.replicate k (.key SL_KEY_UP entr)) = some t' ∧
      Keeps t' recent ∧ t'.entered = t.entered ∧
      t'.position = min (t.position + k) t.kept.length ∧
      Shows t'.console.command t'.console.cursor ⟨t.shown text k, (t.shown text k).length⟩ := by
  have hle := hk.marked.position_le
  rw [hk.length] at hle
  induction k with
  | zero =>
      refine ⟨t, rfl, hk, rfl, (Nat.min_eq_left hle).symm, ?_⟩
      rw [Typing.shown, if_pos (Or.inl rfl)]
      exact hl
  | succ k ih =>
      obtain ⟨t₁, hexec₁, hk₁, hentered₁, hposition₁, hshows₁⟩ := ih
      have hkept₁ : t₁.kept = t.kept := by rw [Typing.kept, hentered₁, Typing.kept]
      obtain ⟨t₂, hexec₂, hk₂, hentered₂, hposition₂, -, hnext, hstay⟩ := hk₁.up hshows₁ entr
      refine ⟨t₂, ?_, hk₂, hentered₂.trans hentered₁, ?_, ?_⟩
      · rw [List.replicate_succ', exec_concat, hexec₁]
        exact hexec₂
      · rw [hposition₂, hposition₁, hkept₁]
        omega
      · by_cases hend : t.kept.length ≤ t₁.position
        · have hsame : t.shown text (k + 1) = t.shown text k := by
            rw [Typing.shown, Typing.shown]
            by_cases hstart : t.kept.length ≤ t.position
            · rw [if_pos (Or.inr hstart), if_pos (Or.inr hstart)]
            · rw [if_neg (by omega), if_neg (by omega)]
              congr 1
              omega
          rw [hsame]
          exact hstay (hkept₁ ▸ hend)
        · have hget : t₁.kept[t₁.position]? = some (t.shown text (k + 1)) := by
            rw [Typing.shown, if_neg (by omega), hkept₁, List.getD_eq_getElem?_getD,
              show min (t.position + (k + 1)) t.kept.length - 1 = t₁.position by omega,
              List.getElem?_eq_getElem (by omega)]
            rfl
          exact hnext _ hget

/-- Pressing the arrow down several times. -/
theorem Keeps.downs (hk : Keeps t recent) (hl : Shows t.console.command t.console.cursor l)
    (entr : E) (j : ℕ) :
    ∃ t', Transition.exec Typing.exec t (List.replicate j (.key SL_KEY_DOWN entr)) = some t' ∧
      Keeps t' recent ∧ Shows t'.console.command t'.console.cursor l := by
  induction j with
  | zero => exact ⟨t, rfl, hk, hl⟩
  | succ j ih =>
      obtain ⟨t₁, hexec₁, hk₁, hshows₁⟩ := ih
      obtain ⟨hexec₂, hk₂⟩ := hk₁.down hshows₁ entr
      refine ⟨_, ?_, hk₂, hshows₁⟩
      rw [List.replicate_succ', exec_concat, hexec₁]
      exact hexec₂

/-- A new line, the arrow up `k` times, then the arrow down `j` times. -/
def browsing (proc : List CHAR → ℤ) (comp : Option (Cells CHAR → ℤ × Cells CHAR)) (entr : E)
    (k j : ℕ) : List (Input E) :=
  .readline proc comp ::
    (List.replicate k (.key SL_KEY_UP entr) ++ List.replicate j (.key SL_KEY_DOWN entr))

/-- After these the line shows what is kept as the `k - j`-th, or as the oldest, with the cursor
at its end. -/
def Typing.Browses (t : Typing E) (inputs : List (Input E)) (k j : ℕ) : Prop :=
  ∃ t' text, Transition.exec Typing.exec t inputs = some t' ∧
    t.kept[min k t.kept.length - 1 - j]? = some text ∧
    Shows t'.console.command t'.console.cursor ⟨text, text.length⟩

/-- Once the arrow up has found a command, no key and no new line brings the position back to 0. -/
theorem position_stays {input : Input E} (hkept : t.kept ≠ []) (hpos : 0 < t.position)
    (h : t.exec input = some t') : 0 < t'.position := by
  cases input with
  | readline proc comp =>
      obtain ⟨s, -, rfl⟩ := Option.map_eq_some_iff.mp h
      exact hpos
  | key key entr =>
      have hlen := List.length_pos_of_ne_nil hkept
      obtain ⟨⟨res, s⟩, -, rfl⟩ := Option.map_eq_some_iff.mp h
      simp only
      split_ifs with henter h0 hup
      · exact absurd h0 (by omega)
      · exact Nat.lt_min.mpr ⟨Nat.succ_pos _, by decide⟩
      · exact Nat.lt_min.mpr ⟨Nat.succ_pos _, hlen⟩
      · exact hpos

/-- What the arrows show on a new line. -/
theorem Keeps.browses_iff (hk : Keeps t recent) (proc : List CHAR → ℤ)
    {comp : Option (Cells CHAR → ℤ × Cells CHAR)}
    (hcomp : ∀ complete, comp = some complete → KeepsLine complete) (entr : E) {k : ℕ}
    (h1 : 1 ≤ k) (j : ℕ) :
    t.Browses (browsing proc comp entr k j) k j ↔
      if t.position < t.kept.length then
        t.kept[min (t.position + k) t.kept.length - 1]? = t.kept[min k t.kept.length - 1 - j]?
      else t.kept[min k t.kept.length - 1 - j]? = some (firstText t.console comp) := by
  obtain ⟨s, hread, hk₁, -, -, -, hline⟩ := hk.readline proc hcomp
  obtain ⟨t₂, hups, hk₂, hentered₂, -, hshows₂⟩ := hk₁.ups hline entr k
  obtain ⟨t₃, hdowns, hk₃, hshows₃⟩ := hk₂.downs hshows₂ entr j
  have hexec : Transition.exec Typing.exec t (browsing proc comp entr k j) = some t₃ := by
    rw [browsing, Transition.exec, exec_readline hread, Option.bind_some, exec_append, hups]
    exact hdowns
  have hbrowses : t.Browses (browsing proc comp entr k j) k j ↔
      t.kept[min k t.kept.length - 1 - j]? = some (t.shown (firstText t.console comp) k) := by
    constructor
    · rintro ⟨t', text, hexec', hkept, hshows⟩
      obtain rfl := Option.some.inj (hexec.symm.trans hexec')
      rw [hkept]
      exact congrArg some (hshows.string_eq.symm.trans hshows₃.string_eq)
    · intro hkept
      exact ⟨t₃, _, hexec, hkept, hshows₃⟩
  rw [hbrowses, Typing.shown]
  by_cases hlt : t.position < t.kept.length
  · rw [if_pos hlt, if_neg (by omega), List.getD_eq_getElem?_getD,
      List.getElem?_eq_getElem (show min (t.position + k) t.kept.length - 1 < _ by omega)]
    exact eq_comm
  · rw [if_neg hlt, if_pos (by omega)]

/-- A command of one character is typed and entered on a new line. -/
theorem Keeps.type (entr : E) (key : ℤ)
    (hr : Reachable ((typing E).restrict Typing.Ok) t) (hk : Keeps t recent)
    (hfree : t.console.history.list entr = none) (h1 : 32 ≤ key) (h2 : key ≤ 126) :
    ∃ t', Reachable ((typing E).restrict Typing.Ok) t' ∧
      Keeps t' ((entr :: recent).take HISTSIZE) ∧ t'.entered = [charOf key] :: t.entered ∧
      t'.position = if t.position = 0 then 0 else min (t.position + 1) HISTSIZE := by
  have hnone : ∀ complete, (none : Option (Cells CHAR → ℤ × Cells CHAR)) = some complete →
      KeepsLine complete := fun _ h => (nomatch h)
  obtain ⟨s, hread, hk₁, hparser, hproc, hhistory, hline⟩ := hk.readline (fun _ => 0) hnone
  have hexec₁ := exec_readline hread
  have hr₁ : Reachable ((typing E).restrict Typing.Ok) { t with console := s } :=
    hr.step (a := .readline (fun _ => 0) none) ⟨hnone, hexec₁⟩
  have hblank := blank_shows (m := ⟨t.console.command.cell, []⟩) (by simp [Cells.Within])
  have htext : firstText t.console none = [] := hblank.string_eq
  rw [htext, List.length_nil] at hline
  have hedit : EditKey key := Or.inl ⟨h1, h2⟩
  obtain ⟨res, u, hu, hshows⟩ := hline.edit entr hedit fun _ _ => by decide
  have hcur : s.cursor ≤ MAX_CMDLINE := by
    rw [hline.cursor]
    exact Int.natCast_nonneg MAX_CMDLINE
  have hsame := edit_sameHistory hcur hedit hu
  have hinsert : (⟨[], 0⟩ : Line).edit key = ⟨[charOf key], 1⟩ := by
    rw [Line.edit, if_pos ⟨h1, h2⟩]
    rfl
  rw [hinsert] at hshows
  have hne : ∀ k : ℤ, k < 32 ∨ 126 < k → key ≠ k := by
    intro k hk heq
    omega
  have hexec₂ : ({ t with console := s } : Typing E).exec (.key key entr) =
      some { t with console := u } := by
    refine exec_other (fun henter => ?_) (hne SL_KEY_UP (by decide)) hu
    exact henter.1.elim (hne SL_KEY_ENTER (by decide)) (hne KEY_ENTER (by decide))
  have hk₂ : Keeps { t with console := u } recent := hk₁.of_same hsame ⟨_, hshows⟩
  have hr₂ : Reachable ((typing E).restrict Typing.Ok) { t with console := u } := by
    refine hr₁.step (a := .key key entr) ⟨⟨hparser, ?_, fun _ _ => ?_, ?_⟩, hexec₂⟩
    · change s.history.list entr = none
      rw [hhistory]
      exact hfree
    · change (string s.command).length < MAX_CMDLINE - 1
      rw [hline.string_eq]
      decide
    · exact fun htab => absurd htab (hne KEY_TAB (by decide))
  have hfree₂ : u.history.list entr = none := by
    rw [hsame.history, hhistory]
    exact hfree
  have henter : u.Enters KEY_ENTER := by
    refine ⟨Or.inr rfl, ?_, ?_⟩
    · exact hshows.ne_eol (Int.le_refl 0) Int.one_pos
    · have hzero : u.cmd_process (string u.command) = 0 :=
        congrFun (hsame.process.trans hproc) _
      exact Int.le_of_eq hzero.symm
  obtain ⟨t', hexec, hk', hentered, hposition⟩ := hk₂.enter hshows hfree₂ henter
  refine ⟨t', hr₂.step (a := .key KEY_ENTER entr) ⟨⟨hsame.parser.trans hparser, hfree₂,
    fun h => absurd h (by decide), fun h => absurd h (by decide)⟩, hexec⟩, hk', hentered,
    hposition⟩

end Steps

/-- Two commands, `a` and `b`, are entered. -/
theorem exists_two_commands :
    ∃ t : Typing ℕ, Reachable ((typing ℕ).restrict Typing.Ok) t ∧
      t.kept = [[charOf 98], [charOf 97]] ∧ t.position = 0 ∧
      t.console.history.list 2 = none ∧ ∃ recent, Keeps t recent := by
  have hinit : (typing ℕ).init
      ⟨⟨.DEFAULT, false, 0, ⟨fun _ => EOL, []⟩, .fresh, fun _ => [], fun _ => 0, none⟩, [], 0⟩ :=
    ⟨rfl, rfl, rfl, rfl, rfl⟩
  have hk₀ := keeps_invariant.init _ hinit
  obtain ⟨recent, hk₀⟩ := hk₀
  have hnil : recent = [] := List.eq_nil_of_length_eq_zero hk₀.length
  subst hnil
  obtain ⟨t₁, hr₁, hk₁, hentered₁, hposition₁⟩ :=
    Keeps.type 0 97 (.init hinit) hk₀ rfl (by decide) (by decide)
  have hfree : t₁.console.history.list 1 = none := hk₁.marked.free (by decide)
  obtain ⟨t₂, hr₂, hk₂, hentered₂, hposition₂⟩ :=
    Keeps.type 1 98 hr₁ hk₁ hfree (by decide) (by decide)
  refine ⟨t₂, hr₂, ?_, ?_, hk₂.marked.free (by decide), _, hk₂⟩
  · rw [Typing.kept, hentered₂, hentered₁]
    rfl
  · rw [hposition₂, hposition₁]
    rfl

end FreeJ
