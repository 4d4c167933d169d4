import FreeJ.LinklistRun

/-!
# The Selection of a Linked List

`BaseLinklist::selection` points at the entry that was selected last and `Entry::select` is
a flag of the entry; `rem` is meant to hand both over to a neighbour. It hands the flag to
the next entry and the pointer to the previous one, and it does neither for the only member
of a list. This module states when a removal hands the selection over (`HandsOver`) and
proves that this is exactly when the selection of every list stays a selected member.

## Main results

* `selectionOk_of_rem`: a removal, possibly followed by an insertion, keeps the selections
  in order if and only if `HandsOver` holds before it.
* `selection_runs`: in every run all of whose steps meet `ListOp.Keeps`, the selection of a
  list is a null pointer or a selected member.
* `selected_dangling`: without the condition `selected()` returns an entry that was removed.
-/

namespace FreeJ

open Function (update)
open Links Transition

variable {E L : Type*}

/-- The selection of every list is a null pointer or a selected member of that list. -/
def SelectionOk (h : Heap E L) : Prop :=
  ∀ l e, h.selection l = some e → h.list e = some l ∧ h.select e = true

/-- Removing `e` hands its selection over: when `e` is selected and has neighbours on both
sides, the previous one is selected already; when `e` is selected and the only member, it
is not the selection of its list, unless `back` says that it is put back into that list. -/
def HandsOver (h : Heap E L) (e : E) (back : Option L) : Prop :=
  ∀ l, h.list e = some l → h.select e = true →
    (∀ p n, h.prev e = some p → h.next e = some n → h.select p = true) ∧
    (h.prev e = none → h.next e = none → h.selection l = some e → back = some l)

/-- The condition on an operation under which the selections stay in order: what it removes
from a list hands its selection over. -/
def ListOp.Keeps (h : Heap E L) : ListOp E L → Prop
  | .append l addr => HandsOver h addr (some l)
  | .insert l addr pos => h.length l ≤ pos ∨ 1 < pos → HandsOver h addr (some l)
  | .insert_after l addr _ => HandsOver h addr (some l)
  | .rem e => HandsOver h e none
  | .remAt l pos => ∀ e, Linklist.pick h l pos = some (some e) → HandsOver h e none
  | _ => True

variable {h h' : Heap E L} {order : L → List E} {l : L} {e : E} {back : Option L}

/-- What the selections look like depends on three fields only. -/
theorem selectionOk_congr (hselect : h'.select = h.select) (hsel : h'.selection = h.selection)
    (hlist : h'.list = h.list) : SelectionOk h' ↔ SelectionOk h := by
  simp only [SelectionOk]
  rw [hselect, hsel, hlist]

/-- The neighbours of a member are other members of its list, and different ones. -/
theorem Shape.neighbours (hs : Shape h order) (hl : h.list e = some l) :
    (∀ n, h.next e = some n → n ≠ e ∧ h.list n = some l) ∧
    (∀ p, h.prev e = some p → p ≠ e ∧ h.list p = some l) ∧
    (∀ p n, h.prev e = some p → h.next e = some n → p ≠ n) := by
  obtain ⟨xs, ys, ho⟩ := hs.split hl
  have hst : Strand h l (xs ++ e :: ys) := ho ▸ hs.strand l
  have hnd : (xs ++ e :: ys).Nodup := ho ▸ hs.nodup l
  have hexy : e ∉ xs ++ ys := (List.nodup_middle.mp hnd).notMem
  have hdis : xs.Disjoint (e :: ys) := List.disjoint_of_nodup_append hnd
  rw [hst.links.1, hst.links.2]
  refine ⟨fun n hn => ?_, fun p hp => ?_, fun p n hp hn => ?_⟩
  · have hmem := List.mem_of_mem_head? hn
    exact ⟨fun hne => hexy (by simp [← hne, hmem]), (hs.list n l).mpr (by simp [ho, hmem])⟩
  · have hmem := List.mem_of_getLast? hp
    exact ⟨fun hpe => hexy (by simp [← hpe, hmem]), (hs.list p l).mpr (by simp [ho, hmem])⟩
  · rintro rfl
    exact hdis (List.mem_of_getLast? hp) (List.mem_cons_of_mem _ (List.mem_of_mem_head? hn))

/-- Nothing is selected at the beginning. -/
theorem selectionOk_fresh : SelectionOk (Heap.fresh : Heap E L) := by
  intro l e he
  simp [Heap.fresh] at he

section Selection

variable [DecidableEq E] [DecidableEq L]

/-- **A removal keeps the selections in order exactly when it hands over**, also when the
entry is put into a list right after. -/
theorem selectionOk_of_rem (hs : Shape h order) (hok : SelectionOk h)
    (hselect : h'.select = (Entry.rem h e).select)
    (hsel : h'.selection = (Entry.rem h e).selection)
    (hlist : h'.list = update (Entry.rem h e).list e back) :
    SelectionOk h' ↔ HandsOver h e back := by
  simp only [SelectionOk]
  rw [hselect, hsel, hlist]
  rcases hl : h.list e with _ | l
  · -- nothing is removed
    have hrem : Entry.rem h e = h := by
      rw [← Entry.release_eq, Entry.release_of_free hl]
    rw [hrem]
    refine iff_of_true (fun l' x hx => ?_) (fun l' hl' => by simp [hl] at hl')
    obtain ⟨hxl, hxs⟩ := hok l' x hx
    have hxe : x ≠ e := fun hxe => by simp [hxe, hl] at hxl
    exact ⟨by rwa [Function.update_of_ne hxe], hxs⟩
  · obtain ⟨hnext, hprev, hpn⟩ := hs.neighbours hl
    have hne : h.next e ≠ some e := fun hn => (hnext e hn).1 rfl
    rw [Entry.rem_eq hl hne]
    simp only [HandsOver]
    simp only [Function.update_idem]
    simp only [SelectionOk] at hok
    rcases hse : h.select e with _ | _
    · -- an entry that is not selected is the selection of no list
      simp only [Bool.false_eq_true, if_false]
      grind
    · rcases hn : h.next e with _ | n <;> rcases hp : h.prev e with _ | p <;>
        simp only [if_true, Option.or_none, Option.or_some, Option.getD_some]
      · -- the only member: the selection stays where it was
        grind
      · grind
      · grind
      · -- the flag goes to the next entry, the selection to the previous one
        obtain ⟨hpe, hpl⟩ := hprev p hp
        constructor
        · rintro hok' l' hl' -
          obtain rfl : l = l' := Option.some.inj (hl.symm.trans hl')
          have hps := (hok' l p (by simp)).2
          rw [Function.update_of_ne (hpn p n hp hn)] at hps
          simp [hps]
        · intro hhand l' x hx
          have hps := (hhand l hl trivial).1 p n rfl rfl
          grind

/-! ### What the operations do to the marks -/

/-- `append` leaves the flags and selections as the removal it begins with left them: the
call of `sel` on the first entry comes before its list pointer is set and does nothing. -/
theorem Linklist.append_marks (h : Heap E L) (l : L) (e : E) :
    (Linklist.append h l e).select = (Entry.rem h e).select ∧
      (Linklist.append h l e).selection = (Entry.rem h e).selection ∧
      (Linklist.append h l e).list = update (Entry.rem h e).list e (some l) := by
  rw [Linklist.append_rem, Linklist.append_eq (Entry.rem_list_self h e)]
  exact ⟨rfl, rfl, rfl⟩

/-- `prepend` of a free entry touches no flag and no selection. -/
theorem Linklist.prepend_marks (he : h.list e = none) :
    (Linklist.prepend h l e).select = h.select ∧
      (Linklist.prepend h l e).selection = h.selection ∧
      (Linklist.prepend h l e).list = update h.list e (some l) := by
  rw [Linklist.prepend_eq he]
  exact ⟨rfl, rfl, rfl⟩

/-- `insert_after` leaves the flags and selections as the removal it begins with left
them. -/
theorem Linklist.insert_after_marks (h : Heap E L) (l : L) (e pos : E) :
    (Linklist.insert_after h l e pos).select = (Entry.rem h e).select ∧
      (Linklist.insert_after h l e pos).selection = (Entry.rem h e).selection ∧
      (Linklist.insert_after h l e pos).list = update (Entry.rem h e).list e (some l) := by
  unfold Linklist.insert_after
  rw [Entry.release_eq]
  rcases hn : (Entry.rem h e).next pos with _ | n <;> simp [hn]

/-- `insert` strictly inside the list leaves the flags and selections as the removal it
begins with left them. -/
theorem Linklist.insert_marks {pos : ℤ} (h1 : 1 < pos) (h2 : pos < h.length l)
    (hins : Linklist.insert h l e pos = some h') :
    h'.select = (Entry.rem h e).select ∧ h'.selection = (Entry.rem h e).selection ∧
      h'.list = update (Entry.rem h e).list e (some l) := by
  simp only [Linklist.insert] at hins
  rw [if_neg (by omega), if_neg (by omega), Entry.release_eq] at hins
  rcases hp : Linklist.pick (Entry.rem h e) l pos with _ | (_ | ptr) <;>
    simp only [hp, reduceCtorEq] at hins
  rcases hb : (Entry.rem h e).prev ptr with _ | before <;>
    simp only [hb, reduceCtorEq, Option.some.injEq] at hins
  subst hins
  exact ⟨rfl, rfl, rfl⟩

/-- `up` touches no flag, no selection and no list pointer. -/
theorem Entry.up_marks (h : Heap E L) (e : E) : (Entry.up h e).2.select = h.select ∧
    (Entry.up h e).2.selection = h.selection ∧ (Entry.up h e).2.list = h.list := by
  simp only [Entry.up]
  rcases h.list e with _ | l <;> rcases h.prev e with _ | p <;> try exact ⟨rfl, rfl, rfl⟩
  dsimp only
  rcases h.prev p with _ | pp <;> rcases h.next e with _ | n <;>
    (repeat' split) <;> exact ⟨rfl, rfl, rfl⟩

/-- `down` touches no flag, no selection and no list pointer. -/
theorem Entry.down_marks (h : Heap E L) (e : E) : (Entry.down h e).2.select = h.select ∧
    (Entry.down h e).2.selection = h.selection ∧ (Entry.down h e).2.list = h.list := by
  simp only [Entry.down]
  rcases h.list e with _ | l <;> rcases h.next e with _ | n <;> try exact ⟨rfl, rfl, rfl⟩
  dsimp only
  rcases h.next n with _ | nn <;> rcases h.prev e with _ | p <;>
    (repeat' split) <;> exact ⟨rfl, rfl, rfl⟩

omit [DecidableEq E] [DecidableEq L] in
/-- `moveup` and `movedown` leave the selections in order: what they apply to the entry at a
position touches no flag, no selection and no list pointer. -/
theorem selectionOk_of_pick {f : E → Bool × Heap E L} {pos : ℤ} {r : Bool × Heap E L}
    (hok : SelectionOk h) (hf : ∀ e, (f e).2.select = h.select ∧
      (f e).2.selection = h.selection ∧ (f e).2.list = h.list)
    (hr : (Linklist.pick h l pos).map (fun
      | some p => f p
      | none => (false, h)) = some r) : SelectionOk r.2 := by
  obtain ⟨p, -, hp⟩ := Option.map_eq_some_iff.mp hr
  cases p with
  | none => exact hp ▸ hok
  | some e =>
      obtain ⟨hselect, hsel, hlist⟩ := hf e
      exact hp ▸ (selectionOk_congr hselect hsel hlist).mpr hok

/-- Detaching for a move touches no flag, no selection and no list pointer. -/
theorem Entry.detach_marks (h : Heap E L) (e : E) (l : L) :
    (Entry.detach h e l).select = h.select ∧ (Entry.detach h e l).selection = h.selection ∧
      (Entry.detach h e l).list = h.list := by
  simp only [Entry.detach]
  rcases hn : h.next e with _ | n <;> rcases hp : h.prev e with _ | p <;> dsimp only <;>
    (repeat' split) <;> simp_all

/-- Attaching after a move touches no flag, no selection and no list pointer. -/
theorem Entry.attach_marks {mypos pos : ℤ} {displaced : Option E}
    (hatt : Entry.attach h e l mypos pos displaced = some h') :
    h'.select = h.select ∧ h'.selection = h.selection ∧ h'.list = h.list := by
  simp only [Entry.attach] at hatt
  split_ifs at hatt
  · rcases hlast : h.last l with _ | last <;> simp only [hlast, reduceCtorEq] at hatt
    obtain rfl := Option.some.inj hatt
    exact ⟨rfl, rfl, rfl⟩
  · rcases hfirst : h.first l with _ | first <;> simp only [hfirst, reduceCtorEq] at hatt
    obtain rfl := Option.some.inj hatt
    exact ⟨rfl, rfl, rfl⟩
  · rcases displaced with _ | d
    · simp at hatt
    · obtain rfl := Option.some.inj hatt
      rcases h.prev d with _ | p <;> simp
  · rcases displaced with _ | d
    · simp at hatt
    · obtain rfl := Option.some.inj hatt
      rcases h.next d with _ | n <;> simp
  · obtain rfl := Option.some.inj hatt
    exact ⟨rfl, rfl, rfl⟩

/-- `move` touches no flag, no selection and no list pointer. -/
theorem Entry.move_marks {pos : ℤ} {moved : Bool} (hmove : Entry.move h e pos = some (moved, h')) :
    h'.select = h.select ∧ h'.selection = h.selection ∧ h'.list = h.list := by
  simp only [Entry.move] at hmove
  rcases hl : h.list e with _ | l <;> simp only [hl] at hmove
  · obtain ⟨-, rfl⟩ := Prod.mk.inj (Option.some.inj hmove)
    exact ⟨rfl, rfl, rfl⟩
  · obtain ⟨mypos, -, hmove⟩ := Option.bind_eq_some_iff.mp hmove
    split_ifs at hmove
    · obtain ⟨-, rfl⟩ := Prod.mk.inj (Option.some.inj hmove)
      exact ⟨rfl, rfl, rfl⟩
    · obtain ⟨d, -, hmove⟩ := Option.bind_eq_some_iff.mp hmove
      obtain ⟨h'', hatt, hpair⟩ := Option.map_eq_some_iff.mp hmove
      obtain ⟨-, rfl⟩ := Prod.mk.inj hpair
      have hd := Entry.detach_marks h e l
      have ha := Entry.attach_marks hatt
      exact ⟨ha.1.trans hd.1, ha.2.1.trans hd.2.1, ha.2.2.trans hd.2.2⟩

/-! ### Runs -/

/-- `prepend` keeps the selections in order. -/
theorem Shape.selectionOk_prepend (hs : Shape h order) (hok : SelectionOk h) (l : L) (e : E) :
    SelectionOk (Linklist.prepend h l e) := by
  rcases he : h.list e with _ | l'
  · obtain ⟨hselect, hsel, hlist⟩ := Linklist.prepend_marks (l := l) he
    have hrem : Entry.rem h e = h := by rw [← Entry.release_eq, Entry.release_of_free he]
    have hlist' : (Linklist.prepend h l e).list = update (Entry.rem h e).list e (some l) := by
      rw [hlist, hrem]
    refine (selectionOk_of_rem hs hok ?_ ?_ hlist').mpr fun l' hl' => ?_
    · rw [hselect, hrem]
    · rw [hsel, hrem]
    · simp [he] at hl'
  · rw [Linklist.prepend_listed he]
    exact hok

/-- A removal keeps the selections in order exactly when it hands over. -/
theorem Shape.selectionOk_rem (hs : Shape h order) (hok : SelectionOk h) (e : E) :
    SelectionOk (Entry.rem h e) ↔ HandsOver h e none := by
  refine selectionOk_of_rem hs hok rfl rfl ?_
  rw [← Entry.rem_list_self h e, Function.update_eq_self]

/-- `Entry::sel(true)` keeps the selections in order. -/
theorem selectionOk_sel (hok : SelectionOk h) (e : E) : SelectionOk (Entry.sel h e true) := by
  simp only [Entry.sel]
  rcases hl : h.list e with _ | l
  · exact hok
  · intro l' x hx
    simp only [Function.update_self, if_true] at hx ⊢
    by_cases hl' : l' = l
    · subst hl'
      rw [Function.update_self, Option.some.injEq] at hx
      subst hx
      exact ⟨hl, Function.update_self ..⟩
    · rw [Function.update_of_ne hl'] at hx
      obtain ⟨hxl, hxs⟩ := hok l' x hx
      have hxe : x ≠ e := by
        rintro rfl
        exact hl' (Option.some.inj (hxl.symm.trans hl))
      exact ⟨hxl, by rwa [Function.update_of_ne hxe]⟩

/-- `sel(0)` keeps the selections in order. -/
theorem Shape.selectionOk_deselect (hs : Shape h order) (hok : SelectionOk h)
    (hsel : Linklist.sel h l 0 = some h') : SelectionOk h' := by
  obtain rfl := Option.some.inj ((hs.deselect l).symm.trans hsel)
  split
  · exact hok
  · intro l' x hx
    have hl' : l' ≠ l := by
      rintro rfl
      simp at hx
    simp only [Function.update_of_ne hl'] at hx
    obtain ⟨hxl, hxs⟩ := hok l' x hx
    have hxo : x ∉ order l := by
      intro hxo
      exact hl' (Option.some.inj (hxl.symm.trans ((hs.list x l).mpr hxo)))
    exact ⟨hxl, by simp [hxo, hxs]⟩

/-- **One operation** keeps the selections in order exactly when what it removes hands its
selection over. -/
theorem Shape.selectionOk_exec (hs : Shape h order) (hok : SelectionOk h) {op : ListOp E L}
    (hexec : op.exec h = some h') : SelectionOk h' ↔ op.Keeps h := by
  cases op with
  | append l addr =>
      obtain rfl := Option.some.inj hexec
      obtain ⟨hselect, hsel, hlist⟩ := Linklist.append_marks h l addr
      exact selectionOk_of_rem hs hok hselect hsel hlist
  | prepend l addr =>
      obtain rfl := Option.some.inj hexec
      exact iff_of_true (hs.selectionOk_prepend hok l addr) trivial
  | insert l addr pos =>
      by_cases h1 : h.length l ≤ pos
      · obtain rfl := Option.some.inj ((if_pos h1).symm.trans hexec)
        obtain ⟨hselect, hsel, hlist⟩ := Linklist.append_marks h l addr
        simp only [ListOp.Keeps, h1, true_or, forall_const]
        exact selectionOk_of_rem hs hok hselect hsel hlist
      · by_cases h2 : pos ≤ 1
        · obtain rfl := Option.some.inj (((if_neg h1).trans (if_pos h2)).symm.trans hexec)
          refine iff_of_true (hs.selectionOk_prepend hok l addr) fun hpos => ?_
          omega
        · obtain ⟨hselect, hsel, hlist⟩ :=
            Linklist.insert_marks (by omega) (by omega) hexec
          simp only [ListOp.Keeps, show 1 < pos by omega, or_true, forall_const]
          exact selectionOk_of_rem hs hok hselect hsel hlist
  | insert_after l addr pos =>
      obtain rfl := Option.some.inj hexec
      obtain ⟨hselect, hsel, hlist⟩ := Linklist.insert_after_marks h l addr pos
      exact selectionOk_of_rem hs hok hselect hsel hlist
  | rem e =>
      obtain rfl := Option.some.inj hexec
      exact hs.selectionOk_rem hok e
  | remAt l pos =>
      obtain ⟨p, hp, rfl⟩ := Option.map_eq_some_iff.mp hexec
      cases p with
      | none => exact iff_of_true hok fun e he => by simp [hp] at he
      | some e =>
          refine (hs.selectionOk_rem hok e).trans ⟨fun hh e' he' => ?_, fun hh => hh e hp⟩
          obtain rfl : e = e' := by simpa [hp] using he'
          exact hh
  | up e =>
      obtain rfl := Option.some.inj hexec
      obtain ⟨hselect, hsel, hlist⟩ := Entry.up_marks h e
      exact iff_of_true ((selectionOk_congr hselect hsel hlist).mpr hok) trivial
  | down e =>
      obtain rfl := Option.some.inj hexec
      obtain ⟨hselect, hsel, hlist⟩ := Entry.down_marks h e
      exact iff_of_true ((selectionOk_congr hselect hsel hlist).mpr hok) trivial
  | moveup l pos =>
      obtain ⟨⟨moved, h'⟩, hmove, rfl⟩ := Option.map_eq_some_iff.mp hexec
      exact iff_of_true (selectionOk_of_pick hok (Entry.up_marks h) hmove) trivial
  | movedown l pos =>
      obtain ⟨⟨moved, h'⟩, hmove, rfl⟩ := Option.map_eq_some_iff.mp hexec
      exact iff_of_true (selectionOk_of_pick hok (Entry.down_marks h) hmove) trivial
  | moveto l num pos =>
      obtain ⟨⟨moved, h'⟩, hmove, rfl⟩ := Option.map_eq_some_iff.mp hexec
      obtain ⟨p, -, hp⟩ := Option.bind_eq_some_iff.mp hmove
      refine iff_of_true ?_ trivial
      cases p with
      | none =>
          obtain ⟨-, rfl⟩ := Prod.mk.inj (Option.some.inj hp)
          exact hok
      | some e =>
          obtain ⟨hselect, hsel, hlist⟩ := Entry.move_marks hp
          exact (selectionOk_congr hselect hsel hlist).mpr hok
  | sel e =>
      obtain rfl := Option.some.inj hexec
      exact iff_of_true (selectionOk_sel hok e) trivial
  | deselect l => exact iff_of_true (hs.selectionOk_deselect hok hexec) trivial

/-- Under the condition the selections stay in order. -/
theorem selection_invariant : Invariant ((listSystem E L).restrict fun h op => op.Keeps h)
    fun h => (∃ order, Shape h order) ∧ SelectionOk h where
  init := by
    rintro h rfl
    exact ⟨⟨_, Shape.fresh⟩, selectionOk_fresh⟩
  step := by
    rintro h op h' ⟨⟨order, hs⟩, hok⟩ ⟨hkeeps, hop, hexec⟩
    exact ⟨shape_invariant.step h op h' ⟨order, hs⟩ ⟨hop, hexec⟩,
      (hs.selectionOk_exec hok hexec).mpr hkeeps⟩

/-- **Selections over whole runs.** In every run whose removals hand the selection over, the
selection of a list is a null pointer or a selected member of that list, so `selected()`
returns no entry that was removed. A further operation keeps it so if and only if it hands
over as well. -/
theorem selection_runs (hr : Reachable ((listSystem E L).restrict fun h op => op.Keeps h) h) :
    (∀ l e, h.selection l = some e → h.list e = some l ∧ h.select e = true) ∧
      (∀ l e, Linklist.selected h l = some e → h.list e = some l) ∧
      ∀ (op : ListOp E L) (h' : Heap E L), op.Admissible h → op.exec h = some h' →
        (SelectionOk h' ↔ op.Keeps h) := by
  obtain ⟨⟨order, hs⟩, hok⟩ := selection_invariant.holds hr
  refine ⟨hok, fun l e he => ?_, fun op h' _ hexec => hs.selectionOk_exec hok hexec⟩
  simp only [Linklist.selected] at he
  rcases hf : h.first l with _ | f <;> simp only [hf, reduceCtorEq] at he
  exact (hok l e he).1

end Selection

/-- Two entries, the first one selected and removed: the second one is the selection. -/
theorem selection_runs_inherit :
    let h : Heap ℕ Unit := Entry.rem
      (Entry.sel (Linklist.append (Linklist.append Heap.fresh () 0) () 1) 0 true) 0
    Linklist.selected h () = some 1 ∧ h.list 1 = some () := by
  refine ⟨rfl, (selection_runs ?_).2.1 () 1 rfl⟩
  refine .step (a := .rem 0) (.step (a := .sel 0) (.step (a := .append () 1)
    (.step (a := .append () 0) (.init rfl) ⟨?_, trivial, rfl⟩) ⟨?_, trivial, rfl⟩)
    ⟨trivial, trivial, rfl⟩) ⟨?_, trivial, rfl⟩
  · exact fun _ hl => nomatch hl
  · exact fun _ hl => nomatch hl
  · exact fun _ _ _ => ⟨fun _ _ hp => (nomatch hp), fun _ hn => (nomatch hn)⟩

/-- **A dangling selection.** The sole member of a list is selected and removed, and another
entry is appended: `selected()` returns the entry that was removed. -/
theorem selected_dangling :
    ∃ h : Heap ℕ Unit, Reachable (listSystem ℕ Unit) h ∧ ¬ SelectionOk h ∧
      Linklist.selected h () = some 0 ∧ h.list 0 = none := by
  refine ⟨_, .step (a := .append () 1) (.step (a := .rem 0) (.step (a := .sel 0)
    (.step (a := .append () 0) (.init rfl) ⟨trivial, rfl⟩) ⟨trivial, rfl⟩) ⟨trivial, rfl⟩)
    ⟨trivial, rfl⟩, ?_, rfl, rfl⟩
  exact fun hok => nomatch (hok () 0 rfl).1

end FreeJ
