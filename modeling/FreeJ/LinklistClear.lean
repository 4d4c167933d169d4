import FreeJ.LinklistEdits

/-!
# Clearing a Linked List

`Linklist::clear` discards the pointers stored in the list, but the entries that were in it keep
theirs: they still name the list, and each other as neighbours. `Entry::rem`, which the
destructor calls and `append` and `insert_after` begin with, trusts these and takes the entry out
of a list that it is not in.

An entry is stale when it names a list that does not reach it. This module proves that the lists
stay what they are as long as no stale entry is removed or inserted.

## Main results

* `Cleared`: forgetting the stale entries, every list is a sequence.
* `clear_detaches`: in every run without such an operation the walks of every list agree with
  each other and with its length, and only operations on a list or on its members change it.
-/

namespace FreeJ

open Function (update)
open Links Transition

variable {E L : Type*}

/-- The operations on lists that may be cleared. `rem` is also what the destructor of an entry
does, and `create` is an entry constructed where there is none. -/
inductive ClearOp (E L : Type*)
  | append (l : L) (addr : E)
  | prepend (l : L) (addr : E)
  | insert_after (l : L) (addr pos : E)
  | rem (e : E)
  | create (e : E)
  | clear (l : L)

/-- The entry is met on the way from the first entry of the list. -/
def OnWalk (h : Heap E L) (l : L) (e : E) : Prop :=
  ∃ zs, Walk h.next (h.first l) zs ∧ e ∈ zs

/-- The entry names a list that does not reach it. -/
def Stale (h : Heap E L) (e : E) : Prop := ∃ l, h.list e = some l ∧ ¬ OnWalk h l e

/-- What an operation may be applied to: `insert_after` is given another entry that names the
list, `create` one that names none. -/
def ClearOp.Admissible (h : Heap E L) : ClearOp E L → Prop
  | .insert_after l addr pos => h.list pos = some l ∧ pos ≠ addr
  | .create e => h.list e = none
  | _ => True

/-- No stale entry is removed or inserted, or inserted behind. (`prepend` refuses it.) -/
def ClearOp.Detached (h : Heap E L) : ClearOp E L → Prop
  | .append _ addr => ¬ Stale h addr
  | .insert_after _ addr pos => ¬ Stale h addr ∧ ¬ Stale h pos
  | .rem e => ¬ Stale h e
  | _ => True

/-- The operation is on an entry that is not on the walk of the list, and it is not told to
put it there. -/
def ClearOp.Apart (h : Heap E L) (l : L) : ClearOp E L → Prop
  | .append m addr | .prepend m addr | .insert_after m addr _ => m ≠ l ∧ ¬ OnWalk h l addr
  | .rem e => ¬ OnWalk h l e
  | .create _ => True
  | .clear m => m ≠ l

/-- The list object is the same in both heaps. -/
structure SameList (h h' : Heap E L) (l : L) : Prop where
  first : h'.first l = h.first l
  last : h'.last l = h.last l
  length : h'.length l = h.length l
  selection : h'.selection l = h.selection l

theorem SameList.refl (h : Heap E L) (l : L) : SameList h h l := ⟨rfl, rfl, rfl, rfl⟩

theorem SameList.trans {h h' h'' : Heap E L} {l : L} (h1 : SameList h h' l)
    (h2 : SameList h' h'' l) : SameList h h'' l :=
  ⟨h2.first.trans h1.first, h2.last.trans h1.last, h2.length.trans h1.length,
    h2.selection.trans h1.selection⟩

section Forget

variable [DecidableEq E]

/-- The heap with some entries as if they were in no list. -/
def Heap.forget (h : Heap E L) (S : List E) : Heap E L :=
  { h with
    next := fun e => if e ∈ S then none else h.next e
    prev := fun e => if e ∈ S then none else h.prev e
    list := fun e => if e ∈ S then none else h.list e }

variable {h h' : Heap E L} {S : List E} {order : L → List E} {l m : L} {e : E}

/-- Forgetting commutes with an update elsewhere. -/
theorem forget_update {α : Type*} {f : E → Option α} {v : Option α} (he : e ∉ S) :
    update (fun x => if x ∈ S then none else f x) e v =
      fun x => if x ∈ S then none else update f e v x := by
  funext x
  by_cases hx : x = e
  · subst hx
    simp [he]
  · simp only [Function.update_of_ne hx]

theorem forget_relink {f : E → Option E} {p v : Option E} (hp : ∀ x, p = some x → x ∉ S) :
    relink (fun x => if x ∈ S then none else f x) p v =
      fun x => if x ∈ S then none else relink f p v x := by
  cases p with
  | none => rfl
  | some x => exact forget_update (hp x rfl)

/-- The entries of every list, the stale ones forgotten. -/
structure Cleared (h : Heap E L) (S : List E) (order : L → List E) : Prop where
  shape : Shape (h.forget S) order
  stale : ∀ e ∈ S, h.list e ≠ none

/-- A member of a list is not stale. -/
theorem Cleared.notMem (hc : Cleared h S order) (he : e ∈ order l) : e ∉ S := by
  intro hS
  have hl := (hc.shape.list e l).mpr he
  simp [Heap.forget, hS] at hl

/-- A member of a list names it. -/
theorem Cleared.list (hc : Cleared h S order) (he : e ∈ order l) : h.list e = some l := by
  have hl := (hc.shape.list e l).mpr he
  simpa [Heap.forget, hc.notMem he] using hl

/-- **Every list by itself is a sequence.** -/
theorem Cleared.linked (hc : Cleared h S order) (l : L) : Linked h l (order l) := by
  have hl := hc.shape.linked l
  refine ⟨⟨?_, hl.strand.first, hl.strand.last⟩, hl.nodup, hl.length, fun e => hc.list⟩
  refine (chain_congr fun e he => ?_).mpr hl.strand.chain
  simp [Heap.forget, hc.notMem he]

theorem Cleared.onWalk_iff (hc : Cleared h S order) : OnWalk h l e ↔ e ∈ order l := by
  have hw := (hc.linked l).strand.walk_next
  constructor
  · rintro ⟨zs, hz, he⟩
    rwa [hw.unique hz]
  · exact fun he => ⟨_, hw, he⟩

/-- The stale entries are those forgotten. -/
theorem Cleared.stale_iff (hc : Cleared h S order) : Stale h e ↔ e ∈ S := by
  constructor
  · rintro ⟨l, hl, hnot⟩
    by_contra hS
    refine hnot (hc.onWalk_iff.mpr ((hc.shape.list e l).mp ?_))
    simpa [Heap.forget, hS] using hl
  · intro hS
    obtain ⟨l, hl⟩ := Option.ne_none_iff_exists'.mp (hc.stale e hS)
    exact ⟨l, hl, fun hon => hc.notMem (hc.onWalk_iff.mp hon) hS⟩

/-- An entry that names a list and is not stale is a member. -/
theorem Cleared.mem_of_list (hc : Cleared h S order) (he : h.list e = some l) (hS : e ∉ S) :
    e ∈ order l := by
  refine (hc.shape.list e l).mp ?_
  simpa [Heap.forget, hS] using he

end Forget

section Operations

variable [DecidableEq E] [DecidableEq L]

/-- What the code does for an operation; `none` when it does not end. -/
def ClearOp.exec (h : Heap E L) : ClearOp E L → Option (Heap E L)
  | .append l addr => some (Linklist.append h l addr)
  | .prepend l addr => some (Linklist.prepend h l addr)
  | .insert_after l addr pos => some (Linklist.insert_after h l addr pos)
  | .rem e => some (Entry.rem h e)
  | .create e => some (Entry.construct h e)
  | .clear l => Linklist.clear h l

/-- Operations in any order, starting from any well-formed lists. -/
def clearSystem (E L : Type*) [DecidableEq E] [DecidableEq L] :
    System (Heap E L) (ClearOp E L) where
  init := WellFormed
  step h op h' := op.Admissible h ∧ op.exec h = some h'

variable {h h' : Heap E L} {S : List E} {order : L → List E} {l m : L} {e : E} {xs ys : List E}

/-! ### Removal -/

theorem forget_cut (he : e ∉ S) (hn : ∀ x, h.next e = some x → x ∉ S)
    (hp : ∀ x, h.prev e = some x → x ∉ S) : (h.forget S).cut l e = (h.cut l e).forget S := by
  simp only [Heap.cut, Heap.forget, if_neg he]
  rw [forget_relink hp, forget_relink hn, forget_update he, forget_update he]

omit [DecidableEq L] in
/-- The neighbours of a member are members. -/
theorem Cleared.neighbours (hc : Cleared h S order) (he : e ∈ order l) :
    h.next e ≠ some e ∧ (∀ x, h.next e = some x → x ∈ order l) ∧
      ∀ x, h.prev e = some x → x ∈ order l := by
  have hl := hc.linked l
  obtain ⟨xs, ys, ho⟩ := List.append_of_mem he
  rw [ho] at hl ⊢
  refine ⟨hl.strand.next_ne hl.nodup, fun x hx => ?_, fun x hx => ?_⟩
  · rw [hl.strand.links.1] at hx
    simp [List.mem_of_mem_head? hx]
  · rw [hl.strand.links.2] at hx
    simp [List.mem_of_getLast? hx]

/-- Removing an entry that is not stale, the stale ones forgotten. -/
theorem Cleared.rem_forget (hc : Cleared h S order) (he : e ∉ S) :
    Entry.rem (h.forget S) e = (Entry.rem h e).forget S := by
  cases hm : h.list e with
  | none =>
      have hm' : (h.forget S).list e = none := by simp [Heap.forget, hm]
      simp only [Entry.rem]
      rw [hm, hm']
  | some m =>
      have hm' : (h.forget S).list e = some m := by simp [Heap.forget, he, hm]
      obtain ⟨hne, hn, hp⟩ := hc.neighbours (hc.mem_of_list hm he)
      have hnext : (h.forget S).next e = h.next e := if_neg he
      have hprev : (h.forget S).prev e = h.prev e := if_neg he
      rw [Entry.rem_eq hm hne, Entry.rem_eq hm' (by rwa [hnext]), hnext, hprev,
        forget_cut he (fun x hx => hc.notMem (hn x hx)) fun x hx => hc.notMem (hp x hx)]
      simp only [Heap.forget, forget_update he]
      rfl

theorem Entry.remNext_frame (h : Heap E L) (e : E) (l : L) :
    (Entry.remNext h e l).list = h.list ∧ (Entry.remNext h e l).length = h.length := by
  simp only [Entry.remNext]
  split
  · split <;> exact ⟨rfl, rfl⟩
  · exact ⟨rfl, rfl⟩

theorem Entry.remPrev_frame (h : Heap E L) (e : E) (l : L) (lastone : Bool) :
    (Entry.remPrev h e l lastone).list = h.list ∧
      (Entry.remPrev h e l lastone).length = h.length := by
  simp only [Entry.remPrev]
  split
  · split
    · split <;> exact ⟨rfl, rfl⟩
    · exact ⟨rfl, rfl⟩
  · exact ⟨rfl, rfl⟩

/-- `rem` takes no other entry out of its list. -/
theorem Entry.rem_list_of_ne {x : E} (hx : x ≠ e) : (Entry.rem h e).list x = h.list x := by
  simp only [Entry.rem]
  split
  · rfl
  · simp only [Function.update_of_ne hx, (Entry.remPrev_frame _ _ _ _).1,
      (Entry.remNext_frame _ _ _).1]

/-- `rem` makes the list that an entry names one shorter, whether or not the entry is in it. -/
theorem Entry.length_rem (he : h.list e = some l) : (Entry.rem h e).length l = h.length l - 1 := by
  simp only [Entry.rem]
  rw [he]
  simp only [Function.update_self, (Entry.remPrev_frame _ _ _ _).2, (Entry.remNext_frame _ _ _).2]

theorem Cleared.rem (hc : Cleared h S order) (he : e ∉ S) :
    Cleared (Entry.rem h e) S fun l => (order l).erase e := by
  refine ⟨hc.rem_forget he ▸ hc.shape.rem e, fun x hx => ?_⟩
  rw [Entry.rem_list_of_ne (ne_of_mem_of_not_mem hx he)]
  exact hc.stale x hx

/-- Removing an entry leaves the lists alone that it is not in. -/
theorem Cleared.sameList_rem (hc : Cleared h S order) (he : e ∉ S) (hl : e ∉ order l) :
    SameList h (Entry.rem h e) l := by
  cases hm : h.list e with
  | none =>
      have hrem : Entry.rem h e = h := by
        simp only [Entry.rem]
        rw [hm]
      rw [hrem]
      exact SameList.refl h l
  | some m =>
      have hmem := hc.mem_of_list hm he
      have hlm : l ≠ m := by
        rintro rfl
        exact hl hmem
      rw [Entry.rem_eq hm (hc.neighbours hmem).1]
      refine ⟨setEnd_of_ne hlm, setEnd_of_ne hlm, Function.update_of_ne hlm _ _, ?_⟩
      simp only
      split
      · cases (h.prev e).or (h.next e) with
        | none => rfl
        | some x => exact Function.update_of_ne hlm _ _
      · rfl

/-! ### Insertion -/

theorem forget_join {before after : Option E} (he : e ∉ S) (hb : ∀ x, before = some x → x ∉ S)
    (ha : ∀ x, after = some x → x ∉ S) :
    (h.forget S).join l before e after = (h.join l before e after).forget S := by
  simp only [Heap.join, Heap.forget]
  rw [forget_relink hb, forget_relink ha, forget_update he, forget_update he]

/-- Joining in an entry that is in no list. -/
theorem Cleared.join (hc : Cleared h S order) (ho : order l = xs ++ ys) (he : h.list e = none) :
    Cleared { h.join l xs.getLast? e ys.head? with
      list := update h.list e (some l)
      length := update h.length l (h.length l + 1) } S (update order l (xs ++ e :: ys)) := by
  have heS : e ∉ S := fun hS => hc.stale e hS he
  have he' : (h.forget S).list e = none := by simp [Heap.forget, he]
  have hxs : ∀ x, xs.getLast? = some x → x ∉ S := fun x hx =>
    hc.notMem (l := l) (by simp [ho, List.mem_of_getLast? hx])
  have hys : ∀ x, ys.head? = some x → x ∉ S := fun x hx =>
    hc.notMem (l := l) (by simp [ho, List.mem_of_mem_head? hx])
  refine ⟨?_, fun x hx => ?_⟩
  · have hj := hc.shape.join ho he'
    rw [forget_join heS hxs hys] at hj
    simp only [Heap.forget, forget_update heS] at hj ⊢
    exact hj
  · simp only [Function.update_of_ne (ne_of_mem_of_not_mem hx heS)]
    exact hc.stale x hx

/-- Joining an entry into one list leaves the others alone. -/
theorem sameList_join {before after : Option E} {list : E → Option L} {n : ℤ} (hlm : l ≠ m) :
    SameList h { h.join m before e after with list := list, length := update h.length m n } l :=
  ⟨setEnd_of_ne hlm, setEnd_of_ne hlm, Function.update_of_ne hlm _ _, rfl⟩

/-- `append` of an entry that is not stale. -/
theorem Cleared.append (hc : Cleared h S order) (l : L) (he : e ∉ S) :
    Cleared (Linklist.append h l e) S
      (update (fun l => (order l).erase e) l ((order l).erase e ++ [e])) := by
  have hr := hc.rem he
  have happ : (order l).erase e = (order l).erase e ++ [] := by simp
  rw [Linklist.append_rem, Linklist.append_eq (Entry.rem_list_self h e),
    (hr.linked l).strand.last]
  exact hr.join happ (Entry.rem_list_self h e)

/-- `prepend` refuses an entry that names a list, stale or not. -/
theorem Cleared.prepend (hc : Cleared h S order) (l : L) (e : E) :
    ∃ order', Cleared (Linklist.prepend h l e) S order' := by
  cases he : h.list e with
  | none =>
      rw [Linklist.prepend_eq he, (hc.linked l).strand.first]
      have hsplit : order l = [] ++ order l := rfl
      exact ⟨_, hc.join hsplit he⟩
  | some l' =>
      rw [Linklist.prepend_listed he]
      exact ⟨order, hc⟩

omit [DecidableEq L] in
/-- An entry in no list, not forgotten, has no neighbours. -/
theorem Cleared.next_of_free (hc : Cleared h S order) (he : h.list e = none) :
    h.next e = none ∧ h.prev e = none := by
  have heS : e ∉ S := fun hS => hc.stale e hS he
  have hfree := hc.shape.free e (by simp [Heap.forget, he])
  simpa [Heap.forget, heS] using hfree

/-- `insert_after` of an entry that is not stale, behind a member. -/
theorem Cleared.insert_after {pos : E} (hc : Cleared h S order) (he : e ∉ S)
    (hpos : pos ∈ order l) (hne : pos ≠ e) :
    ∃ order', Cleared (Linklist.insert_after h l e pos) S order' := by
  have hr := hc.rem he
  obtain ⟨us, vs, ho⟩ := List.append_of_mem ((List.mem_erase_of_ne hne).mpr hpos)
  have hfree := Entry.rem_list_self h e
  have hst : Strand (Entry.rem h e) l (us ++ pos :: vs) := ho ▸ (hr.linked l).strand
  have happ : us ++ pos :: vs = (us ++ [pos]) ++ vs := by simp
  have hj := hr.join (l := l) (ho.trans happ) hfree
  rw [Linklist.insert_after_rem,
    Linklist.insert_after_eq hfree hne.symm (hr.next_of_free hfree).1, hst.links.1]
  rw [List.getLast?_concat] at hj
  exact ⟨_, hj⟩

omit [DecidableEq L] in
/-- An entry constructed where there is none. -/
theorem Cleared.create (hc : Cleared h S order) (he : h.list e = none) :
    Cleared (Entry.construct h e) S order ∧ ∀ l, SameList h (Entry.construct h e) l := by
  have hlist : update h.list e none = h.list := Function.update_eq_self_iff.mpr he.symm
  have hnext : update h.next e none = h.next :=
    Function.update_eq_self_iff.mpr (hc.next_of_free he).1.symm
  have hprev : update h.prev e none = h.prev :=
    Function.update_eq_self_iff.mpr (hc.next_of_free he).2.symm
  simp only [Entry.construct, hlist, hnext, hprev]
  exact ⟨⟨hc.shape.of_selection _ _, hc.stale⟩, fun l => ⟨rfl, rfl, rfl, rfl⟩⟩

/-! ### Clearing -/

/-- **`clear`** empties the list; its members are stale from then on. -/
theorem Cleared.clear (hc : Cleared h S order) (l : L) :
    ∃ h', Linklist.clear h l = some h' ∧ Cleared h' (S ++ order l) (update order l []) ∧
      ∀ m, l ≠ m → SameList h h' m := by
  have hsel := (hc.linked l).deselect
  obtain ⟨hd, hd_sel, hnext, hprev, hlist, hlen, hfirst, hlast, hselection⟩ :
      ∃ hd, Linklist.sel h l 0 = some hd ∧ hd.next = h.next ∧ hd.prev = h.prev ∧
        hd.list = h.list ∧ hd.length = h.length ∧ hd.first = h.first ∧ hd.last = h.last ∧
        ∀ m, l ≠ m → hd.selection m = h.selection m := by
    refine ⟨_, hsel, ?_⟩
    split
    · exact ⟨rfl, rfl, rfl, rfl, rfl, rfl, fun _ _ => rfl⟩
    · exact ⟨rfl, rfl, rfl, rfl, rfl, rfl, fun m hm => Function.update_of_ne hm.symm _ _⟩
  refine ⟨_, by simp only [Linklist.clear, hd_sel]; rfl, ⟨?_, fun e he => ?_⟩, fun m hm => ?_⟩
  · refine hc.shape.edit l ?_ (List.nodup_nil (α := E)) ?_ ?_ ?_ ?_ ?_ ?_ ?_
    · exact ⟨trivial, Function.update_self _ _ _, Function.update_self _ _ _⟩
    · intro m hm
      simp only [Heap.forget, Function.update_of_ne hm, hfirst]
    · intro m hm
      simp only [Heap.forget, Function.update_of_ne hm, hlast]
    · simp only [Heap.forget, hlen]
      rfl
    · intro e
      by_cases he : e ∈ order l
      · simp [Heap.forget, he]
      · simp [Heap.forget, he, hlist]
    · intro e he _
      simp [Heap.forget, he, hnext, hprev]
    · intro e he _
      simp [Heap.forget, he]
    · intro e he
      cases he
  · simp only [hlist]
    obtain he | he := List.mem_append.mp he
    · exact hc.stale e he
    · simp [hc.list he]
  · exact ⟨by simp only [Function.update_of_ne hm.symm, hfirst],
      by simp only [Function.update_of_ne hm.symm, hlast],
      by simp only [Function.update_of_ne hm.symm, hlen], hselection m hm⟩

/-! ### Runs -/

/-- **One operation** that is on no stale entry goes through; it changes no list that it is
apart from. -/
theorem Cleared.exec (hc : Cleared h S order) {op : ClearOp E L} (hop : op.Admissible h)
    (hdet : op.Detached h) :
    ∃ h' S' order', op.exec h = some h' ∧ Cleared h' S' order' ∧
      ∀ l, op.Apart h l → SameList h h' l := by
  have hstale : ∀ e, ¬ Stale h e → e ∉ S := fun e he => fun hS => he (hc.stale_iff.mpr hS)
  have hwalk : ∀ {l e}, ¬ OnWalk h l e → e ∉ order l := fun he hmem =>
    he (hc.onWalk_iff.mpr hmem)
  cases op with
  | append m addr =>
      have he := hstale addr hdet
      refine ⟨_, S, _, rfl, hc.append m he, fun l hl => ?_⟩
      rw [Linklist.append_rem, Linklist.append_eq (Entry.rem_list_self h addr)]
      exact (hc.sameList_rem he (hwalk hl.2)).trans (sameList_join hl.1.symm)
  | prepend m addr =>
      obtain ⟨order', hc'⟩ := hc.prepend m addr
      refine ⟨_, S, order', rfl, hc', fun l hl => ?_⟩
      cases he : h.list addr with
      | none =>
          rw [Linklist.prepend_eq he]
          exact sameList_join hl.1.symm
      | some m' =>
          rw [Linklist.prepend_listed he]
          exact SameList.refl h l
  | insert_after m addr pos =>
      have he := hstale addr hdet.1
      have hpos := hc.mem_of_list hop.1 (hstale pos hdet.2)
      obtain ⟨order', hc'⟩ := hc.insert_after he hpos hop.2
      refine ⟨_, S, order', rfl, hc', fun l hl => ?_⟩
      have hr := hc.rem he
      have hfree := Entry.rem_list_self h addr
      rw [Linklist.insert_after_rem,
        Linklist.insert_after_eq hfree hop.2.symm (hr.next_of_free hfree).1]
      exact (hc.sameList_rem he (hwalk hl.2)).trans (sameList_join hl.1.symm)
  | rem e =>
      have he := hstale e hdet
      exact ⟨_, S, _, rfl, hc.rem he, fun l hl => hc.sameList_rem he (hwalk hl)⟩
  | create e =>
      obtain ⟨hc', hsame⟩ := hc.create hop
      exact ⟨_, S, order, rfl, hc', fun l _ => hsame l⟩
  | clear m =>
      obtain ⟨h', hclear, hc', hsame⟩ := hc.clear m
      exact ⟨h', _, _, hclear, hc', fun l hl => hsame l hl⟩

/-- In every run without operations on stale entries the lists are sequences. -/
theorem cleared_invariant :
    Invariant ((clearSystem E L).restrict fun h op => op.Detached h)
      fun h => ∃ S order, Cleared h S order where
  init := by
    intro h hw
    obtain ⟨order, hs⟩ := wellFormed_iff_shape.mp hw
    have hforget : h.forget [] = h := by simp [Heap.forget]
    exact ⟨[], order, hforget ▸ hs, by simp⟩
  step := by
    rintro h op h' ⟨S, order, hc⟩ ⟨hdet, hop, hexec⟩
    obtain ⟨h'', S', order', heq, hc', -⟩ := hc.exec hop hdet
    obtain rfl : h' = h'' := Option.some.inj (hexec.symm.trans heq)
    exact ⟨S', order', hc'⟩

/-- In every list walking forward and walking backward meet the same entries in opposite
orders, as many as its length. -/
def Intact (h : Heap E L) : Prop :=
  ∀ l, ∃ zs, Walk h.next (h.first l) zs ∧ Walk h.prev (h.last l) zs.reverse ∧
    h.length l = zs.length

/-- **Clearing detaches, as long as no stale entry is removed or inserted.** In every state of
such a run the lists are intact, and an operation of that kind goes through and leaves the
lists alone that it is apart from. Removing a stale entry changes the list that it names. -/
theorem clear_detaches
    (hr : Reachable ((clearSystem E L).restrict fun h op => op.Detached h) h) :
    Intact h ∧
      (∀ op : ClearOp E L, op.Admissible h → op.Detached h → ∃ h', op.exec h = some h' ∧
        ∀ l, op.Apart h l → SameList h h' l) ∧
      ∀ e, Stale h e → ∃ l, ClearOp.Apart h l (.rem e) ∧ ¬ SameList h (Entry.rem h e) l := by
  obtain ⟨S, order, hc⟩ := cleared_invariant.holds hr
  refine ⟨fun l => ?_, fun op hop hdet => ?_, fun e he => ?_⟩
  · obtain ⟨hnext, hprev, hlen, -, -⟩ := linked_iff_walks.mp (hc.linked l)
    exact ⟨order l, hnext, hprev, hlen⟩
  · obtain ⟨h', -, -, heq, -, hsame⟩ := hc.exec hop hdet
    exact ⟨h', heq, hsame⟩
  · obtain ⟨l, hl, hnot⟩ := he
    refine ⟨l, hnot, fun hsame => ?_⟩
    have hlen := hsame.length
    rw [Entry.length_rem hl] at hlen
    omega

omit [DecidableEq E] [DecidableEq L] in
/-- The heap just constructed. -/
theorem wellFormed_fresh : WellFormed (Heap.fresh : Heap E L) :=
  wellFormed_iff_shape.mpr ⟨_, Shape.fresh⟩

/-- A list of one entry that is cleared and filled again. -/
theorem clear_detaches_refill :
    ∃ h : Heap ℕ Unit, Linklist.clear (Linklist.ofList [0]) () = some h ∧
      Intact (Linklist.append h () 1) := by
  refine ⟨_, rfl, (clear_detaches (.step (.step (.step (.init wellFormed_fresh)
    (a := .append () 0) ⟨?_, trivial, rfl⟩) (a := .clear ()) ⟨trivial, trivial, rfl⟩)
    (a := .append () 1) ⟨?_, trivial, rfl⟩)).1⟩
  · rintro ⟨l, hl, -⟩
    cases hl
  · rintro ⟨l, hl, -⟩
    cases hl

/-- **Entries keep their pointers.** An entry of a list that was cleared is destroyed, which
leaves the list with one entry less than none. -/
theorem clear_keeps_pointers :
    ∃ h : Heap ℕ Unit, Reachable (clearSystem ℕ Unit) h ∧ h.length () = -1 ∧ ¬ Intact h := by
  refine ⟨_, .step (.step (.step (.init wellFormed_fresh) (a := .append () 0) ⟨trivial, rfl⟩)
    (a := .clear ()) ⟨trivial, rfl⟩) (a := .rem 0) ⟨trivial, rfl⟩, rfl, fun hi => ?_⟩
  obtain ⟨zs, -, -, hlen⟩ := hi ()
  have hneg : (-1 : ℤ) = zs.length := hlen
  omega

end Operations

end FreeJ
