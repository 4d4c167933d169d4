import FreeJ.Linklist

/-!
# The Shape of the Linked List

What the pointer fields of a `Heap` say, read as plain lists. `Shape h order` holds when
every list `l` of the heap is, in its `next` and `prev` chains, its `first` and `last`, its
`length` and the back pointers of its members, the sequence `order l`. Each operation of
the container is then an edit of these sequences, and this module proves which one.

## Main results

* `Shape.pick`: the two-ended walk of `pick` is indexing from 1.
* `Shape.rem`, `Shape.append`, `Shape.prepend`, `Shape.insert_after`, `Shape.insert`,
  `Shape.up`, `Shape.down`, `Shape.move`: the operations edit the sequences in place and
  follow no null pointer.
-/

namespace FreeJ

open Function (update)
open Links

variable {E L : Type*} {h h' : Heap E L} {order : L → List E} {l : L} {e : E}
  {xs ys zs : List E}

/-- The chain of list `l`, from its `first` to its `last`, is `zs`. -/
structure Strand (h : Heap E L) (l : L) (zs : List E) : Prop where
  chain : Chain h.next h.prev none zs none
  first : h.first l = zs.head?
  last : h.last l = zs.getLast?

/-- The heap holds, in every list `l`, the sequence of entries `order l`. -/
structure Shape (h : Heap E L) (order : L → List E) : Prop where
  strand : ∀ l, Strand h l (order l)
  nodup : ∀ l, (order l).Nodup
  length : ∀ l, h.length l = (order l).length
  list : ∀ e l, h.list e = some l ↔ e ∈ order l
  free : ∀ e, h.list e = none → h.next e = none ∧ h.prev e = none

/-- The list `l` by itself, whatever the rest of the heap is like: its entries are `zs`, in
this order, and they point back to it. -/
structure Linked (h : Heap E L) (l : L) (zs : List E) : Prop where
  strand : Strand h l zs
  nodup : zs.Nodup
  length : h.length l = zs.length
  list : ∀ e ∈ zs, h.list e = some l

theorem Shape.linked (hs : Shape h order) (l : L) : Linked h l (order l) :=
  ⟨hs.strand l, hs.nodup l, hs.length l, fun e he => (hs.list e l).mpr he⟩

/-- A rearranged list, its entries pointing back to it as before. -/
theorem Linked.of_perm (hl : Linked h l xs) (hperm : zs.Perm xs) (hst : Strand h' l zs)
    (hlen : h'.length = h.length) (hlist : h'.list = h.list) : Linked h' l zs where
  strand := hst
  nodup := hperm.nodup_iff.mpr hl.nodup
  length := by rw [hlen, hl.length, hperm.length_eq]
  list x hx := by rw [hlist, hl.list x (hperm.mem_iff.mp hx)]

/-- Lists and entries just constructed: every sequence is empty. -/
theorem Shape.fresh : Shape (Heap.fresh : Heap E L) fun _ => [] where
  strand _ := ⟨trivial, rfl, rfl⟩
  nodup _ := List.nodup_nil
  length _ := rfl
  list _ _ := by simp [Heap.fresh]
  free _ _ := ⟨rfl, rfl⟩

/-- A heap with a single list. -/
theorem Shape.one {h : Heap E Unit} {order : Unit → List E} (hs : Shape h order)
    (ho : order () = zs) : Shape h fun _ => zs :=
  (show order = fun _ => zs from funext fun _ => ho) ▸ hs

/-- The links of a member, read off at its place in the sequence. -/
theorem Strand.links (hs : Strand h l (xs ++ e :: ys)) :
    h.next e = ys.head? ∧ h.prev e = xs.getLast? := by
  simpa using hs.chain.links_of_append

/-- An entry of a strand is not its own neighbour. -/
theorem Strand.next_ne (hs : Strand h l (xs ++ e :: ys)) (hnd : (xs ++ e :: ys).Nodup) :
    h.next e ≠ some e := by
  rw [hs.links.1]
  intro hh
  exact ((List.nodup_middle.mp hnd).notMem) (List.mem_append_right _ (List.mem_of_mem_head? hh))

/-- A strand is walked forward from `first`. -/
theorem Strand.walk_next (hs : Strand h l zs) : Walk h.next (h.first l) zs :=
  hs.first ▸ hs.chain.walk_next

/-- A strand is walked backward from `last`. -/
theorem Strand.walk_prev (hs : Strand h l zs) : Walk h.prev (h.last l) zs.reverse :=
  hs.last ▸ hs.chain.walk_prev

/-- An entry in a list is in its sequence, at some place. -/
theorem Shape.split (hs : Shape h order) (he : h.list e = some l) :
    ∃ xs ys, order l = xs ++ e :: ys :=
  List.append_of_mem ((hs.list e l).mp he)

/-- An entry in no list is in no sequence. -/
theorem Shape.notMem_of_free (hs : Shape h order) (he : h.list e = none) : e ∉ order l :=
  fun hmem => absurd (he.symm.trans ((hs.list e l).mpr hmem)) (by simp)

/-- **`pick` is indexing from 1**, whichever end its walk starts from, and it follows no
null pointer. -/
theorem Linked.pick (hl : Linked h l zs) (pos : ℤ) :
    Linklist.pick h l pos = some (if 1 ≤ pos then zs[(pos - 1).toNat]? else none) := by
  have hlen := hl.length
  simp only [Linklist.pick]
  by_cases h1 : pos < 1
  · rw [if_pos h1, if_neg (by omega)]
  · rw [if_neg h1, if_pos (show 1 ≤ pos by omega)]
    by_cases h2 : h.length l < pos
    · rw [if_pos h2, List.getElem?_eq_none (by omega)]
    · rw [if_neg h2]
      by_cases h3 : pos = 1
      · rw [if_pos h3, hl.strand.first, h3, List.head?_eq_getElem?]
        rfl
      · rw [if_neg h3]
        by_cases h4 : pos = h.length l
        · rw [if_pos h4, hl.strand.last, List.getLast?_eq_getElem?]
          congr 2
          omega
        · rw [if_neg h4]
          by_cases h5 : pos < (h.length l).tdiv 2
          · rw [if_pos h5, hl.strand.walk_next.follow_eq (by omega)]
          · rw [if_neg h5, hl.strand.walk_prev.follow_eq
              (by rw [List.length_reverse]; omega), List.getElem?_reverse (by omega)]
            congr 2
            omega

/-- A position in `1..length` is occupied, and `pick` finds who occupies it. -/
theorem Linked.pick_split (hl : Linked h l zs) {pos : ℤ} (h1 : 1 ≤ pos)
    (h2 : pos ≤ h.length l) :
    ∃ us d vs, zs = us ++ d :: vs ∧ (us.length : ℤ) = pos - 1 ∧
      Linklist.pick h l pos = some (some d) := by
  have hlen := hl.length
  have hlt : (pos - 1).toNat < zs.length := by omega
  have hget : zs[(pos - 1).toNat]? = some zs[(pos - 1).toNat] := List.getElem?_eq_getElem hlt
  obtain ⟨us, vs, heq, hus⟩ := exists_append_of_getElem? hget
  refine ⟨us, _, vs, heq, by omega, ?_⟩
  rw [hl.pick, if_pos h1, hget]

/-- Outside of `1..length` there is nothing to pick. -/
theorem Linked.pick_eq_none (hl : Linked h l zs) {pos : ℤ} (hpos : pos < 1 ∨ h.length l < pos) :
    Linklist.pick h l pos = some none := by
  have hlen := hl.length
  rw [hl.pick]
  split
  · rw [List.getElem?_eq_none (by omega)]
  · rfl

/-- `pick` in a heap all of whose lists are sequences. -/
theorem Shape.pick (hs : Shape h order) (l : L) (pos : ℤ) :
    Linklist.pick h l pos =
      some (if 1 ≤ pos then (order l)[(pos - 1).toNat]? else none) :=
  (hs.linked l).pick pos

/-- The loop of `search` along a walk. -/
theorem Linklist.searchFrom_eq {names : E → CString} {name : CString} {p : Option E} {k : ℕ}
    {c : ℤ} (hw : Walk h.next p xs) (hk : xs.length ≤ k) :
    (Linklist.searchFrom h names name k p c).map Prod.fst =
      some (xs.find? fun e => (names e).sameNoCase name) := by
  induction xs generalizing p k c with
  | nil =>
      obtain rfl : p = none := hw
      rw [Linklist.searchFrom]
      rfl
  | cons x xs ih =>
      obtain ⟨k, rfl⟩ : ∃ k', k = k' + 1 :=
        ⟨k - 1, by rw [List.length_cons] at hk; omega⟩
      have hkx : xs.length ≤ k := by simpa using hk
      rw [hw.1, Linklist.searchFrom, List.find?_cons]
      by_cases hx : (names x).sameNoCase name = true
      · rw [if_pos hx, hx]
        rfl
      · rw [if_neg hx, ih hw.2 hkx]
        rw [Bool.not_eq_true] at hx
        rw [hx]

/-- **`search` finds the first entry of the name**, and it ends. -/
theorem Linked.search_name (hl : Linked h l zs) (names : E → CString) (name : CString) :
    (Linklist.search h names l name).map Prod.fst =
      some (zs.find? fun e => (names e).sameNoCase name) := by
  have hw := hl.strand.walk_next
  simp only [Linklist.search]
  split
  · rename_i hf
    rw [hf] at hw
    cases zs with
    | nil => rfl
    | cons z zs => exact absurd hw.1 (by simp)
  · rename_i ptr hf
    rw [hf] at hw
    refine Linklist.searchFrom_eq hw ?_
    rw [hl.length]
    exact le_of_eq (Int.toNat_natCast _).symm

theorem Linklist.searchFrom_found {names : E → CString} {name : CString} {p : Option E} {k : ℕ}
    {c : ℤ} {us vs : List E} (hw : Walk h.next p (us ++ e :: vs)) (hk : us.length < k)
    (hus : ∀ u ∈ us, (names u).sameNoCase name = false) (he : (names e).sameNoCase name = true) :
    Linklist.searchFrom h names name k p c = some (some e, c + us.length) := by
  induction us generalizing p k c with
  | nil =>
      obtain ⟨k, rfl⟩ : ∃ k', k = k' + 1 := ⟨k - 1, by rw [List.length_nil] at hk; omega⟩
      rw [hw.1, Linklist.searchFrom, if_pos he]
      simp
  | cons u us ih =>
      obtain ⟨k, rfl⟩ : ∃ k', k = k' + 1 := ⟨k - 1, by rw [List.length_cons] at hk; omega⟩
      have hu := hus u List.mem_cons_self
      rw [hw.1, Linklist.searchFrom, if_neg (by rw [hu]; decide),
        ih hw.2 (Nat.lt_of_succ_lt_succ hk) fun x hx => hus x (List.mem_cons_of_mem u hx),
        List.length_cons]
      congr 2
      push_cast
      omega

/-- **The position that `search` finds** counts from one. -/
theorem Linked.search_found {names : E → CString} {name : CString} {us vs : List E}
    (hl : Linked h l (us ++ e :: vs)) (hus : ∀ u ∈ us, (names u).sameNoCase name = false)
    (he : (names e).sameNoCase name = true) :
    Linklist.search h names l name = some (some e, (us.length : ℤ) + 1) := by
  have hw := hl.strand.walk_next
  have hlen := hl.length
  have hlt : us.length < (h.length l).toNat := by
    rw [hlen, Int.toNat_natCast, List.length_append, List.length_cons]
    omega
  rw [Linklist.search]
  cases hf : h.first l with
  | none =>
      rw [hf] at hw
      cases us with
      | nil => exact absurd hw.1 (by simp)
      | cons u us => exact absurd hw.1 (by simp)
  | some ptr =>
      rw [hf] at hw
      exact (Linklist.searchFrom_found hw hlt hus he).trans (by rw [Int.add_comm])

section Search

variable [DecidableEq E]

/-- The loop of `move` finds the position of a member. -/
theorem Entry.search_eq {p : Option E} {k : ℕ} {mypos : ℤ}
    (hw : Walk h.next p (xs ++ e :: ys)) (he : e ∉ xs) (hk : xs.length < k) :
    Entry.search h e k p mypos = some (mypos + xs.length) := by
  induction xs generalizing p k mypos with
  | nil =>
      obtain ⟨k, rfl⟩ : ∃ k', k = k' + 1 := ⟨k - 1, by omega⟩
      rw [hw.1, Entry.search, if_pos rfl]
      simp
  | cons x xs ih =>
      obtain ⟨k, rfl⟩ : ∃ k', k = k' + 1 := ⟨k - 1, by omega⟩
      have hxe : x ≠ e := fun hxe => he (by simp [hxe])
      have hex : e ∉ xs := fun hmem => he (List.mem_cons_of_mem _ hmem)
      have hkx : xs.length < k := by simpa using hk
      rw [hw.1, Entry.search, if_neg hxe, ih hw.2 hex hkx, List.length_cons]
      congr 1
      push_cast
      omega

end Search

/-! ### What an edit of one list has to establish -/

section Edit

variable [DecidableEq E] [DecidableEq L]

/-- **An edit of one list.** A heap whose list `l` now is the strand `zs`, and which
agrees with a well-shaped heap outside `l`, is well-shaped again. -/
theorem Shape.edit (hs : Shape h order) (l : L) (hstrand : Strand h' l zs) (hnd : zs.Nodup)
    (hfirst : ∀ l', l' ≠ l → h'.first l' = h.first l')
    (hlast : ∀ l', l' ≠ l → h'.last l' = h.last l')
    (hlength : h'.length = update h.length l (zs.length : ℤ))
    (hlist : ∀ e, h'.list e = if e ∈ zs then some l else if e ∈ order l then none else h.list e)
    (hlinks : ∀ e, e ∉ order l → e ∉ zs → h'.next e = h.next e ∧ h'.prev e = h.prev e)
    (hout : ∀ e ∈ order l, e ∉ zs → h'.next e = none ∧ h'.prev e = none)
    (hin : ∀ e ∈ zs, e ∈ order l ∨ h.list e = none) :
    Shape h' (update order l zs) where
  strand l' := by
    by_cases hl : l' = l
    · subst hl
      rwa [Function.update_self]
    · rw [Function.update_of_ne hl]
      have hsl := hs.strand l'
      refine ⟨?_, (hfirst l' hl).trans hsl.first, (hlast l' hl).trans hsl.last⟩
      refine (chain_congr fun x hx => ?_).mpr hsl.chain
      have hxl : h.list x = some l' := (hs.list x l').mpr hx
      have hxo : x ∉ order l := by
        intro hmem
        exact hl (Option.some.inj (hxl.symm.trans ((hs.list x l).mpr hmem)))
      refine hlinks x hxo fun hxz => ?_
      rcases hin x hxz with hmem | hnone
      · exact hxo hmem
      · simp [hnone] at hxl
  nodup l' := by
    by_cases hl : l' = l
    · subst hl
      rwa [Function.update_self]
    · rw [Function.update_of_ne hl]
      exact hs.nodup l'
  length l' := by
    rw [hlength]
    by_cases hl : l' = l
    · subst hl
      simp
    · rw [Function.update_of_ne hl, Function.update_of_ne hl, hs.length]
  list x l' := by
    rw [hlist]
    by_cases hl : l' = l
    · subst hl
      rw [Function.update_self]
      by_cases hz : x ∈ zs
      · simp [hz]
      · rw [if_neg hz]
        by_cases ho : x ∈ order l'
        · simp [ho, hz]
        · rw [if_neg ho, hs.list]
          exact iff_of_false ho hz
    · rw [Function.update_of_ne hl]
      by_cases hz : x ∈ zs
      · rw [if_pos hz]
        refine iff_of_false (fun heq => hl (Option.some.inj heq).symm) fun hmem => ?_
        have hxl : h.list x = some l' := (hs.list x l').mpr hmem
        rcases hin x hz with ho | hnone
        · exact hl (Option.some.inj (hxl.symm.trans ((hs.list x l).mpr ho)))
        · simp [hnone] at hxl
      · rw [if_neg hz]
        by_cases ho : x ∈ order l
        · rw [if_pos ho]
          refine iff_of_false (by simp) fun hmem => ?_
          have hxl : h.list x = some l' := (hs.list x l').mpr hmem
          exact hl (Option.some.inj (hxl.symm.trans ((hs.list x l).mpr ho)))
        · rw [if_neg ho, hs.list]
  free x hx := by
    rw [hlist] at hx
    by_cases hz : x ∈ zs
    · simp [hz] at hx
    · rw [if_neg hz] at hx
      by_cases ho : x ∈ order l
      · exact hout x ho hz
      · rw [if_neg ho] at hx
        rw [(hlinks x ho hz).1, (hlinks x ho hz).2]
        exact hs.free x hx

/-- An edit that only rearranges one list. -/
theorem Shape.rearrange (hs : Shape h order) (l : L) (hperm : zs.Perm (order l))
    (hstrand : Strand h' l zs) (hfirst : ∀ l', l' ≠ l → h'.first l' = h.first l')
    (hlast : ∀ l', l' ≠ l → h'.last l' = h.last l') (hlength : h'.length = h.length)
    (hlist : h'.list = h.list)
    (hlinks : ∀ e, e ∉ order l → h'.next e = h.next e ∧ h'.prev e = h.prev e) :
    Shape h' (update order l zs) := by
  refine hs.edit l hstrand (hperm.nodup_iff.mpr (hs.nodup l)) hfirst hlast ?_ ?_ ?_ ?_ ?_
  · rw [hlength, hperm.length_eq, ← hs.length, Function.update_eq_self]
  · intro x
    rw [hlist]
    by_cases hx : x ∈ zs
    · rw [if_pos hx]
      exact (hs.list x l).mpr (hperm.mem_iff.mp hx)
    · rw [if_neg hx, if_neg fun hxo => hx (hperm.mem_iff.mpr hxo)]
  · exact fun x hxo _ => hlinks x hxo
  · exact fun x hxo hxz => absurd (hperm.mem_iff.mpr hxo) hxz
  · exact fun x hx => Or.inl (hperm.mem_iff.mp hx)

end Edit

section Ends

variable [DecidableEq L]

/-- The end pointer of list `l` set to `v`, unless there is a neighbour `p` on that side. -/
def setEnd (f : L → Option E) (l : L) (p v : Option E) : L → Option E :=
  match p with
  | some _ => f
  | none => update f l v

@[simp] theorem setEnd_some (f : L → Option E) (x : E) (v : Option E) :
    setEnd f l (some x) v = f := rfl

@[simp] theorem setEnd_none (f : L → Option E) (v : Option E) :
    setEnd f l none v = update f l v := rfl

theorem setEnd_of_ne {f : L → Option E} {p v : Option E} {l' : L} (hl : l' ≠ l) :
    setEnd f l p v l' = f l' := by
  cases p with
  | none => exact Function.update_of_ne hl _ _
  | some x => rfl

end Ends

section Operations

variable [DecidableEq E] [DecidableEq L]

/-! ### Removal -/

omit [DecidableEq L] in
/-- Constructing an entry at an address that is in no list. -/
theorem Shape.construct (hs : Shape h order) (he : ∀ l, e ∉ order l) :
    Shape (Entry.construct h e) order := by
  have hlist : h.list e = none := by
    rcases hl : h.list e with _ | l
    · rfl
    · exact absurd ((hs.list e l).mp hl) (he l)
  have hnext : update h.next e none = h.next := by
    rw [← (hs.free e hlist).1, Function.update_eq_self]
  have hprev : update h.prev e none = h.prev := by
    rw [← (hs.free e hlist).2, Function.update_eq_self]
  have hback : update h.list e none = h.list := by
    rw [← hlist, Function.update_eq_self]
  simp only [Entry.construct, hnext, hprev, hback]
  exact ⟨fun l => ⟨(hs.strand l).chain, (hs.strand l).first, (hs.strand l).last⟩, hs.nodup,
    hs.length, hs.list, hs.free⟩

/-- Cut `e` out of list `l`: its neighbours are joined and the ends of the list follow. -/
def Heap.cut (h : Heap E L) (l : L) (e : E) : Heap E L :=
  { h with
    next := update (relink h.next (h.prev e) (h.next e)) e none
    prev := update (relink h.prev (h.next e) (h.prev e)) e none
    first := setEnd h.first l (h.prev e) (h.next e)
    last := setEnd h.last l (h.next e) (h.prev e) }

/-- Cutting a member out of a strand. -/
theorem Strand.cut (hs : Strand h l (xs ++ e :: ys)) (hnd : (xs ++ e :: ys).Nodup) :
    Strand (h.cut l e) l (xs ++ ys) := by
  obtain ⟨hn, hp⟩ := hs.links
  have hndxy : (xs ++ ys).Nodup := hnd.sublist (by simp)
  have hexy : e ∉ xs ++ ys := (List.nodup_middle.mp hnd).notMem
  have hch : Chain (relink h.next xs.getLast? ys.head?) (relink h.prev ys.head? xs.getLast?)
      none (xs ++ ys) none := by simpa using hs.chain.unlink hnd
  refine ⟨?_, ?_, ?_⟩
  · simp only [Heap.cut, hn, hp]
    exact (chain_update_next hexy).mpr ((chain_update_prev hexy).mpr hch)
  · have hf := hs.first
    simp only [Heap.cut, hn, hp]
    rcases xs.eq_nil_or_concat with rfl | ⟨us, x, rfl⟩
    · simp
    · simpa using hf
  · have hf := hs.last
    simp only [Heap.cut, hn, hp]
    cases ys with
    | nil => simp
    | cons y vs => simpa using hf

/-- **`rem` in closed form**, for an entry that is not its own neighbour: the entry is cut
out, and when it was selected its flag goes to the next entry if there is one and else to
the previous, while the selection of the list goes to the previous entry if there is one
and else to the next. -/
theorem Entry.rem_eq (hl : h.list e = some l) (hn : h.next e ≠ some e) :
    Entry.rem h e =
      { h.cut l e with
        list := update h.list e none
        length := update h.length l (h.length l - 1)
        select := if h.select e then
            match (h.next e).or (h.prev e) with
            | some x => update h.select x true
            | none => h.select
          else h.select
        selection := if h.select e then
            match (h.prev e).or (h.next e) with
            | some x => update h.selection l (some x)
            | none => h.selection
          else h.selection } := by
  simp only [Entry.rem, Entry.remNext, Entry.remPrev, Heap.cut]
  rw [hl]
  rcases hnx : h.next e with _ | n
  · rcases hpv : h.prev e with _ | p <;> rcases hse : h.select e with _ | _ <;>
      simp [hnx, hpv, hse]
  · have hne : n ≠ e := fun hne => hn (hne ▸ hnx)
    rcases hpv : h.prev e with _ | p <;> rcases hse : h.select e with _ | _ <;>
      simp [hnx, hpv, hse, hne.symm, Function.update_of_ne]

/-- **Removing a member** deletes it from its sequence. -/
theorem Shape.rem_member (hs : Shape h order) (ho : order l = xs ++ e :: ys) :
    Shape (Entry.rem h e) (update order l (xs ++ ys)) := by
  have hst : Strand h l (xs ++ e :: ys) := ho ▸ hs.strand l
  have hnd : (xs ++ e :: ys).Nodup := ho ▸ hs.nodup l
  have hl : h.list e = some l := (hs.list e l).mpr (by simp [ho])
  have hexy : e ∉ xs ++ ys := (List.nodup_middle.mp hnd).notMem
  obtain ⟨hn, hp⟩ := hst.links
  have hcut := hst.cut hnd
  rw [Entry.rem_eq hl (hst.next_ne hnd)]
  refine hs.edit l ⟨hcut.chain, hcut.first, hcut.last⟩ (hnd.sublist (by simp)) ?_ ?_ ?_ ?_ ?_
    ?_ ?_
  · exact fun _ hl' => setEnd_of_ne hl'
  · exact fun _ hl' => setEnd_of_ne hl'
  · have hlen := hs.length l
    rw [ho] at hlen
    simp only [hlen, List.length_append, List.length_cons]
    congr 1
    push_cast
    omega
  · intro x
    by_cases hx : x = e
    · subst hx
      simp [hexy, ho]
    · simp only [Function.update_of_ne hx, ho]
      by_cases hxm : x ∈ xs ++ ys
      · rw [if_pos hxm]
        refine (hs.list x l).mpr ?_
        rw [ho]
        simp only [List.mem_append, List.mem_cons] at hxm ⊢
        tauto
      · rw [if_neg hxm, if_neg]
        simp only [List.mem_append, List.mem_cons] at hxm ⊢
        tauto
  · intro x hxo hxz
    rw [ho] at hxo
    have hxe : x ≠ e := fun hxe => hxo (by simp [hxe])
    simp only [Heap.cut, Function.update_of_ne hxe]
    refine ⟨relink_of_ne fun hh => hxz ?_, relink_of_ne fun hh => hxz ?_⟩
    · exact List.mem_append_left _ (List.mem_of_getLast? (hp ▸ hh))
    · exact List.mem_append_right _ (List.mem_of_mem_head? (hn ▸ hh))
  · intro x hxo hxz
    rw [ho] at hxo
    obtain rfl : x = e := by
      simp only [List.mem_append, List.mem_cons] at hxo hxz
      tauto
    simp [Heap.cut]
  · intro x hx
    left
    rw [ho]
    simp only [List.mem_append, List.mem_cons] at hx ⊢
    tauto

/-- **`rem` on any entry**: it is erased from the sequences, which changes nothing when it
is in none of them. -/
theorem Shape.rem (hs : Shape h order) (e : E) :
    Shape (Entry.rem h e) fun l => (order l).erase e := by
  rcases hl : h.list e with _ | l
  · have hrem : Entry.rem h e = h := by
      simp only [Entry.rem]
      rw [hl]
    have herase : (fun l => (order l).erase e) = order :=
      funext fun l => List.erase_of_not_mem (hs.notMem_of_free hl)
    rwa [hrem, herase]
  · obtain ⟨xs, ys, ho⟩ := hs.split hl
    have hnd : (xs ++ e :: ys).Nodup := ho ▸ hs.nodup l
    have hex : e ∉ xs := fun hmem => List.disjoint_of_nodup_append hnd hmem List.mem_cons_self
    have herase : (fun l => (order l).erase e) = update order l (xs ++ ys) := by
      funext l'
      by_cases hl' : l' = l
      · subst hl'
        rw [Function.update_self, ho, List.erase_append_right _ hex, List.erase_cons_head]
      · rw [Function.update_of_ne hl', List.erase_of_not_mem]
        exact fun hmem => hl' (Option.some.inj (((hs.list e l').mpr hmem).symm.trans hl))
    rw [herase]
    exact hs.rem_member ho

/-- After `rem` the entry is in no list. -/
theorem Entry.rem_list_self (h : Heap E L) (e : E) : (Entry.rem h e).list e = none := by
  simp only [Entry.rem]
  rcases hl : h.list e with _ | l
  · exact hl
  · simp

/-- `rem` makes the test that `release` makes. -/
theorem Entry.release_eq (h : Heap E L) (e : E) : Entry.release h e = Entry.rem h e := by
  simp only [Entry.release]
  rcases hl : h.list e with _ | l
  · simp only [Entry.rem]
    rw [hl]
  · rfl

/-- Releasing an entry in no list does nothing. -/
theorem Entry.release_of_free (he : h.list e = none) : Entry.release h e = h := by
  simp only [Entry.release]
  rw [he]

/-! ### Insertion -/

/-- Join `e` into list `l` in between two neighbours; the ends of the list follow. -/
def Heap.join (h : Heap E L) (l : L) (before : Option E) (e : E) (after : Option E) :
    Heap E L :=
  { h with
    next := update (relink h.next before (some e)) e after
    prev := update (relink h.prev after (some e)) e before
    first := setEnd h.first l before (some e)
    last := setEnd h.last l after (some e) }

/-- Joining a new entry into a strand. -/
theorem Strand.join (hs : Strand h l (xs ++ ys)) (hnd : (xs ++ e :: ys).Nodup) :
    Strand (h.join l xs.getLast? e ys.head?) l (xs ++ e :: ys) := by
  refine ⟨?_, ?_, ?_⟩
  · simpa [Heap.join] using hs.chain.insert hnd
  · have hf := hs.first
    rcases xs.eq_nil_or_concat with rfl | ⟨us, x, rfl⟩
    · simp [Heap.join]
    · simpa [Heap.join] using hf
  · have hf := hs.last
    cases ys with
    | nil => simp [Heap.join]
    | cons y vs => simpa [Heap.join] using hf

/-- **Inserting a free entry** between two neighbours, with the bookkeeping of the list
pointer and the length, puts it at that place of the sequence. -/
theorem Shape.join (hs : Shape h order) (ho : order l = xs ++ ys) (he : h.list e = none) :
    Shape { h.join l xs.getLast? e ys.head? with
      list := update h.list e (some l)
      length := update h.length l (h.length l + 1) } (update order l (xs ++ e :: ys)) := by
  have hst : Strand h l (xs ++ ys) := ho ▸ hs.strand l
  have hexy : e ∉ xs ++ ys := ho ▸ hs.notMem_of_free he
  have hnd : (xs ++ e :: ys).Nodup :=
    List.nodup_middle.mpr (List.nodup_cons.mpr ⟨hexy, ho ▸ hs.nodup l⟩)
  have hjoin := hst.join hnd
  refine hs.edit l ⟨hjoin.chain, hjoin.first, hjoin.last⟩ hnd ?_ ?_ ?_ ?_ ?_ ?_ ?_
  · exact fun _ hl' => setEnd_of_ne hl'
  · exact fun _ hl' => setEnd_of_ne hl'
  · have hlen := hs.length l
    rw [ho] at hlen
    simp only [hlen, List.length_append, List.length_cons]
    congr 1
  · intro x
    by_cases hx : x = e
    · subst hx
      simp
    · simp only [Function.update_of_ne hx]
      by_cases hxm : x ∈ xs ++ ys
      · rw [if_pos (by simp only [List.mem_append, List.mem_cons] at hxm ⊢; tauto)]
        exact (hs.list x l).mpr (ho ▸ hxm)
      · rw [if_neg (by simp only [List.mem_append, List.mem_cons] at hxm ⊢; tauto), if_neg]
        exact ho ▸ hxm
  · intro x hxo hxz
    have hxe : x ≠ e := fun hxe => hxz (by simp [hxe])
    rw [ho] at hxo
    simp only [Heap.join, Function.update_of_ne hxe]
    refine ⟨relink_of_ne fun hh => hxo ?_, relink_of_ne fun hh => hxo ?_⟩
    · exact List.mem_append_left _ (List.mem_of_getLast? hh)
    · exact List.mem_append_right _ (List.mem_of_mem_head? hh)
  · intro x hxo hxz
    rw [ho] at hxo
    simp only [List.mem_append, List.mem_cons] at hxo hxz
    tauto
  · intro x hx
    by_cases hxe : x = e
    · exact Or.inr (hxe ▸ he)
    · left
      rw [ho]
      simp only [List.mem_append, List.mem_cons] at hx ⊢
      tauto

/-- `append` of a free entry joins it in after the last; it selects nothing, because the
call of `sel` on a first entry comes before its list pointer is set. -/
theorem Linklist.append_eq (he : h.list e = none) :
    Linklist.append h l e =
      { h.join l (h.last l) e none with
        list := update h.list e (some l)
        length := update h.length l (h.length l + 1) } := by
  unfold Linklist.append Entry.sel Heap.join
  rw [Entry.release_of_free he]
  rcases hl : h.last l with _ | p
  · simp [he, hl]
  · simp [hl]

/-- `prepend` of a free entry joins it in before the first. -/
theorem Linklist.prepend_eq (he : h.list e = none) :
    Linklist.prepend h l e =
      { h.join l none e (h.first l) with
        list := update h.list e (some l)
        length := update h.length l (h.length l + 1) } := by
  simp only [Linklist.prepend, Heap.join]
  rw [he]
  rcases h.first l with _ | p <;> simp

/-- `insert_after` of a free entry joins it in after the given one. -/
theorem Linklist.insert_after_eq {pos : E} (he : h.list e = none) (hne : e ≠ pos)
    (hnx : h.next e = none) :
    Linklist.insert_after h l e pos =
      { h.join l (some pos) e (h.next pos) with
        list := update h.list e (some l)
        length := update h.length l (h.length l + 1) } := by
  unfold Linklist.insert_after Heap.join
  rw [Entry.release_of_free he]
  rcases hp : h.next pos with _ | n
  · simp [hp, Function.update_of_ne hne, hnx]
  · simp [hp, Function.update_comm hne]

/-- `append` begins with the removal. -/
theorem Linklist.append_rem (h : Heap E L) (l : L) (e : E) :
    Linklist.append h l e = Linklist.append (Entry.rem h e) l e := by
  simp only [Linklist.append]
  rw [Entry.release_eq, Entry.release_of_free (Entry.rem_list_self h e)]

/-- `insert_after` begins with the removal. -/
theorem Linklist.insert_after_rem (h : Heap E L) (l : L) (e pos : E) :
    Linklist.insert_after h l e pos = Linklist.insert_after (Entry.rem h e) l e pos := by
  simp only [Linklist.insert_after]
  rw [Entry.release_eq, Entry.release_of_free (Entry.rem_list_self h e)]

/-- **`append`** takes the entry out of wherever it is and puts it at the end. -/
theorem Shape.append (hs : Shape h order) (l : L) (e : E) :
    Shape (Linklist.append h l e)
      (update (fun l => (order l).erase e) l ((order l).erase e ++ [e])) := by
  have hfree := Entry.rem_list_self h e
  have hlast : (Entry.rem h e).last l = ((order l).erase e).getLast? := ((hs.rem e).strand l).last
  rw [Linklist.append_rem, Linklist.append_eq hfree, hlast]
  have happ : (order l).erase e = (order l).erase e ++ [] := by simp
  exact (hs.rem e).join (l := l) happ hfree

/-- **`prepend`** puts a free entry at the beginning. -/
theorem Shape.prepend (hs : Shape h order) (l : L) (he : h.list e = none) :
    Shape (Linklist.prepend h l e) (update order l (e :: order l)) := by
  rw [Linklist.prepend_eq he, (hs.strand l).first]
  have happ : order l = [] ++ order l := rfl
  exact hs.join happ he

/-- `prepend` refuses an entry that is in a list. -/
theorem Linklist.prepend_listed {l' : L} (he : h.list e = some l') :
    Linklist.prepend h l e = h := by
  simp only [Linklist.prepend]
  rw [he]

/-- **`insert_after`** takes the entry out of wherever it is and puts it after the given
member. -/
theorem Shape.insert_after {pos : E} (hs : Shape h order)
    (ho : (order l).erase e = xs ++ pos :: ys) :
    Shape (Linklist.insert_after h l e pos)
      (update (fun l => (order l).erase e) l (xs ++ pos :: e :: ys)) := by
  have hfree := Entry.rem_list_self h e
  have hst : Strand (Entry.rem h e) l (xs ++ pos :: ys) := ho ▸ (hs.rem e).strand l
  have hne : e ≠ pos := by
    rintro rfl
    exact (hs.nodup l).not_mem_erase (by rw [ho]; simp)
  have happ : xs ++ pos :: ys = (xs ++ [pos]) ++ ys := by simp
  have hins := (hs.rem e).join (l := l) (ho.trans happ) hfree
  rw [Linklist.insert_after_rem, Linklist.insert_after_eq hfree hne ((hs.rem e).free e hfree).1,
    hst.links.1]
  simpa using hins

/-- `insert` strictly inside the list joins the released entry in before the entry that
`pick` then finds at the position. -/
theorem Linklist.insert_eq {pos : ℤ} {before ptr : E} (h1 : 1 < pos) (h2 : pos < h.length l)
    (hpick : Linklist.pick (Entry.rem h e) l pos = some (some ptr))
    (hp : (Entry.rem h e).prev ptr = some before) (hne : e ≠ ptr) :
    Linklist.insert h l e pos =
      some { (Entry.rem h e).join l (some before) e (some ptr) with
        list := update (Entry.rem h e).list e (some l)
        length := update (Entry.rem h e).length l ((Entry.rem h e).length l + 1) } := by
  simp only [Linklist.insert, Heap.join]
  rw [if_neg (by omega), if_neg (by omega), Entry.release_eq]
  simp [hpick, hp, Function.update_comm hne]

/-- **`insert` strictly inside the list** takes the entry out of wherever it is and puts it
at the given position; it follows no null pointer. -/
theorem Shape.insert {pos : ℤ} (hs : Shape h order) (l : L) (e : E) (h1 : 1 < pos)
    (h2 : pos < h.length l) :
    ∃ us vs h', (order l).erase e = us ++ vs ∧ (us.length : ℤ) = pos - 1 ∧
      Linklist.insert h l e pos = some h' ∧
      Shape h' (update (fun l => (order l).erase e) l (us ++ e :: vs)) := by
  have hr := hs.rem e
  have hpos : pos ≤ (Entry.rem h e).length l := by
    have hle := List.le_length_erase (l := order l) (a := e)
    have hlen := hs.length l
    have hlen' := hr.length l
    omega
  obtain ⟨us, ptr, vs, ho, hus, hpick⟩ := (hr.linked l).pick_split (by omega) hpos
  rcases us.eq_nil_or_concat with rfl | ⟨us', before, rfl⟩
  · simp at hus
    omega
  · rw [List.concat_eq_append] at ho hus
    have hst : Strand (Entry.rem h e) l (us' ++ [before] ++ ptr :: vs) := ho ▸ hr.strand l
    have hprev : (Entry.rem h e).prev ptr = some before := by
      rw [hst.links.2, List.getLast?_concat]
    have hne : e ≠ ptr := by
      rintro rfl
      exact (hs.nodup l).not_mem_erase (by rw [ho]; simp)
    refine ⟨us' ++ [before], ptr :: vs, _, ho, hus,
      Linklist.insert_eq h1 h2 hpick hprev hne, ?_⟩
    simpa using hr.join ho (Entry.rem_list_self h e)

/-! ### Exchanging neighbours -/

/-- Exchange the neighbours `p` and `e` of list `l`, `before` preceding and `after`
following them; the ends of the list follow. -/
def Heap.swap (h : Heap E L) (l : L) (before : Option E) (p e : E) (after : Option E) :
    Heap E L :=
  { h with
    next := update (update (relink h.next before (some e)) e (some p)) p after
    prev := update (update (relink h.prev after (some p)) p (some e)) e before
    first := setEnd h.first l before (some e)
    last := setEnd h.last l after (some p) }

/-- Exchanging two neighbours of a strand. -/
theorem Strand.swap {p : E} (hs : Strand h l (xs ++ p :: e :: ys))
    (hnd : (xs ++ p :: e :: ys).Nodup) :
    Strand (h.swap l xs.getLast? p e ys.head?) l (xs ++ e :: p :: ys) := by
  refine ⟨?_, ?_, ?_⟩
  · simpa [Heap.swap] using hs.chain.transpose hnd
  · have hf := hs.first
    rcases xs.eq_nil_or_concat with rfl | ⟨us, x, rfl⟩
    · simp [Heap.swap]
    · simpa [Heap.swap] using hf
  · have hf := hs.last
    cases ys with
    | nil => simp [Heap.swap]
    | cons y vs => simpa [Heap.swap] using hf

/-- **Exchanging two neighbours** of a list exchanges them in its sequence. -/
theorem Shape.swap {p : E} (hs : Shape h order) (ho : order l = xs ++ p :: e :: ys) :
    Shape (h.swap l xs.getLast? p e ys.head?) (update order l (xs ++ e :: p :: ys)) := by
  have hst : Strand h l (xs ++ p :: e :: ys) := ho ▸ hs.strand l
  have hnd : (xs ++ p :: e :: ys).Nodup := ho ▸ hs.nodup l
  refine hs.rearrange l ?_ (hst.swap hnd) ?_ ?_ rfl rfl ?_
  · rw [ho]
    exact List.Perm.append_left xs (List.Perm.swap p e ys)
  · exact fun _ hl' => setEnd_of_ne hl'
  · exact fun _ hl' => setEnd_of_ne hl'
  · intro x hx
    rw [ho] at hx
    have hxp : x ≠ p := fun hxp => hx (by simp [hxp])
    have hxe : x ≠ e := fun hxe => hx (by simp [hxe])
    simp only [Heap.swap, Function.update_of_ne hxp, Function.update_of_ne hxe]
    refine ⟨relink_of_ne fun hh => hx ?_, relink_of_ne fun hh => hx ?_⟩
    · exact List.mem_append_left _ (List.mem_of_getLast? hh)
    · have := List.mem_of_mem_head? hh
      simp [this]

/-- `up` of an entry with a predecessor exchanges the two. -/
theorem Entry.up_eq {p : E} (hl : h.list e = some l) (hp : h.prev e = some p) (hne : p ≠ e)
    (hpe : h.prev p ≠ some e) (hpp : h.prev p ≠ some p) :
    Entry.up h e = (true, h.swap l (h.prev p) p e (h.next e)) := by
  simp only [Entry.up, Heap.swap]
  rw [hl, hp]
  rcases hb : h.prev p with _ | b
  · rcases hn : h.next e with _ | n <;>
      simp [hb, hne.symm, Function.update_of_ne, Function.update_comm hne]
  · have hpb : p ≠ b := fun hpb => hpp (hpb ▸ hb)
    have heb : e ≠ b := fun heb => hpe (heb ▸ hb)
    rcases hn : h.next e with _ | n <;>
      simp [hb, hne.symm, Function.update_of_ne, Function.update_comm hne,
        Function.update_comm hpb, Function.update_comm heb]

/-- `down` of an entry with a successor exchanges the two. -/
theorem Entry.down_eq {n : E} (hl : h.list e = some l) (hn : h.next e = some n) (hne : e ≠ n)
    (hnn : h.next n ≠ some n) (hnne : h.next n ≠ some e) :
    Entry.down h e = (true, h.swap l (h.prev e) e n (h.next n)) := by
  simp only [Entry.down, Heap.swap]
  rw [hl, hn]
  rcases ha : h.next n with _ | a
  · rcases hp : h.prev e with _ | p <;>
      simp [ha, Function.update_comm hne]
  · have hna : n ≠ a := fun hna => hnn (hna ▸ ha)
    have hea : e ≠ a := fun hea => hnne (hea ▸ ha)
    rcases hp : h.prev e with _ | p <;>
      simp [ha, Function.update_comm hne,
        Function.update_comm hna, Function.update_comm hea]

/-- `up` of a member with a predecessor. -/
theorem Linked.up_swap {p : E} (hl : Linked h l (xs ++ p :: e :: ys)) :
    Entry.up h e = (true, h.swap l xs.getLast? p e ys.head?) := by
  have hnd := hl.nodup
  have hse : Strand h l ((xs ++ [p]) ++ e :: ys) := by simpa using hl.strand
  have hpe : p ∉ xs ++ e :: ys := (List.nodup_middle.mp hnd).notMem
  have hprev : h.prev e = some p := by simpa using hse.links.2
  have hpp : h.prev p = xs.getLast? := hl.strand.links.2
  have hdis : ∀ x ∈ xs, x ≠ e := by
    intro x hx hxe
    exact List.disjoint_of_nodup_append hnd hx (by simp [hxe])
  rw [Entry.up_eq (hl.list e (by simp)) hprev (fun hh => hpe (by simp [hh]))
    (by rw [hpp]; exact fun hh => hdis e (List.mem_of_getLast? hh) rfl)
    (by rw [hpp]; exact fun hh => hpe (by simp [List.mem_of_getLast? hh])), hpp, hse.links.1]

/-- `down` of a member with a successor. -/
theorem Linked.down_swap {n : E} (hl : Linked h l (xs ++ e :: n :: ys)) :
    Entry.down h e = (true, h.swap l xs.getLast? e n ys.head?) := by
  have hnd := hl.nodup
  have hsn : Strand h l ((xs ++ [e]) ++ n :: ys) := by simpa using hl.strand
  have hex : e ∉ xs ++ n :: ys := (List.nodup_middle.mp hnd).notMem
  have hny : n ∉ ys := (List.nodup_cons.mp (List.nodup_cons.mp hnd.of_append_right).2).1
  have hnext : h.next e = some n := by simpa using hl.strand.links.1
  have hnn : h.next n = ys.head? := hsn.links.1
  rw [Entry.down_eq (hl.list e (by simp)) hnext (fun hh => hex (by simp [hh]))
    (by rw [hnn]; exact fun hh => hny (List.mem_of_mem_head? hh))
    (by rw [hnn]; exact fun hh => hex (by simp [List.mem_of_mem_head? hh])), hnn,
    hl.strand.links.2]

/-- **`up`** exchanges an entry with its predecessor. -/
theorem Shape.up {p : E} (hs : Shape h order) (ho : order l = xs ++ p :: e :: ys) :
    (Entry.up h e).1 = true ∧ Shape (Entry.up h e).2 (update order l (xs ++ e :: p :: ys)) := by
  have hl : Linked h l (xs ++ p :: e :: ys) := ho ▸ hs.linked l
  rw [hl.up_swap]
  exact ⟨rfl, hs.swap ho⟩

/-- **`down`** exchanges an entry with its successor. -/
theorem Shape.down {n : E} (hs : Shape h order) (ho : order l = xs ++ e :: n :: ys) :
    (Entry.down h e).1 = true ∧
      Shape (Entry.down h e).2 (update order l (xs ++ n :: e :: ys)) := by
  have hl : Linked h l (xs ++ e :: n :: ys) := ho ▸ hs.linked l
  rw [hl.down_swap]
  exact ⟨rfl, hs.swap ho⟩

/-- `up` of the first entry, or of an entry in no list, changes nothing. -/
theorem Entry.up_of_first (hp : h.list e = none ∨ h.prev e = none) :
    Entry.up h e = (false, h) := by
  simp only [Entry.up]
  rcases hp with hp | hp <;> rw [hp]
  cases h.list e <;> rfl

/-- `down` of the last entry, or of an entry in no list, changes nothing. -/
theorem Entry.down_of_last (hn : h.list e = none ∨ h.next e = none) :
    Entry.down h e = (false, h) := by
  simp only [Entry.down]
  rcases hn with hn | hn <;> rw [hn]
  cases h.list e <;> rfl

/-! ### Moving to a position -/

/-- `move` detaches a member by cutting it out. -/
theorem Entry.detach_eq (hn : h.next e ≠ some e) (hp : h.prev e ≠ some e) :
    Entry.detach h e l = h.cut l e := by
  unfold Entry.detach Heap.cut
  rcases hnx : h.next e with _ | n <;> rcases hpv : h.prev e with _ | p
  · simp [hnx, hpv]
  · have hpe : e ≠ p := fun hep => hp (hep ▸ hpv)
    simp [hnx, hpv, Function.update_of_ne hpe]
  · have hne : e ≠ n := fun hen => hn (hen ▸ hnx)
    simp [hnx, hpv, Function.update_of_ne hne]
  · have hne : e ≠ n := fun hen => hn (hen ▸ hnx)
    have hpe : e ≠ p := fun hep => hp (hep ▸ hpv)
    simp [hnx, hpv, Function.update_of_ne hne, Function.update_of_ne hpe]

/-- Cutting a member out and joining it in elsewhere in the same list moves it there. -/
theorem Shape.recut {us vs : List E} (hs : Shape h order) (ho : order l = xs ++ e :: ys)
    (hsplit : xs ++ ys = us ++ vs) :
    Shape ((h.cut l e).join l us.getLast? e vs.head?) (update order l (us ++ e :: vs)) := by
  have hst : Strand h l (xs ++ e :: ys) := ho ▸ hs.strand l
  have hnd : (xs ++ e :: ys).Nodup := ho ▸ hs.nodup l
  have hperm : (us ++ e :: vs).Perm (order l) := by
    rw [ho]
    refine List.perm_middle.trans (List.Perm.trans ?_ List.perm_middle.symm)
    rw [hsplit]
  have hcut : Strand (h.cut l e) l (us ++ vs) := hsplit ▸ hst.cut hnd
  refine hs.rearrange l hperm (hcut.join (hperm.nodup_iff.mpr (hs.nodup l))) ?_ ?_ rfl rfl ?_
  · exact fun _ hl' => (setEnd_of_ne hl').trans (setEnd_of_ne hl')
  · exact fun _ hl' => (setEnd_of_ne hl').trans (setEnd_of_ne hl')
  · intro x hx
    have hxo : x ∉ us ++ e :: vs := fun hmem => hx (hperm.mem_iff.mp hmem)
    have hxu : us.getLast? ≠ some x := fun hh => hxo (by simp [List.mem_of_getLast? hh])
    have hxv : vs.head? ≠ some x := fun hh => hxo (by simp [List.mem_of_mem_head? hh])
    rw [ho] at hx
    have hxe : x ≠ e := fun hxe => hx (by simp [hxe])
    have hxp : h.prev e ≠ some x := by
      rw [hst.links.2]
      exact fun hh => hx (by simp [List.mem_of_getLast? hh])
    have hxn : h.next e ≠ some x := by
      rw [hst.links.1]
      exact fun hh => hx (by simp [List.mem_of_mem_head? hh])
    simp only [Heap.join, Heap.cut, Function.update_of_ne hxe]
    rw [relink_of_ne hxu, relink_of_ne hxv, Function.update_of_ne hxe, Function.update_of_ne hxe]
    exact ⟨relink_of_ne hxp, relink_of_ne hxn⟩

/-- A member that is cut out and joined in elsewhere is a member there. -/
theorem Linked.recut {us vs : List E} (hl : Linked h l (xs ++ e :: ys))
    (hsplit : xs ++ ys = us ++ vs) :
    Linked ((h.cut l e).join l us.getLast? e vs.head?) l (us ++ e :: vs) := by
  have hperm : (us ++ e :: vs).Perm (xs ++ e :: ys) := by
    refine List.perm_middle.trans (List.Perm.trans ?_ List.perm_middle.symm)
    rw [hsplit]
  have hcut : Strand (h.cut l e) l (us ++ vs) := hsplit ▸ hl.strand.cut hl.nodup
  exact hl.of_perm hperm (hcut.join (hperm.nodup_iff.mpr hl.nodup)) rfl rfl

/-- From the length of the list on, we are going to be the last entry, when there is
another one. -/
theorem Entry.attach_last {mypos pos : ℤ} {displaced : Option E} (hst : Strand h l xs)
    (he : e ∉ xs) (hn : h.next e = none) (hne : xs ≠ []) (hpos : h.length l ≤ pos) :
    Entry.attach h e l mypos pos displaced = some (h.join l xs.getLast? e none) := by
  obtain ⟨us, last, rfl⟩ := xs.eq_nil_or_concat.resolve_left hne
  have hel : e ≠ last := fun hel => he (by simp [hel])
  have hlast : h.last l = some last := by simpa using hst.last
  unfold Entry.attach Heap.join
  rw [if_pos hpos, hlast]
  simp [Function.update_of_ne hel, hn, hlast]

/-- Before that, inserting ourselves at the new position joins us in between the two entries
there, whichever of the three branches is taken. The position of the displaced entry is its
position before we were detached. -/
theorem Entry.attach_eq {us vs : List E} {mypos pos : ℤ} {displaced : Option E}
    (hst : Strand h l (us ++ vs)) (he : e ∉ us ++ vs) (hp : h.prev e = none)
    (hlen : h.length l = us.length + vs.length + 1) (hpos : pos = us.length + 1)
    (hlt : pos < h.length l) (hmy : mypos ≠ pos)
    (hbelow : pos < mypos → displaced = vs.head?)
    (habove : mypos < pos → displaced = us.getLast?) :
    Entry.attach h e l mypos pos displaced = some (h.join l us.getLast? e vs.head?) := by
  obtain ⟨after, vs', rfl⟩ := List.exists_cons_of_ne_nil (l := vs)
    (fun hvs => by subst hvs; rw [List.length_nil] at hlen; omega)
  have hea : e ≠ after := fun hea => he (by simp [hea])
  unfold Entry.attach Heap.join
  rw [if_neg (by omega)]
  by_cases h2 : pos = 1
  · obtain rfl : us = [] := List.length_eq_zero_iff.mp (by omega)
    have hfirst : h.first l = some after := by simpa using hst.first
    rw [if_pos h2, hfirst]
    simp [Function.update_of_ne hea, hp, hfirst]
  · rw [if_neg h2]
    obtain ⟨us', before, rfl⟩ := us.eq_nil_or_concat.resolve_left
      (fun hus => h2 (by simpa [hus] using hpos))
    rw [List.concat_eq_append] at hst he habove
    have heb : e ≠ before := fun heb => he (by simp [heb])
    by_cases h3 : mypos > pos
    · have hprev : h.prev after = some before := by simpa using hst.links.2
      rw [if_pos h3, hbelow h3]
      simp [hprev, Function.update_comm hea]
    · have hst' : Strand h l (us' ++ before :: after :: vs') := by simpa using hst
      have hnext : h.next before = some after := by simpa using hst'.links.1
      rw [if_neg h3, if_pos (by omega), habove (by omega)]
      simp [hnext, Function.update_comm heb]

/-- `move` cuts a member out. -/
theorem Linked.detach (hl : Linked h l (xs ++ e :: ys)) : Entry.detach h e l = h.cut l e := by
  have hexy : e ∉ xs ++ ys := (List.nodup_middle.mp hl.nodup).notMem
  refine Entry.detach_eq (hl.strand.next_ne hl.nodup) ?_
  rw [hl.strand.links.2]
  exact fun hh => hexy (List.mem_append_left _ (List.mem_of_getLast? hh))

omit [DecidableEq L] in
/-- `move` finds the position of a member. -/
theorem Linked.search (hl : Linked h l (xs ++ e :: ys)) :
    Entry.search h e (h.length l).toNat (h.first l) 1 = some (1 + (xs.length : ℤ)) := by
  have hlen := hl.length
  rw [List.length_append, List.length_cons] at hlen
  have hexy : e ∉ xs ++ ys := (List.nodup_middle.mp hl.nodup).notMem
  exact Entry.search_eq hl.strand.walk_next (fun hmem => hexy (List.mem_append_left _ hmem))
    (by omega)

/-- Two different places of a list: without the entry at the first, the entry at the second
stands right behind as many others as before, or is the last of them, according to which of the
two places came first. -/
theorem exists_displaced {us vs : List E} {d : E} (h : xs ++ e :: ys = us ++ d :: vs)
    (hne : us.length ≠ xs.length) :
    ∃ us' vs', xs ++ ys = us' ++ vs' ∧ us'.length = us.length ∧
      (us.length < xs.length → some d = vs'.head?) ∧
      (xs.length < us.length → some d = us'.getLast?) := by
  rcases List.append_eq_append_iff.mp h.symm with ⟨ws, rfl, hws⟩ | ⟨ws, rfl, hws⟩
  · cases ws with
    | nil => exact absurd (by rw [List.append_nil]) hne
    | cons d' ws =>
        obtain ⟨rfl, -⟩ := List.cons.inj hws
        refine ⟨us, d :: ws ++ ys, by simp, rfl, fun _ => rfl, fun hlt => ?_⟩
        rw [List.length_append] at hlt
        omega
  · cases ws with
    | nil => exact absurd (by rw [List.append_nil]) hne
    | cons e' ws =>
        obtain ⟨rfl, rfl⟩ := List.cons.inj hws
        refine ⟨xs ++ ws ++ [d], vs, by simp, by simp, fun hlt => ?_,
          fun _ => by simp⟩
        rw [List.length_append] at hlt
        omega

/-- **`move` of a member** to a position from 1 on, in a list of more than one entry or to
position 1, follows no null pointer: it puts the entry there, or at the end when the
position is behind it. -/
theorem Linked.move {pos : ℤ} (hl : Linked h l (xs ++ e :: ys)) (h1 : 1 ≤ pos)
    (hroom : pos = 1 ∨ 2 ≤ h.length l) :
    ∃ us vs h', xs ++ ys = us ++ vs ∧ (us.length : ℤ) = min pos (h.length l) - 1 ∧
      Entry.move h e pos = some (true, h') ∧
      (us = xs ∧ vs = ys ∧ h' = h ∨ h' = (h.cut l e).join l us.getLast? e vs.head?) := by
  have hnd := hl.nodup
  have hst := hl.strand
  have hexy : e ∉ xs ++ ys := (List.nodup_middle.mp hnd).notMem
  have hlen : h.length l = xs.length + (ys.length + 1) := by
    have := hl.length
    rw [List.length_append, List.length_cons] at this
    exact_mod_cast this
  simp only [Entry.move]
  rw [hl.list e (by simp)]
  simp only [hl.search, Option.bind_some]
  by_cases hmy : 1 + (xs.length : ℤ) = pos
  · exact ⟨xs, ys, h, rfl, by omega, if_pos hmy, Or.inl ⟨rfl, rfl, rfl⟩⟩
  · rw [if_neg hmy]
    have hcut := hst.cut hnd
    have hnext_cut : (h.cut l e).next e = none := by simp [Heap.cut]
    have hprev_cut : (h.cut l e).prev e = none := by simp [Heap.cut]
    rw [hl.detach]
    by_cases hlast : h.length l ≤ pos
    · have hne : xs ++ ys ≠ [] := by
        intro hnil
        obtain ⟨rfl, rfl⟩ := List.append_eq_nil_iff.mp hnil
        simp only [List.length_nil] at hlen hmy
        omega
      have hattach : ∀ displaced,
          Entry.attach (h.cut l e) e l (1 + (xs.length : ℤ)) pos displaced =
            some ((h.cut l e).join l (xs ++ ys).getLast? e none) :=
        fun _ => Entry.attach_last hcut hexy hnext_cut hne hlast
      refine ⟨xs ++ ys, [], _, by simp, ?_, ?_, Or.inr rfl⟩
      · rw [List.length_append]
        push_cast
        omega
      · rw [hl.pick]
        simp only [Option.bind_some, hattach, Option.map_some, List.head?_nil]
    · obtain ⟨us₀, d, vs₀, ho', hus₀, hpick⟩ := hl.pick_split h1 (by omega)
      -- where the displaced entry stands among the others, and on which side of us it was
      obtain ⟨us, vs, hsplit, hus, hbelow, habove⟩ := exists_displaced ho' (by omega)
      have hlens := congrArg List.length hsplit
      rw [List.length_append, List.length_append] at hlens
      have hattach : Entry.attach (h.cut l e) e l (1 + (xs.length : ℤ)) pos (some d) =
          some ((h.cut l e).join l us.getLast? e vs.head?) :=
        Entry.attach_eq (hsplit ▸ hcut) (hsplit ▸ hexy) hprev_cut
          (show h.length l = _ by omega) (by omega) (show pos < h.length l by omega) hmy
          (fun hlt => hbelow (by omega)) fun hlt => habove (by omega)
      refine ⟨us, vs, _, hsplit, by omega, ?_, Or.inr rfl⟩
      rw [hpick]
      simp only [Option.bind_some, hattach, Option.map_some]

/-- **`move` that follows a null pointer**: to a position below 1 there is no displaced
entry, and a single member leaves no last entry behind. -/
theorem Linked.move_eq_none {pos : ℤ} (hl : Linked h l (xs ++ e :: ys))
    (hpos : pos < 1 ∨ pos ≠ 1 ∧ h.length l < 2) : Entry.move h e pos = none := by
  have hlen : h.length l = xs.length + (ys.length + 1) := by
    have := hl.length
    rw [List.length_append, List.length_cons] at this
    exact_mod_cast this
  have hout : pos < 1 ∨ h.length l < pos := by omega
  simp only [Entry.move]
  rw [hl.list e (by simp)]
  simp only [hl.search, Option.bind_some, hl.pick_eq_none hout]
  rw [if_neg (by omega)]
  have hattach : Entry.attach (h.cut l e) e l (1 + (xs.length : ℤ)) pos none = none := by
    have hlength : (h.cut l e).length l = h.length l := rfl
    unfold Entry.attach
    rw [hlength]
    by_cases h1 : pos < 1
    · rw [if_neg (by omega), if_neg (by omega), if_pos (by omega)]
    · obtain rfl : xs = [] := List.length_eq_zero_iff.mp (by omega)
      obtain rfl : ys = [] := List.length_eq_zero_iff.mp (by simp at hlen; omega)
      have hlast : (h.cut l e).last l = none := (hl.strand.cut hl.nodup).last
      rw [if_pos (by omega), hlast]
  rw [hl.detach, hattach, Option.map_none]

/-- **`move`** of a member to a position of its list puts it there and leaves the others in
their order; it follows no null pointer. -/
theorem Shape.move {pos : ℤ} (hs : Shape h order) (ho : order l = xs ++ e :: ys)
    (h1 : 1 ≤ pos) (h2 : pos ≤ h.length l) :
    ∃ us vs h', xs ++ ys = us ++ vs ∧ (us.length : ℤ) = pos - 1 ∧
      Entry.move h e pos = some (true, h') ∧ Shape h' (update order l (us ++ e :: vs)) := by
  have hl : Linked h l (xs ++ e :: ys) := ho ▸ hs.linked l
  obtain ⟨us, vs, h', hsplit, hus, hmove, hh'⟩ := hl.move h1 (by omega)
  refine ⟨us, vs, h', hsplit, by omega, hmove, ?_⟩
  rcases hh' with ⟨rfl, rfl, rfl⟩ | rfl
  · rw [← ho, Function.update_eq_self]
    exact hs
  · exact hs.recut ho hsplit

end Operations

end FreeJ
