import Mathlib.Logic.Equiv.Basic
import FreeJ.LinklistRun

/-!
# Positions in a Linked List

`Linklist::pick`, `Entry::swap`, `Entry::move` and `Linklist::sel` take a position in the list,
counted from 1. This module says on one well-formed list, whatever the rest of the heap is
like, for which members and positions they do what they are for, and what happens otherwise:
`pick` is indexing whichever end it walks from, and finds what `search` has found; `swap` tears
the list when it exchanges with an end that is not a neighbour, `move` follows a null pointer
for a position below 1 and for a single entry, and the loop of `sel` walks backward from the
first entry.

## Main results

* `pick_search`: picking is indexing along the forward walk, and undoes a search.
* `swap_transposes_iff`: when `swap` exchanges two entries and nothing else.
* `move_repositions_iff`: when `move` goes through, and where the entry ends.
* `sel_selects_iff`: when `sel` selects the entry at the position and no other.
-/

namespace FreeJ

open Function (update)
open Links

variable {E L : Type*} {h h' : Heap E L} {l : L} {e : E} {xs ys zs : List E} {pos : ℤ}

section OfList

variable [DecidableEq E]

/-- A list of entries appended one by one. -/
def Linklist.ofList (zs : List E) : Heap E Unit :=
  zs.foldl (fun h e => Linklist.append h () e) Heap.fresh

theorem Linklist.linked_ofList (hnd : zs.Nodup) : Linked (Linklist.ofList zs) () zs := by
  suffices hs : Shape (Linklist.ofList zs) fun _ => zs from hs.linked ()
  induction zs using List.reverseRecOn with
  | nil => exact Shape.fresh
  | append_singleton zs e ih =>
      have he : e ∉ zs := fun hmem => List.disjoint_of_nodup_append hnd hmem (by simp)
      have happ := (ih hnd.of_append_left).append () e
      rw [Linklist.ofList, List.foldl_append]
      refine happ.one ?_
      rw [Function.update_self, List.erase_of_not_mem he]

end OfList

/-! ### Picking by position -/

/-- Inside the list `pick` returns what the forward walk comes to at that position. -/
theorem Linked.pick_follow (hl : Linked h l zs) (h1 : 1 ≤ pos) (h2 : pos ≤ h.length l) :
    ∃ e, zs[(pos - 1).toNat]? = some e ∧
      follow h.next (pos - 1).toNat (h.first l) = some (some e) ∧
      Linklist.pick h l pos = some (some e) := by
  obtain ⟨us, e, vs, hzs, hus, hpick⟩ := hl.pick_split h1 h2
  have hget : zs[(pos - 1).toNat]? = some e := by
    rw [hl.pick, if_pos h1, Option.some.injEq] at hpick
    exact hpick
  refine ⟨e, hget, ?_, hpick⟩
  have hk : (pos - 1).toNat ≤ zs.length := by
    rw [hzs, List.length_append]
    omega
  rw [hl.strand.walk_next.follow_eq hk, hget]

/-- What `search` returns: an entry of that name, at a position before which `pick` returns
only entries of other names; or no entry, when there is none of that name. -/
theorem Linked.search_pick (hl : Linked h l zs) (names : E → CString) (name : CString) :
    ∃ found idx, Linklist.search h names l name = some (found, idx) ∧
      found = zs.find? (fun e => (names e).sameNoCase name) ∧
      ∀ e, found = some e → Linklist.pick h l idx = some (some e) ∧
        (names e).sameNoCase name = true ∧
        ∀ k x, k < idx → Linklist.pick h l k = some (some x) →
          (names x).sameNoCase name = false := by
  cases hfind : zs.find? fun e => (names e).sameNoCase name with
  | none =>
      have hsearch := hl.search_name names name
      obtain ⟨⟨found, idx⟩, hr, hfst⟩ := Option.map_eq_some_iff.mp hsearch
      obtain rfl : found = none := hfst.trans hfind
      exact ⟨none, idx, hr, rfl, fun e he => absurd he.symm (Option.some_ne_none e)⟩
  | some e =>
      obtain ⟨he, us, vs, hzs, hus⟩ := List.find?_eq_some_iff_append.mp hfind
      have hus : ∀ u ∈ us, (names u).sameNoCase name = false := fun u hu => by simpa using hus u hu
      subst hzs
      refine ⟨some e, us.length + 1, hl.search_found hus he, rfl, fun d hd => ?_⟩
      obtain rfl : e = d := Option.some.inj hd
      have hidx : ((us.length : ℤ) + 1 - 1).toNat = us.length := by omega
      refine ⟨?_, he, fun k x hk hpick => hus x ?_⟩
      · rw [hl.pick, if_pos (by omega), hidx, List.getElem?_append_right (Nat.le_refl _),
          Nat.sub_self, List.getElem?_cons_zero]
      · rw [hl.pick, Option.some.injEq] at hpick
        split at hpick
        · rw [List.getElem?_append_left (by omega)] at hpick
          exact List.mem_of_getElem? hpick
        · exact absurd hpick.symm (Option.some_ne_none x)

/-- **Picking is indexing, and undoes a search.** On every well-formed list and for every
integer, `pick` follows no null pointer, whichever end it walks from; in the list it returns
the entry that the forward walk comes to at that position, outside of it a null pointer. What
`search` returns `pick` finds at the position it gives, and it is the first entry on the
forward walk whose name matches whatever the case of the letters. -/
theorem pick_search (hl : Linked h l zs) :
    (∀ pos, 1 ≤ pos → pos ≤ h.length l → ∃ e, zs[(pos - 1).toNat]? = some e ∧
        follow h.next (pos - 1).toNat (h.first l) = some (some e) ∧
        Linklist.pick h l pos = some (some e)) ∧
      (∀ pos, pos < 1 ∨ h.length l < pos → Linklist.pick h l pos = some none) ∧
      ∀ names name, ∃ found idx, Linklist.search h names l name = some (found, idx) ∧
        found = zs.find? (fun e => (names e).sameNoCase name) ∧
        ∀ e, found = some e → Linklist.pick h l idx = some (some e) ∧
          (names e).sameNoCase name = true ∧
          ∀ k x, k < idx → Linklist.pick h l k = some (some x) →
            (names x).sameNoCase name = false :=
  ⟨fun _ h1 h2 => hl.pick_follow h1 h2, fun _ hpos => hl.pick_eq_none hpos, hl.search_pick⟩

/-- The names of a few entries. -/
def entryNames : ℕ → CString
  | 0 => .ofString "alpha"
  | 1 => .ofString "Beta"
  | _ => .ofString "beta"

/-- The second of three entries is found under its name in capitals, and picked where it was
found. -/
theorem pick_search_beta :
    ∃ found idx, Linklist.search (Linklist.ofList [0, 1, 2]) entryNames () (.ofString "BETA") =
        some (found, idx) ∧
      found = some 1 ∧ Linklist.pick (Linklist.ofList [0, 1, 2]) () idx = some (some 1) := by
  have hl : Linked (Linklist.ofList [0, 1, 2]) () [0, 1, 2] :=
    Linklist.linked_ofList (by decide)
  obtain ⟨found, idx, hsearch, hfound, hpick⟩ :=
    (pick_search hl).2.2 entryNames (.ofString "BETA")
  have hsome : found = some 1 := hfound.trans (by decide)
  exact ⟨found, idx, hsearch, hsome, (hpick 1 hsome).1⟩

/-! ### Exchanging two entries -/

/-- Where a `next` link of a member leads, `prev` leads back. -/
theorem Linked.prev_of_next (hl : Linked h l zs) {x y : E} (hx : x ∈ zs)
    (hn : h.next x = some y) : h.prev y = some x := by
  obtain ⟨us, vs, rfl⟩ := List.append_of_mem hx
  have hst := hl.strand
  rw [hst.links.1] at hn
  obtain ⟨ws, rfl⟩ : ∃ ws, vs = y :: ws := ⟨vs.tail, (List.cons_head?_tail hn).symm⟩
  have hst' : Strand h l ((us ++ [x]) ++ y :: ws) := by simpa using hst
  rw [hst'.links.2, List.getLast?_concat]

/-- Where a `prev` link of a member leads, `next` leads back. -/
theorem Linked.next_of_prev (hl : Linked h l zs) {x y : E} (hx : x ∈ zs)
    (hp : h.prev x = some y) : h.next y = some x := by
  obtain ⟨us, vs, rfl⟩ := List.append_of_mem hx
  have hst := hl.strand
  rw [hst.links.2] at hp
  obtain ⟨ws, rfl⟩ := List.getLast?_eq_some_iff.mp hp
  have hst' : Strand h l (ws ++ y :: x :: vs) := by simpa using hst
  rw [hst'.links.1, List.head?_cons]

section Exchange

variable [DecidableEq E] [DecidableEq L]

omit [DecidableEq L] in
/-- Applying a transposition to a list exchanges the two entries. -/
theorem map_swap {p : E} {ms : List E} (hnd : (xs ++ p :: (ms ++ e :: ys)).Nodup) :
    (xs ++ p :: (ms ++ e :: ys)).map (Equiv.swap e p) = xs ++ e :: (ms ++ p :: ys) := by
  have hid : ∀ ws : List E, p ∉ ws → e ∉ ws → ws.map (Equiv.swap e p) = ws := by
    intro ws hp he
    refine (List.map_congr_left fun x hx => ?_).trans (List.map_id ws)
    exact Equiv.swap_apply_of_ne_of_ne (ne_of_mem_of_not_mem hx he) (ne_of_mem_of_not_mem hx hp)
  simp only [List.nodup_append', List.nodup_cons, List.disjoint_cons_right,
    List.disjoint_append_right, List.mem_append, List.mem_cons, not_or] at hnd
  obtain ⟨-, ⟨⟨hpm, hpe, hpy⟩, -, ⟨hey, -⟩, hem, -⟩, hpx, hxm, hex, -⟩ := hnd
  rw [List.map_append, List.map_cons, List.map_append, List.map_cons, hid xs hpx hex,
    hid ms hpm hem, hid ys hpy hey, Equiv.swap_apply_left, Equiv.swap_apply_right]

/-- Exchange the entries `p` and `e` of list `l`, with `m` to `m'` between them; the ends of the
list follow. -/
def Heap.exchange (h : Heap E L) (l : L) (before : Option E) (p m m' e : E)
    (after : Option E) : Heap E L :=
  { h with
    next := relink (update (update (update h.next p after) e (some m)) m' (some p)) before (some e)
    prev := relink (update (update (update h.prev p (some m')) e before) m (some e)) after (some p)
    first := setEnd h.first l before (some e)
    last := setEnd h.last l after (some p) }

/-- Exchanging two entries of a strand that are not neighbours. -/
theorem Strand.exchange {p m m' : E} {ms : List E} (hs : Strand h l (xs ++ p :: (ms ++ e :: ys)))
    (hnd : (xs ++ p :: (ms ++ e :: ys)).Nodup) (hm : ms.head? = some m)
    (hm' : ms.getLast? = some m') :
    Strand (h.exchange l xs.getLast? p m m' e ys.head?) l (xs ++ e :: (ms ++ p :: ys)) := by
  refine ⟨?_, ?_, ?_⟩
  · simpa [Heap.exchange] using hs.chain.exchange hnd hm hm'
  · have hf := hs.first
    rcases xs.eq_nil_or_concat with rfl | ⟨us, x, rfl⟩
    · simp [Heap.exchange]
    · simpa [Heap.exchange] using hf
  · have hf := hs.last
    have hold : xs ++ p :: (ms ++ e :: ys) = (xs ++ p :: ms) ++ e :: ys := by simp
    have hnew : xs ++ e :: (ms ++ p :: ys) = (xs ++ e :: ms) ++ p :: ys := by simp
    rw [hold, List.getLast?_append_cons] at hf
    rw [hnew, List.getLast?_append_cons]
    cases ys with
    | nil => simp [Heap.exchange]
    | cons y vs => simpa [Heap.exchange] using hf

omit [DecidableEq E] [DecidableEq L] in
/-- The links of two entries of a strand. -/
theorem Strand.pair_links {p : E} {ms : List E} (hs : Strand h l (xs ++ p :: (ms ++ e :: ys))) :
    h.next p = (ms ++ e :: ys).head? ∧ h.prev p = xs.getLast? ∧ h.next e = ys.head? ∧
      h.prev e = (p :: ms).getLast? := by
  have hse : Strand h l ((xs ++ p :: ms) ++ e :: ys) := by simpa using hs
  obtain ⟨hn, hp⟩ := hs.links
  obtain ⟨hn', hp'⟩ := hse.links
  exact ⟨hn, hp, hn', by rw [hp', List.getLast?_append_cons]⟩

omit [DecidableEq E] [DecidableEq L] in
/-- The entries around two entries of a list are none of these. -/
theorem pair_apart {p : E} {ms : List E} (hnd : (xs ++ p :: (ms ++ e :: ys)).Nodup) :
    p ≠ e ∧ (∀ x ∈ ms, x ≠ p ∧ x ≠ e) ∧
      (∀ x, xs.getLast? = some x → x ≠ p ∧ x ≠ e ∧ x ∉ ms) ∧
      ∀ y, ys.head? = some y → y ≠ p ∧ y ≠ e ∧ y ∉ ms := by
  simp only [List.nodup_append', List.nodup_cons, List.disjoint_cons_right,
    List.disjoint_append_right, List.mem_append, List.mem_cons, not_or] at hnd
  obtain ⟨-, ⟨⟨hpm, hpe, hpy⟩, -, ⟨hey, -⟩, hem, hmy⟩, hpx, hxm, hex, -⟩ := hnd
  refine ⟨hpe, fun x hx => ?_, fun x hx => ?_, fun y hy => ?_⟩
  · exact ⟨ne_of_mem_of_not_mem hx hpm, ne_of_mem_of_not_mem hx hem⟩
  · have hmem := List.mem_of_getLast? hx
    exact ⟨ne_of_mem_of_not_mem hmem hpx, ne_of_mem_of_not_mem hmem hex, hxm hmem⟩
  · have hmem := List.mem_of_mem_head? hy
    exact ⟨ne_of_mem_of_not_mem hmem hpy, ne_of_mem_of_not_mem hmem hey, fun hym => hmy hym hmem⟩

/-- Exchanging an entry with its successor, and exchanging that one with its predecessor. -/
theorem Entry.exchange_pair {p : E} (hs : Strand h l (xs ++ p :: e :: ys))
    (hnd : (xs ++ p :: e :: ys).Nodup) :
    Entry.exchange h p l e = h.swap l xs.getLast? p e ys.head? ∧
      Entry.exchange h e l p = h.swap l xs.getLast? p e ys.head? := by
  have hs0 : Strand h l (xs ++ p :: ([] ++ e :: ys)) := hs
  have hnd0 : (xs ++ p :: ([] ++ e :: ys)).Nodup := hnd
  obtain ⟨hn, hp, hn', hp'⟩ := hs0.pair_links
  obtain ⟨hpe, -, hx, hy⟩ := pair_apart hnd0
  unfold Entry.exchange Heap.swap
  simp only [Entry.swapHead, Entry.swapTail, hn, hp, hn', hp']
  rcases hb : xs.getLast? with _ | x <;> rcases ha : ys.head? with _ | y
  · simp [hpe.symm, Function.update_comm hpe]
  · obtain ⟨hyp, hye, -⟩ := hy y ha
    simp [hpe.symm, hyp, Function.update_comm hpe, Function.update_comm hyp.symm,
      Function.update_comm hye.symm]
  · obtain ⟨hxp, hxe, -⟩ := hx x hb
    simp [hpe.symm, hxe, Function.update_comm hpe, Function.update_comm hxp.symm,
      Function.update_comm hxe.symm]
  · obtain ⟨hyp, hye, -⟩ := hy y ha
    obtain ⟨hxp, hxe, -⟩ := hx x hb
    simp [hpe.symm, hyp, hxe, Function.update_comm hpe, Function.update_comm hyp.symm,
      Function.update_comm hye.symm, Function.update_comm hxp.symm, Function.update_comm hxe.symm]

/-- Exchanging an entry with one further ahead that is not the first. -/
theorem Entry.exchange_ahead {p m m' x : E} {ms us : List E}
    (hs : Strand h l ((us ++ [x]) ++ p :: (ms ++ e :: ys)))
    (hnd : ((us ++ [x]) ++ p :: (ms ++ e :: ys)).Nodup) (hm : ms.head? = some m)
    (hm' : ms.getLast? = some m') :
    Entry.exchange h e l p = h.exchange l (some x) p m m' e ys.head? := by
  obtain ⟨hn, hp, hn', hp'⟩ := hs.pair_links
  obtain ⟨hpe, hin, hx, hy⟩ := pair_apart hnd
  obtain ⟨hmp, hme⟩ := hin m (List.mem_of_mem_head? hm)
  obtain ⟨hmp', hme'⟩ := hin m' (List.mem_of_getLast? hm')
  have hlast : (us ++ [x]).getLast? = some x := List.getLast?_concat
  obtain ⟨hxp, hxe, hxm⟩ := hx x hlast
  have hxm' : x ≠ m' := (ne_of_mem_of_not_mem (List.mem_of_getLast? hm') hxm).symm
  rw [List.head?_append, hm, Option.some_or] at hn
  rw [List.getLast?_cons, hm', Option.getD_some] at hp'
  unfold Entry.exchange Heap.exchange
  simp only [Entry.swapHead, Entry.swapTail, hn, hp, hn', hp', hlast]
  rcases ha : ys.head? with _ | y
  · simp [hpe, hpe.symm, hxp.symm, hxe, hxe.symm, hmp', hmp'.symm, hme, hme'.symm,
      Function.update_comm hpe, Function.update_comm hxm']
  · obtain ⟨hyp, hye, hym⟩ := hy y ha
    simp [hpe, hpe.symm, hxp.symm, hxe, hxe.symm, hmp', hmp'.symm, hme, hme'.symm, hyp,
      Function.update_comm hpe, Function.update_comm hxm']

/-- Exchanging an entry with one further behind that is not the last. -/
theorem Entry.exchange_behind {p m m' y : E} {ms vs : List E}
    (hs : Strand h l (xs ++ p :: (ms ++ e :: y :: vs)))
    (hnd : (xs ++ p :: (ms ++ e :: y :: vs)).Nodup) (hm : ms.head? = some m)
    (hm' : ms.getLast? = some m') :
    Entry.exchange h p l e = h.exchange l xs.getLast? p m m' e (some y) := by
  obtain ⟨hn, hp, hn', hp'⟩ := hs.pair_links
  obtain ⟨hpe, hin, hx, hy⟩ := pair_apart hnd
  obtain ⟨hmp, hme⟩ := hin m (List.mem_of_mem_head? hm)
  obtain ⟨hmp', hme'⟩ := hin m' (List.mem_of_getLast? hm')
  obtain ⟨hyp, hye, hym⟩ := hy y rfl
  have hym' : y ≠ m := (ne_of_mem_of_not_mem (List.mem_of_mem_head? hm) hym).symm
  rw [List.head?_append, hm, Option.some_or] at hn
  rw [List.getLast?_cons, hm', Option.getD_some] at hp'
  rw [List.head?_cons] at hn'
  unfold Entry.exchange Heap.exchange
  simp only [Entry.swapHead, Entry.swapTail, hn, hp, hn', hp']
  rcases hb : xs.getLast? with _ | x
  · simp [hpe.symm, hyp, hmp', hmp'.symm, hme, hme'.symm, Function.update_comm hpe,
      Function.update_comm hym']
  · obtain ⟨hxp, hxe, hxm⟩ := hx x hb
    simp [hpe.symm, hyp, hmp', hmp'.symm, hme, hme'.symm, hxp.symm, hxe, hxe.symm,
      Function.update_comm hpe, Function.update_comm hym']

/-- Exchanging an entry with the first, further ahead: the entry before it still leads to it,
and it does not lead back. -/
theorem Entry.exchange_first {p m m' : E} {ms : List E}
    (hs : Strand h l (p :: (ms ++ e :: ys))) (hnd : (p :: (ms ++ e :: ys)).Nodup)
    (hm : ms.head? = some m) (hm' : ms.getLast? = some m') :
    (Entry.exchange h e l p).next m' = some e ∧ (Entry.exchange h e l p).prev e = none := by
  have hs0 : Strand h l ([] ++ p :: (ms ++ e :: ys)) := hs
  have hnd0 : ([] ++ p :: (ms ++ e :: ys)).Nodup := hnd
  obtain ⟨hn, hp, hn', hp'⟩ := hs0.pair_links
  obtain ⟨hpe, hin, -, hy⟩ := pair_apart hnd0
  obtain ⟨hmp, hme⟩ := hin m (List.mem_of_mem_head? hm)
  obtain ⟨hmp', hme'⟩ := hin m' (List.mem_of_getLast? hm')
  have hlead : h.next m' = some e := by
    obtain ⟨ws, rfl⟩ := List.getLast?_eq_some_iff.mp hm'
    have hs' : Strand h l ((p :: ws) ++ m' :: e :: ys) := by simpa using hs
    exact hs'.links.1
  rw [List.head?_append, hm, Option.some_or] at hn
  rw [List.getLast?_cons, hm', Option.getD_some] at hp'
  unfold Entry.exchange
  simp only [Entry.swapHead, Entry.swapTail, hn, hp, hn', hp', List.getLast?_nil]
  rcases ha : ys.head? with _ | y
  · simp [hpe, hmp', hme, hme.symm, hme', hlead]
  · obtain ⟨hyp, hye, -⟩ := hy y ha
    simp [hpe, hmp', hme, hme.symm, hme', hlead, hyp, hye.symm]

/-- Exchanging an entry with the last, further behind: the entry after it still leads back to
it, and it does not lead there. -/
theorem Entry.exchange_last {p m m' : E} {ms : List E}
    (hs : Strand h l (xs ++ p :: (ms ++ [e]))) (hnd : (xs ++ p :: (ms ++ [e])).Nodup)
    (hm : ms.head? = some m) (hm' : ms.getLast? = some m') :
    (Entry.exchange h p l e).prev m = some p ∧ (Entry.exchange h p l e).next p = none := by
  obtain ⟨hn, hp, hn', hp'⟩ := hs.pair_links
  obtain ⟨hpe, hin, hx, -⟩ := pair_apart hnd
  obtain ⟨hmp, hme⟩ := hin m (List.mem_of_mem_head? hm)
  obtain ⟨hmp', hme'⟩ := hin m' (List.mem_of_getLast? hm')
  have hlead : h.prev m = some p := by
    obtain ⟨ws, rfl⟩ : ∃ ws, ms = m :: ws := ⟨ms.tail, (List.cons_head?_tail hm).symm⟩
    have hs' : Strand h l ((xs ++ [p]) ++ m :: (ws ++ [e])) := by simpa using hs
    rw [hs'.links.2, List.getLast?_concat]
  rw [List.head?_append, hm, Option.some_or] at hn
  rw [List.getLast?_cons, hm', Option.getD_some] at hp'
  unfold Entry.exchange
  simp only [Entry.swapHead, Entry.swapTail, hn, hp, hn', hp', List.head?_nil]
  rcases hb : xs.getLast? with _ | x
  · simp [hpe.symm, hmp, hmp', hme, hmp'.symm, hlead]
  · obtain ⟨hxp, hxe, -⟩ := hx x hb
    simp [hpe.symm, hmp, hmp', hme, hmp'.symm, hlead, hxp.symm, hxe]

omit [DecidableEq E] [DecidableEq L] in
/-- Two entries exchanged make a rearrangement. -/
theorem perm_exchange {p : E} (ms : List E) :
    (xs ++ e :: (ms ++ p :: ys)).Perm (xs ++ p :: (ms ++ e :: ys)) := by
  refine List.Perm.append_left xs ?_
  calc (e :: (ms ++ p :: ys)).Perm (e :: p :: (ms ++ ys)) := List.perm_middle.cons e
    _ |>.Perm (p :: e :: (ms ++ ys)) := List.Perm.swap p e (ms ++ ys)
    _ |>.Perm (p :: (ms ++ e :: ys)) := (List.perm_middle.cons p).symm

/-- **Exchanging with an entry ahead** exchanges the two in the sequence when it is the one
just before, or not the first, and otherwise tears the list. -/
theorem Linked.exchange_ahead {p : E} {ms : List E} (hl : Linked h l (xs ++ p :: (ms ++ e :: ys))) :
    Linked (Entry.exchange h e l p) l (xs ++ e :: (ms ++ p :: ys)) ↔ ms = [] ∨ xs ≠ [] := by
  have hnd := hl.nodup
  rcases hms : ms with _ | ⟨m, ws⟩
  · subst hms
    refine iff_of_true ?_ (Or.inl rfl)
    rw [List.nil_append, (Entry.exchange_pair hl.strand hnd).2]
    exact hl.of_perm (perm_exchange []) (hl.strand.swap hnd) rfl rfl
  · obtain ⟨m', hm'⟩ : ∃ m', ms.getLast? = some m' := by simp [hms, List.getLast?_cons]
    have hm : ms.head? = some m := by rw [hms]; rfl
    rw [← hms]
    rcases xs.eq_nil_or_concat with rfl | ⟨us, x, rfl⟩
    · refine iff_of_false (fun hl' => ?_) (by simp [hms])
      obtain ⟨hlead, hback⟩ := Entry.exchange_first hl.strand hnd hm hm'
      have hmem : m' ∈ [] ++ e :: (ms ++ p :: ys) := by simp [List.mem_of_getLast? hm']
      rw [hl'.prev_of_next hmem hlead] at hback
      exact Option.some_ne_none m' hback
    · refine iff_of_true ?_ (Or.inr (by simp))
      rw [List.concat_eq_append] at hl hnd ⊢
      rw [Entry.exchange_ahead hl.strand hnd hm hm', ← List.getLast?_concat (l := us) (a := x)]
      exact hl.of_perm (perm_exchange _) (hl.strand.exchange hnd hm hm') rfl rfl

/-- **Exchanging with an entry behind** exchanges the two in the sequence when it is the one
just after, or not the last, and otherwise tears the list. -/
theorem Linked.exchange_behind {p : E} {ms : List E}
    (hl : Linked h l (xs ++ p :: (ms ++ e :: ys))) :
    Linked (Entry.exchange h p l e) l (xs ++ e :: (ms ++ p :: ys)) ↔ ms = [] ∨ ys ≠ [] := by
  have hnd := hl.nodup
  rcases hms : ms with _ | ⟨m, ws⟩
  · subst hms
    refine iff_of_true ?_ (Or.inl rfl)
    rw [List.nil_append, (Entry.exchange_pair hl.strand hnd).1]
    exact hl.of_perm (perm_exchange []) (hl.strand.swap hnd) rfl rfl
  · obtain ⟨m', hm'⟩ : ∃ m', ms.getLast? = some m' := by simp [hms, List.getLast?_cons]
    have hm : ms.head? = some m := by rw [hms]; rfl
    rw [← hms]
    rcases ys with _ | ⟨y, vs⟩
    · refine iff_of_false (fun hl' => ?_) (by simp [hms])
      obtain ⟨hlead, hback⟩ := Entry.exchange_last hl.strand hnd hm hm'
      have hmem : m ∈ xs ++ e :: (ms ++ [p]) := by simp [List.mem_of_mem_head? hm]
      rw [hl'.next_of_prev hmem hlead] at hback
      exact Option.some_ne_none m hback
    · refine iff_of_true ?_ (Or.inr (by simp))
      rw [Entry.exchange_behind hl.strand hnd hm hm', ← List.head?_cons (a := y) (l := vs)]
      exact hl.of_perm (perm_exchange _) (hl.strand.exchange hnd hm hm') rfl rfl

omit [DecidableEq L] in
/-- The index of an entry in front of which it does not stand. -/
theorem idxOf_middle (hnd : (xs ++ e :: ys).Nodup) : (xs ++ e :: ys).idxOf e = xs.length := by
  have hex : e ∉ xs := fun hmem => List.disjoint_of_nodup_append hnd hmem List.mem_cons_self
  rw [List.idxOf_append_of_notMem hex, List.idxOf_cons_self, Nat.add_zero]

/-- `swap` of a member with the entry at a position. -/
theorem Linked.swap_eq (hl : Linked h l zs) (he : e ∈ zs) {d : E}
    (hpick : Linklist.pick h l pos = some (some d)) :
    Entry.swap h e pos = some (true, if d = e then h else Entry.exchange h e l d) := by
  simp only [Entry.swap]
  rw [hl.list e he]
  simp only [hpick, Option.map_some]
  split <;> rfl

/-- **When `swap` is a transposition.** On every well-formed list, for every member and every
position of the list, `swap` leaves a well-formed list in which the two entries are exchanged
and the others are where they were, if and only if the two are the same or neighbours, or
the position is neither the first nor the last. -/
theorem swap_transposes_iff (hl : Linked h l zs) (he : e ∈ zs) (h1 : 1 ≤ pos)
    (h2 : pos ≤ h.length l) :
    (∃ d h', Linklist.pick h l pos = some (some d) ∧ Entry.swap h e pos = some (true, h') ∧
        Linked h' l (zs.map (Equiv.swap e d))) ↔
      (pos - (zs.idxOf e + 1)).natAbs ≤ 1 ∨ 1 < pos ∧ pos < h.length l := by
  obtain ⟨us, d, vs, hzs, hus, hpick⟩ := hl.pick_split h1 h2
  have hiff : (∃ d h', Linklist.pick h l pos = some (some d) ∧
      Entry.swap h e pos = some (true, h') ∧ Linked h' l (zs.map (Equiv.swap e d))) ↔
        Linked (if d = e then h else Entry.exchange h e l d) l (zs.map (Equiv.swap e d)) := by
    refine ⟨?_, fun hl' => ⟨d, _, hpick, hl.swap_eq he hpick, hl'⟩⟩
    rintro ⟨d', h', hpick', hswap, hl'⟩
    rw [hpick, Option.some.injEq, Option.some.injEq] at hpick'
    rw [hl.swap_eq he hpick, Option.some.injEq, Prod.mk.injEq] at hswap
    rw [← hpick', ← hswap.2] at hl'
    exact hl'
  rw [hiff]
  have hlen := hl.length
  have hnd := hl.nodup
  subst hzs
  rw [List.length_append, List.length_cons] at hlen
  push_cast at hlen
  rcases List.mem_append.mp he with hmem | hmem
  · obtain ⟨xs, ms, rfl⟩ := List.append_of_mem hmem
    rw [List.append_assoc, List.cons_append] at hl hnd ⊢
    have hne : d ≠ e := (pair_apart hnd).1.symm
    have hends : vs = [] ↔ pos = h.length l := by
      rw [← List.length_eq_zero_iff]
      omega
    rw [List.length_append, List.length_cons] at hus
    push_cast at hus
    have hmid : ms = [] ↔ (pos - ((xs.length : ℤ) + 1)).natAbs ≤ 1 := by
      rw [← List.length_eq_zero_iff]
      omega
    rw [if_neg hne, Equiv.swap_comm, map_swap hnd, hl.exchange_behind, idxOf_middle hnd, hmid,
      Ne, hends]
    omega
  · rcases List.mem_cons.mp hmem with rfl | hmem
    · rw [idxOf_middle hnd, if_pos rfl, Equiv.swap_self, Equiv.coe_refl, List.map_id]
      exact iff_of_true hl (Or.inl (by omega))
    · obtain ⟨ms, ys, rfl⟩ := List.append_of_mem hmem
      have hne : d ≠ e := (pair_apart hnd).1
      have hends : us = [] ↔ pos = 1 := by
        rw [← List.length_eq_zero_iff]
        omega
      have hsplit : us ++ d :: (ms ++ e :: ys) = (us ++ d :: ms) ++ e :: ys := by simp
      have hidx : (us ++ d :: (ms ++ e :: ys)).idxOf e = us.length + (ms.length + 1) := by
        rw [hsplit, idxOf_middle (hsplit ▸ hnd)]
        simp
      have hmid : ms = [] ↔
          (pos - (((us.length + (ms.length + 1) : ℕ) : ℤ) + 1)).natAbs ≤ 1 := by
        rw [← List.length_eq_zero_iff]
        omega
      rw [if_neg hne, map_swap hnd, hl.exchange_ahead, hidx, hmid, Ne, hends]
      rw [List.length_append, List.length_cons] at hlen
      push_cast at hlen
      omega

/-- The last of three entries is exchanged with the one before it. -/
theorem swap_transposes_neighbour :
    ∃ d h', Linklist.pick (Linklist.ofList [0, 1, 2]) () 2 = some (some d) ∧
      Entry.swap (Linklist.ofList [0, 1, 2]) 2 2 = some (true, h') ∧
      Linked h' () ([0, 1, 2].map (Equiv.swap 2 d)) :=
  (swap_transposes_iff (Linklist.linked_ofList (by decide)) (by decide) (by decide)
    (by decide)).mpr (Or.inl (by decide))

/-- **A torn list.** The last of three entries exchanged with the first: walking forward, one
goes round between the last and the middle entry. -/
theorem swap_tears :
    ∃ h', Entry.swap (Linklist.ofList [0, 1, 2]) 2 1 = some (true, h') ∧
      h'.first () = some 2 ∧ h'.next 2 = some 1 ∧ h'.next 1 = some 2 ∧
      ∀ zs : List ℕ, ¬ Linked h' () zs := by
  refine ⟨_, rfl, rfl, rfl, rfl, fun zs hl => ?_⟩
  -- going forward one meets the middle entry, from which there is no way back
  have hmem : 1 ∈ zs := by
    rcases zs with _ | ⟨x, _ | ⟨y, zs⟩⟩
    · exact absurd hl.strand.walk_next (Option.some_ne_none _)
    · obtain ⟨hx, hnext⟩ := hl.strand.walk_next
      obtain rfl : 2 = x := Option.some.inj hx
      exact absurd hnext (Option.some_ne_none _)
    · obtain ⟨hx, hy, -⟩ := hl.strand.walk_next
      obtain rfl : 2 = x := Option.some.inj hx
      obtain rfl : 1 = y := Option.some.inj hy
      simp
  exact Option.some_ne_none _ (hl.prev_of_next hmem (y := 2) rfl).symm

/-! ### Moving to any position -/

/-- **When `move` repositions.** On every well-formed list, for every member and every integer,
`move` follows no null pointer and leaves a well-formed list with the same members, the entry
at the position or at the end and the others in their order, if and only if the position is
1, or it is greater and the list has another entry. -/
theorem move_repositions_iff (hl : Linked h l zs) (he : e ∈ zs) (pos : ℤ) :
    (∃ moved h' zs', Entry.move h e pos = some (moved, h') ∧ Linked h' l zs' ∧ zs'.Perm zs ∧
        (1 ≤ pos → zs'[(min pos (h.length l) - 1).toNat]? = some e ∧
          zs'.erase e = zs.erase e)) ↔
      pos = 1 ∨ 1 < pos ∧ 2 ≤ h.length l := by
  obtain ⟨xs, ys, rfl⟩ := List.append_of_mem he
  have hex : e ∉ xs := fun hmem =>
    List.disjoint_of_nodup_append hl.nodup hmem List.mem_cons_self
  have hlen : 1 ≤ h.length l := by
    rw [hl.length, List.length_append, List.length_cons]
    push_cast
    omega
  constructor
  · rintro ⟨moved, h', zs', hmove, -⟩
    by_contra hpos
    rw [hl.move_eq_none (by omega)] at hmove
    exact Option.some_ne_none _ hmove.symm
  · intro hpos
    have h1 : 1 ≤ pos := by omega
    obtain ⟨us, vs, h', hsplit, hus, hmove, hh'⟩ := hl.move h1 (by omega)
    have hl' : Linked h' l (us ++ e :: vs) := by
      rcases hh' with ⟨rfl, rfl, rfl⟩ | rfl
      · exact hl
      · exact hl.recut hsplit
    have heu : e ∉ us := fun hmem =>
      List.disjoint_of_nodup_append hl'.nodup hmem List.mem_cons_self
    refine ⟨true, h', us ++ e :: vs, hmove, hl', ?_, fun _ => ⟨?_, ?_⟩⟩
    · refine List.perm_middle.trans (List.Perm.trans ?_ List.perm_middle.symm)
      rw [hsplit]
    · rw [List.getElem?_append_right (by omega)]
      have hidx : (min pos (h.length l) - 1).toNat - us.length = 0 := by omega
      rw [hidx, List.getElem?_cons_zero]
    · rw [List.erase_append_right _ heu, List.erase_append_right _ hex, List.erase_cons_head,
        List.erase_cons_head, hsplit]

/-- The first of three entries is moved behind the last. -/
theorem move_repositions_behind :
    ∃ moved h' zs', Entry.move (Linklist.ofList [0, 1, 2]) 0 7 = some (moved, h') ∧
      Linked h' () zs' ∧ zs'.Perm [0, 1, 2] ∧
      (1 ≤ (7 : ℤ) →
        zs'[(min 7 ((Linklist.ofList [0, 1, 2]).length ()) - 1).toNat]? = some 0 ∧
          zs'.erase 0 = [0, 1, 2].erase 0) :=
  (move_repositions_iff (Linklist.linked_ofList (by decide)) (by decide) 7).mpr
    (Or.inr (by decide))

/-- **Null pointers.** Moving the only entry of a list to position 2, and moving the first of
two entries to position 0. -/
theorem move_crashes :
    Entry.move (Linklist.ofList [0]) 0 2 = none ∧ Entry.move (Linklist.ofList [0, 1]) 0 0 = none :=
  ⟨rfl, rfl⟩

/-! ### Selecting by position -/

/-- **When `sel` selects.** On every well-formed list and for every position in it, `sel` goes
through, selects the entry that `pick` returns and no other, and `selected` returns it, if and
only if the list has a single entry. -/
theorem sel_selects_iff (hl : Linked h l zs) (h1 : 1 ≤ pos) (h2 : pos ≤ h.length l) :
    (∃ h', Linklist.sel h l pos = some h' ∧
        (∀ x ∈ zs, (h'.select x = true ↔ Linklist.pick h l pos = some (some x))) ∧
        Linklist.pick h l pos = some (Linklist.selected h' l)) ↔
      h.length l = 1 := by
  have hlen := hl.length
  rcases zs with _ | ⟨x, zs⟩
  · rw [List.length_nil] at hlen
    omega
  · have hfirst : h.first l = some x := hl.strand.first
    have hst : Strand h l ([] ++ x :: zs) := hl.strand
    have hprev : h.prev x = none := hst.links.2
    rw [List.length_cons] at hlen
    push_cast at hlen
    simp only [Linklist.sel]
    rw [hfirst]
    simp only [if_neg (show ¬ pos > h.length l by omega), if_neg (show ¬ pos = 0 by omega)]
    rcases zs with _ | ⟨y, zs⟩
    · obtain rfl : pos = 1 := by
        rw [List.length_nil] at hlen
        push_cast at hlen
        omega
      have hone : h.length l = 1 := by simpa using hlen
      have hpick : Linklist.pick h l 1 = some (some x) := by rw [hl.pick]; rfl
      have hsel : Linklist.selectOnly h 1 (h.length l).toNat 1 (some x) =
          some (Entry.sel h x true) := by
        rw [hone]
        rfl
      have hx : Entry.sel h x true =
          { h with
            select := update h.select x true
            selection := update h.selection l (some x) } := by
        simp only [Entry.sel]
        rw [hl.list x (by simp)]
        simp
      refine iff_of_true ⟨_, hsel, fun y hy => ?_, ?_⟩ hone
      · obtain rfl : y = x := by simpa using hy
        rw [hx, hpick]
        simp
      · rw [hx, hpick]
        simp [Linklist.selected, hfirst]
    · refine iff_of_false ?_ (by simp at hlen; omega)
      rintro ⟨h', hsel, -⟩
      obtain ⟨k, hk⟩ : ∃ k : ℕ, (h.length l).toNat = k + 2 := ⟨zs.length, by simp at hlen; omega⟩
      -- the second round starts from the null pointer before the first entry
      rw [hk, Linklist.selectOnly, hprev, Linklist.selectOnly] at hsel
      exact Option.some_ne_none _ hsel.symm

/-- The only entry of a list is selected. -/
theorem sel_selects_single :
    ∃ h', Linklist.sel (Linklist.ofList [5]) () 1 = some h' ∧
      (∀ x ∈ [5], (h'.select x = true ↔
        Linklist.pick (Linklist.ofList [5]) () 1 = some (some x))) ∧
      Linklist.pick (Linklist.ofList [5]) () 1 = some (Linklist.selected h' ()) :=
  (sel_selects_iff (Linklist.linked_ofList (by decide)) (by decide) (by decide)).mpr (by decide)

/-- **A null pointer.** Selecting the first or the second of two entries. -/
theorem sel_crashes :
    Linklist.sel (Linklist.ofList [0, 1]) () 1 = none ∧
      Linklist.sel (Linklist.ofList [0, 1]) () 2 = none :=
  ⟨rfl, rfl⟩

end Exchange

end FreeJ
