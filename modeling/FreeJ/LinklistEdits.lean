import FreeJ.LinklistPositions

/-!
# Insertion and Neighbours

`Linklist::insert` puts an entry at a position, where "the element occupying already the
position slides down" and a position out of bounds stands for the beginning or the end. It
takes the position of the last entry for one out of bounds. `Entry::up` and `Entry::down`
exchange an entry with a neighbour, and undo each other.

The results are about one well-formed list, whatever the rest of the heap is like.

## Main results

* `insert_slides_iff`: when `insert` puts a free entry where its comment says.
* `up_down_inverse`: `up` and `down` exchange neighbours and are inverse to each other.
-/

namespace FreeJ

open Function (update)
open Links

variable {E L : Type*} {h h' : Heap E L} {l : L} {e : E} {xs ys zs : List E} {pos : ℤ}

/-! ### Insertion -/

/-- A list with `e` at a position counted from 1, or at the beginning or the end when the
position is out of bounds; the entries from that position on slide down. -/
def insertAt (zs : List E) (e : E) (pos : ℤ) : List E :=
  let index := max 1 (min pos (zs.length + 1))
  zs.take (index - 1).toNat ++ e :: zs.drop (index - 1).toNat

theorem insertAt_of_le (hpos : pos ≤ 1) : insertAt zs e pos = e :: zs := by
  have hi : (max 1 (min pos ((zs.length : ℤ) + 1)) - 1).toNat = 0 := by omega
  simp only [insertAt, hi, List.take_zero, List.drop_zero, List.nil_append]

theorem insertAt_of_lt (hpos : (zs.length : ℤ) < pos) : insertAt zs e pos = zs ++ [e] := by
  have hi : (max 1 (min pos ((zs.length : ℤ) + 1)) - 1).toNat = zs.length := by omega
  simp only [insertAt, hi, List.take_length, List.drop_length]

theorem insertAt_append (hxs : (xs.length : ℤ) = pos - 1) :
    insertAt (xs ++ ys) e pos = xs ++ e :: ys := by
  have hi : (max 1 (min pos (((xs ++ ys).length : ℤ) + 1)) - 1).toNat = xs.length := by
    rw [List.length_append]
    omega
  simp only [insertAt, hi, List.take_left, List.drop_left]

/-- The entry that was inserted is at its position. -/
theorem getElem?_insertAt (h1 : 1 ≤ pos) (h2 : pos ≤ zs.length + 1) :
    (insertAt zs e pos)[(pos - 1).toNat]? = some e := by
  have hi : max 1 (min pos ((zs.length : ℤ) + 1)) - 1 = pos - 1 := by omega
  have hlen : (zs.take (pos - 1).toNat).length = (pos - 1).toNat :=
    List.length_take_of_le (by omega)
  simp only [insertAt, hi]
  rw [List.getElem?_append_right (by omega), hlen, Nat.sub_self]
  rfl

/-- An entry in no list is none of the members. -/
theorem Linked.notMem_of_free (hl : Linked h l zs) (he : h.list e = none) : e ∉ zs :=
  fun hmem => absurd (he.symm.trans (hl.list e hmem)) (by simp)

/-- What a list is cannot be said in two ways. -/
theorem Linked.unique (hl : Linked h l xs) (hl' : Linked h l ys) : xs = ys :=
  hl.strand.walk_next.unique hl'.strand.walk_next

section Insert

variable [DecidableEq E] [DecidableEq L]

/-- Joining a free entry in, with the bookkeeping of the list pointer and the length. -/
theorem Linked.join (hl : Linked h l (xs ++ ys)) (he : h.list e = none) :
    Linked { h.join l xs.getLast? e ys.head? with
      list := update h.list e (some l)
      length := update h.length l (h.length l + 1) } l (xs ++ e :: ys) := by
  have hexy := hl.notMem_of_free he
  have hnd : (xs ++ e :: ys).Nodup :=
    List.nodup_middle.mpr (List.nodup_cons.mpr ⟨hexy, hl.nodup⟩)
  have hjoin := hl.strand.join hnd
  refine ⟨⟨hjoin.chain, hjoin.first, hjoin.last⟩, hnd, ?_, fun x hx => ?_⟩
  · have hlen := hl.length
    simp only [Function.update_self, hlen, List.length_append, List.length_cons]
    push_cast
    omega
  · by_cases hxe : x = e
    · subst hxe
      exact Function.update_self _ _ _
    · simp only [Function.update_of_ne hxe]
      refine hl.list x ?_
      simp only [List.mem_append, List.mem_cons] at hx ⊢
      tauto

/-- `append` of a free entry. -/
theorem Linked.append (hl : Linked h l zs) (he : h.list e = none) :
    Linked (Linklist.append h l e) l (zs ++ [e]) := by
  have hl' : Linked h l (zs ++ []) := by simpa using hl
  rw [Linklist.append_eq he, hl.strand.last]
  exact hl'.join he

/-- `prepend` of a free entry. -/
theorem Linked.prepend (hl : Linked h l zs) (he : h.list e = none) :
    Linked (Linklist.prepend h l e) l (e :: zs) := by
  have hl' : Linked h l ([] ++ zs) := hl
  rw [Linklist.prepend_eq he, hl.strand.first]
  exact hl'.join he

/-- **What `insert` does with a free entry**: at the position of the last entry it appends. -/
theorem Linked.insert (hl : Linked h l zs) (he : h.list e = none) (pos : ℤ) :
    ∃ h', Linklist.insert h l e pos = some h' ∧
      Linked h' l (if pos = zs.length then zs ++ [e] else insertAt zs e pos) := by
  have hlen := hl.length
  by_cases h1 : h.length l ≤ pos
  · refine ⟨Linklist.append h l e, if_pos h1, ?_⟩
    split
    · exact hl.append he
    · rw [insertAt_of_lt (by omega)]
      exact hl.append he
  · rw [if_neg (by omega)]
    by_cases h2 : pos ≤ 1
    · refine ⟨Linklist.prepend h l e, (if_neg h1).trans (if_pos h2), ?_⟩
      rw [insertAt_of_le h2]
      exact hl.prepend he
    · have hrem : Entry.rem h e = h := by
        simp only [Entry.rem]
        rw [he]
      obtain ⟨us, ptr, vs, rfl, hus, hpick⟩ :=
        hl.pick_split (Int.le_of_lt (Int.not_le.mp h2)) (Int.le_of_lt (Int.not_le.mp h1))
      -- position 1 is not strictly inside, so that somebody stands before
      obtain ⟨us', before, rfl⟩ := us.eq_nil_or_concat.resolve_left fun hnil => by
        rw [hnil, List.length_nil] at hus
        omega
      rw [List.concat_eq_append] at hl hus ⊢
      have hprev : h.prev ptr = some before := by
        rw [hl.strand.links.2, List.getLast?_concat]
      have hne : e ≠ ptr := by
        rintro rfl
        exact hl.notMem_of_free he (by simp)
      have hins := Linklist.insert_eq (Int.not_le.mp h2) (Int.not_le.mp h1) (by rwa [hrem])
        (by rwa [hrem]) hne
      rw [hrem] at hins
      refine ⟨_, hins, ?_⟩
      rw [insertAt_append hus]
      simpa using hl.join he

/-- **When `insert` puts a free entry at its position**, the others keeping their order: unless
the position is that of the last entry. -/
theorem insert_slides_iff (hl : Linked h l zs) (he : h.list e = none) (pos : ℤ) :
    (∃ h', Linklist.insert h l e pos = some h' ∧ Linked h' l (insertAt zs e pos) ∧
        h'.length l = zs.length + 1 ∧
        (1 ≤ pos → pos ≤ zs.length + 1 → Linklist.pick h' l pos = some (some e))) ↔
      pos ≠ zs.length ∨ zs = [] := by
  obtain ⟨h₁, hins, hl₁⟩ := hl.insert he pos
  constructor
  · rintro ⟨h', hins', hl', -, -⟩
    obtain rfl : h₁ = h' := Option.some.inj (hins.symm.trans hins')
    by_contra hnot
    obtain ⟨hpos, hne⟩ := not_or.mp hnot
    have hpos : pos = zs.length := not_ne_iff.mp hpos
    obtain ⟨us, d, rfl⟩ := zs.eq_nil_or_concat.resolve_left hne
    rw [List.concat_eq_append] at hl hl₁ hl' hpos
    rw [if_pos hpos] at hl₁
    -- the last entry would have had to make room
    have hus : (us.length : ℤ) = pos - 1 := by
      rw [hpos, List.length_append, List.length_singleton]
      push_cast
      omega
    have heq := hl₁.unique hl'
    rw [insertAt_append hus, List.append_assoc, List.append_cancel_left_eq] at heq
    obtain ⟨rfl, -⟩ := List.cons.inj heq
    exact hl.notMem_of_free he (by simp)
  · intro hpos
    have heq : (if pos = zs.length then zs ++ [e] else insertAt zs e pos) =
        insertAt zs e pos := by
      split
      · rename_i heq
        obtain rfl : zs = [] := hpos.resolve_left (not_ne_iff.mpr heq)
        have hpos : pos = 0 := by simpa using heq
        rw [insertAt_of_le (by omega)]
        rfl
      · rfl
    rw [heq] at hl₁
    refine ⟨h₁, hins, hl₁, ?_, fun h1 h2 => ?_⟩
    · rw [hl₁.length]
      simp only [insertAt, List.length_append, List.length_cons, List.length_take,
        List.length_drop]
      omega
    · rw [hl₁.pick, if_pos h1, getElem?_insertAt h1 h2]

/-- The second entry makes room for a new one. -/
theorem insert_slides_second :
    ∃ h', Linklist.insert (Linklist.ofList [0, 1, 2]) () 3 2 = some h' ∧
      Linked h' () (insertAt [0, 1, 2] 3 2) ∧ h'.length () = ([0, 1, 2] : List ℕ).length + 1 ∧
      (1 ≤ (2 : ℤ) → (2 : ℤ) ≤ ([0, 1, 2] : List ℕ).length + 1 →
        Linklist.pick h' () 2 = some (some 3)) :=
  (insert_slides_iff (Linklist.linked_ofList (by decide)) rfl 2).mpr (Or.inl (by decide))

/-- The only entry does not make room: the new one ends up behind it. -/
theorem insert_behind_last :
    ∃ h', Linklist.insert (Linklist.ofList [0]) () 1 1 = some h' ∧ Linked h' () [0, 1] ∧
      Linklist.pick h' () 1 = some (some 0) ∧ insertAt [0] 1 1 = [1, 0] := by
  refine ⟨_, rfl, ?_, rfl, rfl⟩
  have hlinked : Linked (Linklist.ofList [0, 1]) () [0, 1] := Linklist.linked_ofList (by decide)
  exact hlinked

end Insert

/-! ### Neighbours -/

section Neighbours

variable [DecidableEq E] [DecidableEq L] {p : E}

attribute [ext] Heap

/-- Exchanging two neighbours twice restores the links forward. -/
theorem Strand.swap_swap_next (hs : Strand h l (xs ++ p :: e :: ys)) :
    ((h.swap l xs.getLast? p e ys.head?).swap l xs.getLast? e p ys.head?).next = h.next := by
  have hs0 : Strand h l (xs ++ p :: ([] ++ e :: ys)) := hs
  obtain ⟨hn, -, hn', -⟩ := hs0.pair_links
  have hbefore : ∀ x, xs.getLast? = some x → h.next x = some p := by
    intro x hxl
    obtain ⟨us, rfl⟩ := List.getLast?_eq_some_iff.mp hxl
    have hs1 : Strand h l (us ++ x :: p :: e :: ys) := by simpa using hs
    exact hs1.links.1
  funext x
  by_cases hxe : x = e
  · subst hxe
    simp [Heap.swap, hn']
  by_cases hxp : x = p
  · subst hxp
    simp [Heap.swap, hxe, hn]
  simp only [Heap.swap, Function.update_of_ne hxe, Function.update_of_ne hxp]
  by_cases hxb : xs.getLast? = some x
  · rw [hxb, hbefore x hxb]
    simp
  · rw [relink_of_ne hxb, Function.update_of_ne hxp, Function.update_of_ne hxe, relink_of_ne hxb]

/-- Exchanging two neighbours twice restores the links backward. -/
theorem Strand.swap_swap_prev (hs : Strand h l (xs ++ p :: e :: ys)) (hpe : p ≠ e) :
    ((h.swap l xs.getLast? p e ys.head?).swap l xs.getLast? e p ys.head?).prev = h.prev := by
  have hs0 : Strand h l (xs ++ p :: ([] ++ e :: ys)) := hs
  obtain ⟨-, hp, -, hp'⟩ := hs0.pair_links
  have hafter : ∀ y, ys.head? = some y → h.prev y = some e := by
    intro y hyh
    obtain ⟨vs, rfl⟩ := List.head?_eq_some_iff.mp hyh
    have hs1 : Strand h l ((xs ++ [p, e]) ++ y :: vs) := by simpa using hs
    simpa using hs1.links.2
  funext x
  by_cases hxe : x = e
  · subst hxe
    simp [Heap.swap, hpe.symm, hp']
  by_cases hxp : x = p
  · subst hxp
    simp [Heap.swap, hp]
  simp only [Heap.swap, Function.update_of_ne hxe, Function.update_of_ne hxp]
  by_cases hya : ys.head? = some x
  · rw [hya, hafter x hya]
    simp
  · rw [relink_of_ne hya, Function.update_of_ne hxe, Function.update_of_ne hxp, relink_of_ne hya]

/-- Exchanging two neighbours twice restores the ends of the list. -/
theorem Strand.swap_swap_ends (hs : Strand h l (xs ++ p :: e :: ys)) :
    ((h.swap l xs.getLast? p e ys.head?).swap l xs.getLast? e p ys.head?).first = h.first ∧
      ((h.swap l xs.getLast? p e ys.head?).swap l xs.getLast? e p ys.head?).last = h.last := by
  have hfirst := hs.first
  have hlast := hs.last
  constructor
  · cases hb : xs.getLast? with
    | some x => rfl
    | none =>
        obtain rfl : xs = [] := List.getLast?_eq_none_iff.mp hb
        simp only [Heap.swap, setEnd_none, Function.update_idem]
        exact Function.update_eq_self_iff.mpr hfirst.symm
  · cases ha : ys.head? with
    | some y => rfl
    | none =>
        obtain rfl : ys = [] := List.head?_eq_none_iff.mp ha
        simp only [Heap.swap, setEnd_none, Function.update_idem]
        refine Function.update_eq_self_iff.mpr ?_
        rw [hlast]
        simp

/-- **Exchanging two neighbours twice** restores all the fields. -/
theorem Strand.swap_swap (hs : Strand h l (xs ++ p :: e :: ys))
    (hnd : (xs ++ p :: e :: ys).Nodup) :
    (h.swap l xs.getLast? p e ys.head?).swap l xs.getLast? e p ys.head? = h := by
  have hnd0 : (xs ++ p :: ([] ++ e :: ys)).Nodup := hnd
  obtain ⟨hfirst, hlast⟩ := hs.swap_swap_ends
  exact Heap.ext hs.swap_swap_next (hs.swap_swap_prev (pair_apart hnd0).1) rfl rfl hfirst hlast
    rfl rfl

/-- The neighbours exchanged are a list again. -/
theorem Linked.swap (hl : Linked h l (xs ++ p :: e :: ys)) :
    Linked (h.swap l xs.getLast? p e ys.head?) l (xs ++ e :: p :: ys) :=
  hl.of_perm (List.Perm.append_left xs (List.Perm.swap p e ys)) (hl.strand.swap hl.nodup) rfl rfl

/-- **`up` and `down` are adjacent transpositions and inverse to each other.** For every member
`e` of a list, `up` changes nothing and returns false exactly if it is the first; otherwise it
exchanges it with its predecessor, and `down` then restores the heap. `down` is the mirror
image. -/
theorem up_down_inverse (hl : Linked h l (xs ++ e :: ys)) :
    ((Entry.up h e).1 = false ↔ xs = []) ∧ (xs = [] → (Entry.up h e).2 = h) ∧
      (∀ us p, xs = us ++ [p] → Linked (Entry.up h e).2 l (us ++ e :: p :: ys) ∧
        Entry.down (Entry.up h e).2 e = (true, h)) ∧
      ((Entry.down h e).1 = false ↔ ys = []) ∧ (ys = [] → (Entry.down h e).2 = h) ∧
      ∀ n vs, ys = n :: vs → Linked (Entry.down h e).2 l (xs ++ n :: e :: vs) ∧
        Entry.up (Entry.down h e).2 e = (true, h) := by
  have hfirst : xs = [] → Entry.up h e = (false, h) := by
    rintro rfl
    exact Entry.up_of_first (Or.inr hl.strand.links.2)
  have hlast : ys = [] → Entry.down h e = (false, h) := by
    rintro rfl
    exact Entry.down_of_last (Or.inr hl.strand.links.1)
  have hup : ∀ us p, xs = us ++ [p] → Linked h l (us ++ p :: e :: ys) := by
    rintro us p rfl
    simpa using hl
  have hdown : ∀ n vs, ys = n :: vs → Linked h l (xs ++ e :: n :: vs) := by
    rintro n vs rfl
    exact hl
  refine ⟨⟨fun hfalse => ?_, fun hnil => by rw [hfirst hnil]⟩, fun hnil => by rw [hfirst hnil],
    fun us p hxs => ?_, ⟨fun hfalse => ?_, fun hnil => by rw [hlast hnil]⟩,
    fun hnil => by rw [hlast hnil], fun n vs hys => ?_⟩
  · by_contra hne
    obtain ⟨us, p, hxs⟩ := xs.eq_nil_or_concat.resolve_left hne
    rw [List.concat_eq_append] at hxs
    rw [(hup us p hxs).up_swap] at hfalse
    cases hfalse
  · have hl' := hup us p hxs
    rw [hl'.up_swap]
    refine ⟨hl'.swap, ?_⟩
    rw [hl'.swap.down_swap, hl'.strand.swap_swap hl'.nodup]
  · by_contra hne
    obtain ⟨n, vs, hys⟩ := List.exists_cons_of_ne_nil hne
    rw [(hdown n vs hys).down_swap] at hfalse
    cases hfalse
  · have hl' := hdown n vs hys
    rw [hl'.down_swap]
    refine ⟨hl'.swap, ?_⟩
    rw [hl'.swap.up_swap, hl'.strand.swap_swap hl'.nodup]

/-- A list of two entries, where both ends move. -/
theorem up_down_inverse_two :
    Linked (Entry.up (Linklist.ofList [0, 1]) 1).2 () [1, 0] ∧
      Entry.down (Entry.up (Linklist.ofList [0, 1]) 1).2 1 = (true, Linklist.ofList [0, 1]) := by
  have hlinked : Linked (Linklist.ofList [0, 1]) () ([0] ++ 1 :: []) :=
    Linklist.linked_ofList (by decide)
  exact (up_down_inverse hlinked).2.2.1 [] 0 rfl

end Neighbours

end FreeJ
