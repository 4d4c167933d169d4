import FreeJ.LinklistShape
import FreeJ.Transition

/-!
# Runs of the Linked List Operations

Any number of lists and entries, edited by any finite sequence of the container's
operations on any of them. `ListOp` names the operations, `ListOp.exec` is what the code
does, and `listSystem` is the transition system whose runs start from lists and entries
just constructed.

## Main results

* `linked_iff_walks`, `wellFormed_iff_shape`: a list, and a heap, is well formed exactly when
  its lists are sequences.
* `linklist_runs_wellFormed`: every operation, applied within its precondition, follows no
  null pointer and leaves every list well formed.
-/

namespace FreeJ

open Function (update)
open Links Transition

/-- The operations on lists and entries. -/
inductive ListOp (E L : Type*)
  | append (l : L) (addr : E)
  | prepend (l : L) (addr : E)
  | insert (l : L) (addr : E) (pos : ℤ)
  | insert_after (l : L) (addr pos : E)
  | rem (e : E)
  | remAt (l : L) (pos : ℤ)
  | up (e : E)
  | down (e : E)
  | moveup (l : L) (pos : ℤ)
  | movedown (l : L) (pos : ℤ)
  | moveto (l : L) (num pos : ℤ)
  | sel (e : E)
  | deselect (l : L)

variable {E L : Type*}

/-- What an operation may be applied to: `insert_after` is given another entry that is a
member of the list, `moveto` a position inside the list. -/
def ListOp.Admissible (h : Heap E L) : ListOp E L → Prop
  | .insert_after l addr pos => h.list pos = some l ∧ pos ≠ addr
  | .moveto l _ pos => 1 ≤ pos ∧ pos ≤ h.length l
  | _ => True

/-- Every list is what it says it is: walking forward from `first` and backward from `last`
visits the same entries in opposite orders, each once, as many as `length`, and they are
exactly the entries whose list pointer is this list; an entry in no list has no
neighbours. -/
structure WellFormed (h : Heap E L) : Prop where
  lists : ∀ l, ∃ xs, Walk h.next (h.first l) xs ∧ Walk h.prev (h.last l) xs.reverse ∧
    h.length l = xs.length ∧ xs.Nodup ∧ ∀ e, h.list e = some l ↔ e ∈ xs
  outside : ∀ e, h.list e = none → h.next e = none ∧ h.prev e = none

/-- **One list by itself**: walking it both ways visits the same entries in opposite orders,
each once, as many as `length`, and all of them point back to it. -/
theorem linked_iff_walks {h : Heap E L} {l : L} {zs : List E} :
    Linked h l zs ↔ Walk h.next (h.first l) zs ∧ Walk h.prev (h.last l) zs.reverse ∧
      h.length l = zs.length ∧ zs.Nodup ∧ ∀ e ∈ zs, h.list e = some l := by
  constructor
  · intro hl
    exact ⟨hl.strand.walk_next, hl.strand.walk_prev, hl.length, hl.nodup, hl.list⟩
  · rintro ⟨hnext, hprev, hlen, hnd, hlist⟩
    have hback : Walk h.prev (h.last l) (zs.reverse ++ []) := by simpa using hprev
    refine ⟨⟨chain_of_walks hnext hback, hnext.eq_head?, ?_⟩, hnd, hlen, hlist⟩
    rw [hprev.eq_head?, List.head?_reverse]

/-- **Well formed means shaped as sequences.** -/
theorem wellFormed_iff_shape {h : Heap E L} : WellFormed h ↔ ∃ order, Shape h order := by
  constructor
  · rintro ⟨hlists, hout⟩
    choose order hnext hprev hlen hnd hmem using hlists
    have hl : ∀ l, Linked h l (order l) := fun l =>
      linked_iff_walks.mpr ⟨hnext l, hprev l, hlen l, hnd l, fun e => (hmem l e).mpr⟩
    exact ⟨order, fun l => (hl l).strand, hnd, hlen, fun e l => hmem l e, hout⟩
  · rintro ⟨order, hs⟩
    refine ⟨fun l => ?_, hs.free⟩
    obtain ⟨hnext, hprev, hlen, hnd, -⟩ := linked_iff_walks.mp (hs.linked l)
    exact ⟨order l, hnext, hprev, hlen, hnd, fun e => hs.list e l⟩

variable {h h' : Heap E L} {order : L → List E} {l : L} {e : E} {xs ys : List E}

/-- The shape does not depend on what is selected. -/
theorem Shape.of_selection (hs : Shape h order) (select : E → Bool)
    (selection : L → Option E) :
    Shape { h with select := select, selection := selection } order where
  strand l := ⟨(hs.strand l).chain, (hs.strand l).first, (hs.strand l).last⟩
  nodup := hs.nodup
  length := hs.length
  list := hs.list
  free := hs.free

/-- An entry at a position is in the list, at some place. -/
theorem Shape.split_of_pick {pos : ℤ} (hs : Shape h order)
    (hp : Linklist.pick h l pos = some (some e)) : ∃ xs ys, order l = xs ++ e :: ys := by
  rw [hs.pick, Option.some.injEq] at hp
  split at hp
  · exact List.append_of_mem (List.mem_of_getElem? hp)
  · simp at hp

section Deselect

variable [DecidableEq E]

/-- The loop of `sel(0)` clears the flag of every entry it walks over. -/
theorem Linklist.deselectFrom_eq {p : Option E} {k : ℕ} (hw : Walk h.next p xs)
    (hk : xs.length ≤ k) :
    Linklist.deselectFrom h k p =
      some { h with select := fun e => if e ∈ xs then false else h.select e } := by
  induction xs generalizing h p k with
  | nil => simp [hw.eq_head?, Linklist.deselectFrom]
  | cons x xs ih =>
      obtain ⟨k, rfl⟩ : ∃ k', k = k' + 1 := ⟨k - 1, by simp at hk; omega⟩
      rw [hw.1, Linklist.deselectFrom,
        ih (h := { h with select := update h.select x false }) hw.2 (by simpa using hk)]
      congr 2
      funext e
      by_cases hex : e = x
      · simp [hex]
      · simp [hex]

end Deselect

section Runs

variable [DecidableEq E] [DecidableEq L]

/-- What the code does for an operation; `none` when it follows a null pointer. -/
def ListOp.exec (h : Heap E L) : ListOp E L → Option (Heap E L)
  | .append l addr => some (Linklist.append h l addr)
  | .prepend l addr => some (Linklist.prepend h l addr)
  | .insert l addr pos => Linklist.insert h l addr pos
  | .insert_after l addr pos => some (Linklist.insert_after h l addr pos)
  | .rem e => some (Entry.rem h e)
  | .remAt l pos => Linklist.rem h l pos
  | .up e => some (Entry.up h e).2
  | .down e => some (Entry.down h e).2
  | .moveup l pos => (Linklist.moveup h l pos).map Prod.snd
  | .movedown l pos => (Linklist.movedown h l pos).map Prod.snd
  | .moveto l num pos => (Linklist.moveto h l num pos).map Prod.snd
  | .sel e => some (Entry.sel h e true)
  | .deselect l => Linklist.sel h l 0

/-- Operations in any order on lists and entries that start out just constructed. -/
def listSystem (E L : Type*) [DecidableEq E] [DecidableEq L] :
    System (Heap E L) (ListOp E L) where
  init h := h = Heap.fresh
  step h op h' := op.Admissible h ∧ op.exec h = some h'

/-- **`sel(0)`** clears the flags of the members and the selection of a list, and does
nothing on an empty list. -/
theorem Linked.deselect {zs : List E} (hl : Linked h l zs) :
    Linklist.sel h l 0 =
      some (if zs = [] then h else
        { h with
          select := fun e => if e ∈ zs then false else h.select e
          selection := update h.selection l none }) := by
  have hlen := hl.length
  have hwalk := hl.strand.walk_next
  simp only [Linklist.sel]
  cases zs with
  | nil =>
      rw [hl.strand.first]
      simp
  | cons x zs =>
      have hfirst : h.first l = some x := hl.strand.first
      rw [hfirst] at hwalk
      simp only [hfirst]
      rw [if_neg (by omega), if_pos trivial, Linklist.deselectFrom_eq hwalk (by omega)]
      simp

/-- `sel(0)` in a heap all of whose lists are sequences. -/
theorem Shape.deselect (hs : Shape h order) (l : L) :
    Linklist.sel h l 0 =
      some (if order l = [] then h else
        { h with
          select := fun e => if e ∈ order l then false else h.select e
          selection := update h.selection l none }) :=
  (hs.linked l).deselect

/-- `Entry::sel(true)` keeps the shape. -/
theorem Shape.sel (hs : Shape h order) (e : E) : Shape (Entry.sel h e true) order := by
  simp only [Entry.sel]
  cases h.list e with
  | none => exact hs
  | some l =>
      simp only [Function.update_self, if_true]
      exact hs.of_selection _ _

/-- `up` keeps the shape, whether or not the entry has a predecessor. -/
theorem Shape.exists_up (hs : Shape h order) (e : E) :
    ∃ order', Shape (Entry.up h e).2 order' := by
  rcases hl : h.list e with _ | l
  · rw [Entry.up_of_first (Or.inl hl)]
    exact ⟨order, hs⟩
  · obtain ⟨xs, ys, ho⟩ := hs.split hl
    rcases xs.eq_nil_or_concat with rfl | ⟨us, p, rfl⟩
    · have hst : Strand h l ([] ++ e :: ys) := ho ▸ hs.strand l
      rw [Entry.up_of_first (Or.inr hst.links.2)]
      exact ⟨order, hs⟩
    · have ho' : order l = us ++ p :: e :: ys := by simpa using ho
      exact ⟨_, (hs.up ho').2⟩

/-- `down` keeps the shape, whether or not the entry has a successor. -/
theorem Shape.exists_down (hs : Shape h order) (e : E) :
    ∃ order', Shape (Entry.down h e).2 order' := by
  rcases hl : h.list e with _ | l
  · rw [Entry.down_of_last (Or.inl hl)]
    exact ⟨order, hs⟩
  · obtain ⟨xs, ys, ho⟩ := hs.split hl
    cases ys with
    | nil =>
        have hst : Strand h l (xs ++ e :: []) := ho ▸ hs.strand l
        rw [Entry.down_of_last (Or.inr hst.links.1)]
        exact ⟨order, hs⟩
    | cons n vs => exact ⟨_, (hs.down ho).2⟩

/-- `prepend` keeps the shape, whether or not it refuses the entry. -/
theorem Shape.exists_prepend (hs : Shape h order) (l : L) (e : E) :
    ∃ order', Shape (Linklist.prepend h l e) order' := by
  rcases hl : h.list e with _ | l'
  · exact ⟨_, hs.prepend l hl⟩
  · rw [Linklist.prepend_listed hl]
    exact ⟨order, hs⟩

/-- **One operation.** Within its precondition it succeeds and keeps the shape. -/
theorem Shape.exec (hs : Shape h order) {op : ListOp E L} (hop : op.Admissible h) :
    ∃ h' order', op.exec h = some h' ∧ Shape h' order' := by
  cases op with
  | append l addr => exact ⟨_, _, rfl, hs.append l addr⟩
  | prepend l addr =>
      obtain ⟨order', hs'⟩ := hs.exists_prepend l addr
      exact ⟨_, order', rfl, hs'⟩
  | insert l addr pos =>
      by_cases h1 : h.length l ≤ pos
      · exact ⟨_, _, if_pos h1, hs.append l addr⟩
      · by_cases h2 : pos ≤ 1
        · obtain ⟨order', hs'⟩ := hs.exists_prepend l addr
          exact ⟨_, order', (if_neg h1).trans (if_pos h2), hs'⟩
        · obtain ⟨us, vs, h', -, -, heq, hs'⟩ :=
            hs.insert l addr (Int.not_le.mp h2) (Int.not_le.mp h1)
          exact ⟨h', _, heq, hs'⟩
  | insert_after l addr pos =>
      obtain ⟨hpos, hne⟩ := hop
      have hmem : pos ∈ (order l).erase addr :=
        (List.mem_erase_of_ne hne).mpr ((hs.list pos l).mp hpos)
      obtain ⟨xs, ys, ho⟩ := List.append_of_mem hmem
      exact ⟨_, _, rfl, hs.insert_after ho⟩
  | rem e => exact ⟨_, _, rfl, hs.rem e⟩
  | remAt l pos =>
      simp only [ListOp.exec, Linklist.rem, hs.pick, Option.map_some]
      split
      · exact ⟨_, _, rfl, hs.rem _⟩
      · exact ⟨_, _, rfl, hs⟩
  | up e =>
      obtain ⟨order', hs'⟩ := hs.exists_up e
      exact ⟨_, order', rfl, hs'⟩
  | down e =>
      obtain ⟨order', hs'⟩ := hs.exists_down e
      exact ⟨_, order', rfl, hs'⟩
  | moveup l pos =>
      simp only [ListOp.exec, Linklist.moveup, hs.pick, Option.map_some]
      split
      · obtain ⟨order', hs'⟩ := hs.exists_up _
        exact ⟨_, order', rfl, hs'⟩
      · exact ⟨_, _, rfl, hs⟩
  | movedown l pos =>
      simp only [ListOp.exec, Linklist.movedown, hs.pick, Option.map_some]
      split
      · obtain ⟨order', hs'⟩ := hs.exists_down _
        exact ⟨_, order', rfl, hs'⟩
      · exact ⟨_, _, rfl, hs⟩
  | moveto l num pos =>
      rcases hp : Linklist.pick h l num with _ | (_ | p)
      · rw [hs.pick] at hp
        simp at hp
      · exact ⟨h, order, by simp [ListOp.exec, Linklist.moveto, hp], hs⟩
      · obtain ⟨xs, ys, ho⟩ := hs.split_of_pick hp
        obtain ⟨us, vs, h', -, -, heq, hs'⟩ := hs.move ho hop.1 hop.2
        exact ⟨h', _, by simp [ListOp.exec, Linklist.moveto, hp, heq], hs'⟩
  | sel e => exact ⟨_, order, rfl, hs.sel e⟩
  | deselect l =>
      refine ⟨_, order, hs.deselect l, ?_⟩
      split
      · exact hs
      · exact hs.of_selection _ _

/-- In every run the lists are sequences. -/
theorem shape_invariant : Invariant (listSystem E L) fun h => ∃ order, Shape h order where
  init := by
    rintro h rfl
    exact ⟨_, Shape.fresh⟩
  step := by
    rintro h op h' ⟨order, hs⟩ ⟨hop, hexec⟩
    obtain ⟨h'', order', heq, hs'⟩ := hs.exec hop
    obtain rfl : h' = h'' := Option.some.inj (hexec.symm.trans heq)
    exact ⟨order', hs'⟩

/-- **The lists are well formed over whole runs.** In every state reached from lists and
entries just constructed by any finite sequence of operations on any of them, every list is
well formed, and every operation applied within its precondition goes through. -/
theorem linklist_runs_wellFormed (hr : Reachable (listSystem E L) h) :
    WellFormed h ∧ ∀ op : ListOp E L, op.Admissible h → ∃ h', op.exec h = some h' := by
  obtain ⟨order, hs⟩ := shape_invariant.holds hr
  refine ⟨wellFormed_iff_shape.mpr ⟨order, hs⟩, fun op hop => ?_⟩
  obtain ⟨h', -, heq, -⟩ := hs.exec hop
  exact ⟨h', heq⟩

/-- An entry stolen by a second list while it sits in a first one: both stay well
formed. -/
theorem linklist_runs_wellFormed_steal :
    WellFormed (Linklist.append (Linklist.append Heap.fresh false 0) true 0 : Heap ℕ Bool) :=
  (linklist_runs_wellFormed
    (.step (a := .append true 0) (.step (a := .append false 0) (.init rfl) ⟨trivial, rfl⟩)
      ⟨trivial, rfl⟩)).1

end Runs

end FreeJ
