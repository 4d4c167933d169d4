import FreeJ.LinklistRun

/-!
# The Layers of the Screens

`ViewPort::add_layer`, `rem_layer`, `reset` and `~ViewPort` of `screen.cpp`. That a layer is
on a screen is stored twice: the layer sits in the list `layers` of the screen, and its
pointer `screen` is the screen. `Screens` holds the entries and the lists of all of them,
the back pointers, and which screens still exist; calling a screen that was destroyed is no
step. `Context::reset` resets the screens that are indestructible and deletes the others,
which makes a sequence of the steps here.

What `add_layer` does to the blits of the layer and what `~ViewPort` does to its encoders
and its audio touches neither side of the membership and is left out.

## Main results

* `Placed.exec`: a step on placed layers keeps them placed, or else it leaves a layer that
  is on no screen with a pointer to one.
* `layers_symmetric`: over runs that reset and destroy only screens without layers, the
  list and the back pointer agree.
* `reset_keeps_screen`: a layer that was on the screen which is reset and destroyed points
  to a screen that does not exist.
-/

namespace FreeJ

open Function (update)
open Links Transition

/-- The layers and the screens, at one moment. -/
structure Screens (E V : Type*) where
  /-- the entry of each layer, and `layers` of each screen -/
  layers : Heap E V
  /-- `Layer::screen` -/
  screen : E → Option V
  /-- `Layer::opened` -/
  opened : E → Bool
  /-- `Layer::active` -/
  active : E → Bool
  /-- which screens are not destroyed -/
  live : V → Bool

/-- Layers and screens just constructed, and then some of the layers opened. -/
def Screens.fresh {E V : Type*} (opened : E → Bool) : Screens E V where
  layers := Heap.fresh
  screen _ := none
  opened := opened
  active _ := false
  live _ := true

/-- What is done to a screen. -/
inductive ScreenOp (E V : Type*)
  | add_layer (scr : V) (lay : E)
  | rem_layer (scr : V) (lay : E)
  | reset (scr : V)
  | delete (scr : V)

variable {E V : Type*}

/-- The screen a step is done to. -/
def ScreenOp.this : ScreenOp E V → V
  | .add_layer scr _ => scr
  | .rem_layer scr _ => scr
  | .reset scr => scr
  | .delete scr => scr

/-- A screen that is reset or destroyed has no layers any more: `rem_layer` took them all
off. -/
def ScreenOp.Emptied (s : Screens E V) : ScreenOp E V → Prop
  | .reset scr => s.layers.first scr = none
  | .delete scr => s.layers.first scr = none
  | _ => True

section Operations

variable [DecidableEq E] [DecidableEq V]

/-- `ViewPort::add_layer`: whether the layer was accepted, and the layers and screens
afterwards. -/
def ViewPort.add_layer (s : Screens E V) (this : V) (lay : E) : Option (Bool × Screens E V) :=
  match s.layers.list lay with
  | some _ => some (false, s) -- passing a layer from a screen to another is not supported
  | none =>
    if s.opened lay then
      (Linklist.sel (Linklist.prepend s.layers this lay) this 0).map fun h =>
        (true, { s with
          screen := update s.screen lay (some this)
          layers := Entry.sel h lay true
          active := update s.active lay true })
    else some (false, s)

/-- `ViewPort::rem_layer` -/
def ViewPort.rem_layer (s : Screens E V) (lay : E) : Screens E V :=
  { s with
    screen := update s.screen lay none -- symmetry
    layers := Entry.rem s.layers lay }

/-- The loop of `ViewPort::reset` and of `~ViewPort`: as long as the list has a first layer,
take that one out. -/
def ViewPort.remAll (h : Heap E V) (this : V) : ℕ → Option (Heap E V)
  | 0 => if (h.first this).isNone then some h else none
  | k + 1 =>
    match h.first this with
    | none => some h
    | some lay => ViewPort.remAll (Entry.rem h lay) this k

/-- `ViewPort::reset` -/
def ViewPort.reset (s : Screens E V) (this : V) : Option (Screens E V) :=
  (ViewPort.remAll s.layers this (s.layers.length this).toNat).map fun h =>
    { s with layers := h }

/-- `~ViewPort` -/
def ViewPort.destroy (s : Screens E V) (this : V) : Option (Screens E V) :=
  (ViewPort.remAll s.layers this (s.layers.length this).toNat).map fun h =>
    { s with layers := h, live := update s.live this false }

/-- What the code does for a step on a screen that exists. -/
def ScreenOp.exec (s : Screens E V) : ScreenOp E V → Option (Screens E V)
  | .add_layer scr lay => (ViewPort.add_layer s scr lay).map Prod.snd
  | .rem_layer _ lay => some (ViewPort.rem_layer s lay)
  | .reset scr => ViewPort.reset s scr
  | .delete scr => ViewPort.destroy s scr

/-- Steps in any order on any screens that exist and any layers, opened or not. -/
def screenSystem (E V : Type*) [DecidableEq E] [DecidableEq V] :
    System (Screens E V) (ScreenOp E V) where
  init s := ∃ opened, s = Screens.fresh opened
  step s op t := s.live op.this = true ∧ op.exec s = some t

end Operations

/-! ### Symmetry -/

/-- List and back pointer agree: on a screen that exists they name the same layers, a layer
in no list points to no screen, and no layer points to a screen that was destroyed. -/
structure Symmetric (s : Screens E V) : Prop where
  members : ∀ scr, s.live scr = true → ∃ xs, Walk s.layers.next (s.layers.first scr) xs ∧
    ∀ lay, s.screen lay = some scr ↔ lay ∈ xs
  removed : ∀ lay, s.layers.list lay = none → s.screen lay = none
  alive : ∀ lay scr, s.screen lay = some scr → s.live scr = true

/-- The lists of the screens are sequences, a destroyed screen has an empty one, and the back
pointer of a layer is the list that it is in. -/
structure Placed (s : Screens E V) (order : V → List E) : Prop where
  shape : Shape s.layers order
  screen : s.screen = s.layers.list
  dead : ∀ scr, s.live scr = false → order scr = []

variable {s t : Screens E V} {h : Heap E V} {order : V → List E} {scr : V} {lay : E}

/-- Layers that are placed are on their screens from both sides. -/
theorem Placed.symmetric (hp : Placed s order) : Symmetric s where
  members scr _ := ⟨order scr, (hp.shape.strand scr).walk_next, fun lay => by
    rw [hp.screen]
    exact hp.shape.list lay scr⟩
  removed lay hl := by rw [hp.screen, hl]
  alive lay scr hl := by
    rw [hp.screen, hp.shape.list] at hl
    by_contra hd
    rw [hp.dead scr (by simpa using hd)] at hl
    exact List.not_mem_nil hl

/-- A screen has no first layer when its list is empty. -/
theorem Placed.first_eq_none (hp : Placed s order) :
    s.layers.first scr = none ↔ order scr = [] := by
  rw [(hp.shape.strand scr).first, List.head?_eq_none_iff]

/-- Two heaps that have an entry in the same lists agree on its list pointer. -/
theorem Shape.list_congr {h' : Heap E V} {order' : V → List E} (hs : Shape h order)
    (hs' : Shape h' order') (hmem : ∀ l, lay ∈ order l ↔ lay ∈ order' l) :
    h.list lay = h'.list lay :=
  Option.ext fun l => (hs.list lay l).trans ((hmem l).trans (hs'.list lay l).symm)

section Steps

variable [DecidableEq E] [DecidableEq V]

/-- **The loop empties the list** of a screen and leaves the others as they are. -/
theorem Shape.remAll_le (hs : Shape h order) (scr : V) {k : ℕ} (hk : (order scr).length ≤ k) :
    ∃ h', ViewPort.remAll h scr k = some h' ∧ Shape h' (update order scr []) := by
  induction k generalizing h order with
  | zero =>
      have ho : order scr = [] := List.length_eq_zero_iff.mp (Nat.le_zero.mp hk)
      refine ⟨h, ?_, ?_⟩
      · rw [ViewPort.remAll, (hs.strand scr).first, ho]
        rfl
      · rw [← ho, Function.update_eq_self]
        exact hs
  | succ k ih =>
      simp only [ViewPort.remAll]
      rw [(hs.strand scr).first]
      cases ho : order scr with
      | nil =>
          refine ⟨h, rfl, ?_⟩
          rw [← ho, Function.update_eq_self]
          exact hs
      | cons lay xs =>
          have hrem : Shape (Entry.rem h lay) (update order scr xs) :=
            hs.rem_member (show order scr = [] ++ lay :: xs from ho)
          rw [ho, List.length_cons] at hk
          have hxs : (update order scr xs scr).length ≤ k := by
            rw [Function.update_self]
            exact Nat.le_of_succ_le_succ hk
          simpa using ih hrem hxs

/-- `length` many rounds are enough. -/
theorem Shape.remAll (hs : Shape h order) (scr : V) :
    ∃ h', ViewPort.remAll h scr (h.length scr).toNat = some h' ∧
      Shape h' (update order scr []) := by
  refine hs.remAll_le scr ?_
  rw [hs.length, Int.toNat_natCast]

/-- **The insertion of `add_layer`**: the layer becomes the first of the list. -/
theorem Shape.add_layer (hs : Shape h order) (scr : V) (hl : h.list lay = none) :
    ∃ h', Linklist.sel (Linklist.prepend h scr lay) scr 0 = some h' ∧
      Shape (Entry.sel h' lay true) (update order scr (lay :: order scr)) := by
  have hpre := hs.prepend scr hl
  refine ⟨_, hpre.deselect scr, Shape.sel ?_ lay⟩
  split
  · exact hpre
  · exact hpre.of_selection _ _

/-- **`add_layer`** keeps the layers placed, whether or not it accepts the layer. -/
theorem Placed.add_layer (hp : Placed s order) (scr : V) (lay : E) (hlive : s.live scr = true) :
    ∃ r t order', ViewPort.add_layer s scr lay = some (r, t) ∧ Placed t order' := by
  simp only [ViewPort.add_layer]
  rcases hl : s.layers.list lay with _ | scr'
  · dsimp only
    cases s.opened lay with
    | false => exact ⟨_, _, order, if_neg Bool.false_ne_true, hp⟩
    | true =>
        obtain ⟨h, hsel, hs⟩ := hp.shape.add_layer scr hl
        rw [if_pos rfl, hsel, Option.map_some]
        refine ⟨_, _, _, rfl, hs, funext fun lay' => ?_, fun scr' hd => ?_⟩
        · by_cases hlay : lay' = lay
          · rw [hlay]
            refine (Function.update_self ..).trans ((hs.list lay scr).mpr ?_).symm
            simp
          · refine (Function.update_of_ne hlay ..).trans ?_
            rw [hp.screen]
            refine hp.shape.list_congr hs fun l => ?_
            by_cases hne : l = scr
            · simp [hne, hlay]
            · rw [Function.update_of_ne hne]
        · have hne : scr' ≠ scr := fun heq => by simp [heq, hlive] at hd
          rw [Function.update_of_ne hne]
          exact hp.dead scr' hd
  · exact ⟨_, _, order, rfl, hp⟩

/-- **`rem_layer`** keeps the layers placed, wherever the layer is. -/
theorem Placed.rem_layer (hp : Placed s order) (lay : E) :
    Placed (ViewPort.rem_layer s lay) fun scr => (order scr).erase lay where
  shape := hp.shape.rem lay
  screen := by
    funext lay'
    by_cases hlay : lay' = lay
    · rw [hlay]
      exact (Function.update_self ..).trans (Entry.rem_list_self s.layers lay).symm
    · refine (Function.update_of_ne hlay ..).trans ?_
      rw [hp.screen]
      exact hp.shape.list_congr (hp.shape.rem lay) fun l => (List.mem_erase_of_ne hlay).symm
  dead scr hd := by rw [hp.dead scr hd, List.erase_nil]

omit [DecidableEq E] in
/-- **`reset` and `~ViewPort`**, which clear a list but no back pointer: the layers stay
placed if there were none on the screen, and otherwise one of them points to a screen that
it is not on. -/
theorem Placed.cleared (hp : Placed s order) (hs : Shape h (update order scr []))
    (live : V → Bool) (hlive : ∀ scr', scr' ≠ scr → live scr' = s.live scr') :
    (Symmetric { s with layers := h, live := live } ↔ s.layers.first scr = none) ∧
      (s.layers.first scr = none → Placed { s with layers := h, live := live } order) := by
  rw [hp.first_eq_none]
  have hkeeps : order scr = [] → Placed { s with layers := h, live := live } order := by
    intro ho
    rw [← ho, Function.update_eq_self] at hs
    refine ⟨hs, ?_, fun scr' hd => ?_⟩
    · funext lay
      rw [hp.screen]
      exact hp.shape.list_congr hs fun l => Iff.rfl
    · by_cases heq : scr' = scr
      · rw [heq, ho]
      · exact hp.dead scr' ((hlive scr' heq).symm.trans hd)
  refine ⟨⟨fun hsym => ?_, fun ho => (hkeeps ho).symmetric⟩, hkeeps⟩
  rcases ho : order scr with _ | ⟨lay, xs⟩
  · rfl
  · have hscr : s.layers.list lay = some scr := (hp.shape.list lay scr).mpr (by simp [ho])
    have hout : h.list lay = none := by
      refine Option.eq_none_iff_forall_ne_some.mpr fun l hl => ?_
      have hmem := (hs.list lay l).mp hl
      have hne : l ≠ scr := fun heq => by simp [heq] at hmem
      rw [Function.update_of_ne hne, ← hp.shape.list, hscr] at hmem
      exact hne (Option.some.inj hmem).symm
    have hnone : s.screen lay = none := hsym.removed lay hout
    rw [hp.screen, hscr] at hnone
    exact absurd hnone (Option.some_ne_none scr)

/-- **One step on placed layers.** It goes through, and leaves list and back pointer in
agreement exactly when it does not reset or destroy a screen with layers. -/
theorem Placed.exec (hp : Placed s order) {op : ScreenOp E V} (hlive : s.live op.this = true) :
    ∃ t, op.exec s = some t ∧ (Symmetric t ↔ op.Emptied s) ∧
      (op.Emptied s → ∃ order', Placed t order') := by
  cases op with
  | add_layer scr lay =>
      obtain ⟨r, t, order', heq, ht⟩ := hp.add_layer scr lay hlive
      exact ⟨t, by simp [ScreenOp.exec, heq], ⟨fun _ => trivial, fun _ => ht.symmetric⟩,
        fun _ => ⟨order', ht⟩⟩
  | rem_layer scr lay =>
      have ht := hp.rem_layer lay
      exact ⟨_, rfl, ⟨fun _ => trivial, fun _ => ht.symmetric⟩, fun _ => ⟨_, ht⟩⟩
  | reset scr =>
      obtain ⟨h, heq, hs⟩ := hp.shape.remAll scr
      obtain ⟨hsym, hplaced⟩ := hp.cleared hs s.live fun _ _ => rfl
      exact ⟨{ s with layers := h }, by simp [ScreenOp.exec, ViewPort.reset, heq], hsym,
        fun hempty => ⟨order, hplaced hempty⟩⟩
  | delete scr =>
      obtain ⟨h, heq, hs⟩ := hp.shape.remAll scr
      obtain ⟨hsym, hplaced⟩ := hp.cleared hs (update s.live scr false)
        fun _ hne => Function.update_of_ne hne _ _
      exact ⟨_, by simp [ScreenOp.exec, ViewPort.destroy, heq], hsym,
        fun hempty => ⟨order, hplaced hempty⟩⟩

/-- Layers are placed in every run whose resets and destructions find no layers. -/
theorem placed_invariant :
    Invariant ((screenSystem E V).restrict fun s op => op.Emptied s)
      fun s => ∃ order, Placed s order where
  init := by
    rintro s ⟨opened, rfl⟩
    exact ⟨fun _ => [], Shape.fresh, rfl, fun _ _ => rfl⟩
  step := by
    rintro s op t ⟨order, hp⟩ ⟨hempty, hlive, hexec⟩
    obtain ⟨t', heq, -, hplaced⟩ := hp.exec hlive
    obtain rfl : t = t' := Option.some.inj (hexec.symm.trans heq)
    exact hplaced hempty

/-- **Membership over whole runs.** In every run that resets and destroys screens only when
they have no layers, on every screen that exists the list and the back pointers name the
same layers, a removed layer points to no screen, and no layer points to a destroyed one. A
further step goes through, and keeps it so if and only if it does not reset or destroy a
screen with layers. -/
theorem layers_symmetric
    (hr : Reachable ((screenSystem E V).restrict fun s op => op.Emptied s) s) :
    Symmetric s ∧ ∀ op : ScreenOp E V, s.live op.this = true →
      ∃ t, op.exec s = some t ∧ (Symmetric t ↔ op.Emptied s) := by
  obtain ⟨order, hp⟩ := placed_invariant.holds hr
  refine ⟨hp.symmetric, fun op hlive => ?_⟩
  obtain ⟨t, heq, hsym, -⟩ := hp.exec hlive
  exact ⟨t, heq, hsym⟩

end Steps

/-- Two layers on two screens, one of them removed, and the screen it was on then reset and
destroyed: the other layer is where it was. -/
theorem layers_symmetric_removed :
    ∃ s : Screens ℕ Bool, s.screen 0 = none ∧ s.screen 1 = some true ∧
      s.live false = false ∧ Symmetric s := by
  have hadd : ∀ (s : Screens ℕ Bool) scr lay, (ScreenOp.add_layer scr lay).Emptied s :=
    fun _ _ _ => trivial
  have hrem : ∀ (s : Screens ℕ Bool) scr lay, (ScreenOp.rem_layer scr lay).Emptied s :=
    fun _ _ _ => trivial
  have hr := Reachable.init (S := (screenSystem ℕ Bool).restrict fun s op => op.Emptied s)
    ⟨fun _ => true, rfl⟩
  have hr := hr.step ⟨hadd _ false 0, rfl, rfl⟩
  have hr := hr.step ⟨hadd _ true 1, rfl, rfl⟩
  have hr := hr.step ⟨hrem _ false 0, rfl, rfl⟩
  have hr := hr.step (a := .reset false) ⟨by rfl, rfl, rfl⟩
  have hr := hr.step (a := .delete false) ⟨by rfl, rfl, rfl⟩
  exact ⟨_, rfl, rfl, rfl, (layers_symmetric hr).1⟩

/-- **A pointer to a destroyed screen.** A layer is added to a screen that is then reset: it
is in no list and still points to the screen, also once that is destroyed. -/
theorem reset_keeps_screen :
    (∃ s : Screens ℕ Unit, Reachable (screenSystem ℕ Unit) s ∧ s.live () = true ∧
      s.layers.list 0 = none ∧ s.screen 0 = some () ∧ ¬ Symmetric s) ∧
    ∃ s : Screens ℕ Unit, Reachable (screenSystem ℕ Unit) s ∧ s.live () = false ∧
      s.screen 0 = some () ∧ ¬ Symmetric s := by
  have hr := Reachable.init (S := screenSystem ℕ Unit) ⟨fun _ => true, rfl⟩
  have hr := hr.step (a := .add_layer () 0) ⟨rfl, rfl⟩
  have hreset := hr.step (a := .reset ()) ⟨rfl, rfl⟩
  have hdelete := hr.step (a := .delete ()) ⟨rfl, rfl⟩
  refine ⟨⟨_, hreset, rfl, rfl, rfl, fun hsym => ?_⟩, ⟨_, hdelete, rfl, rfl, fun hsym => ?_⟩⟩
  · exact absurd (hsym.removed 0 rfl) (Option.some_ne_none ())
  · exact absurd (hsym.alive 0 () rfl) Bool.false_ne_true

end FreeJ
