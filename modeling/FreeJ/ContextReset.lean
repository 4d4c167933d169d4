import Mathlib.Tactic.Ring
import FreeJ.LinklistShape

/-!
# Resetting the Context

`Context::reset` of `context.cpp`, with `Controller::reset` and `~Controller` of
`controller.cpp` and `ViewPort::reset` and `~ViewPort` of `screen.cpp`. The controllers, and
then the screens, are gone through from the first: one that is indestructible is reset and the
next one follows, any other is removed and deleted and the list is gone through from the first
again. Deleting an object deletes or removes what is in its own lists, and removes it once more.

The objects that were deleted and those that were reset are recorded. Accessing a deleted
object is undefined: where that happens there is no result. The loop of `Context::reset` runs
as many rounds as it is given.

## Main results

* `ContextState.drain_shrinks`: an inner loop empties its list.
* `ContextState.resetLoop_spec`: the loop of `Context::reset`, with how many rounds are enough.
* `context_reset`: what is left of the controllers and the screens, and what became of them.
-/

namespace FreeJ

open Function (update)

/-- The lists of a context, and those of each of its controllers and screens. -/
inductive ContextList (E : Type*)
  | controllers
  | screens
  | listeners (ctrl : E)
  | layers (scr : E)
  | encoders (scr : E)
  deriving DecidableEq

/-- The lists with their entries, the entries that were deleted, and those that were reset. -/
structure ContextState (E : Type*) where
  heap : Heap E (ContextList E)
  deleted : List E
  resets : List E

variable {E : Type*} [DecidableEq E]

namespace ContextState

/-- `Entry::rem`, which writes to the neighbours. -/
def rem (e : E) (s : ContextState E) : Option (ContextState E) :=
  if e ∈ s.deleted ∨ (s.heap.next e).any (· ∈ s.deleted) ∨ (s.heap.prev e).any (· ∈ s.deleted)
  then none
  else some { s with heap := Entry.rem s.heap e }

/-- `delete` of an entry: `Entry::~Entry` removes it. -/
def delete (e : E) (s : ContextState E) : Option (ContextState E) :=
  (s.rem e).map fun s => { s with deleted := s.deleted ++ [e] }

/-- `e = l.begin(); while(e) { body; e = l.begin(); }`, for at most a number of rounds. -/
def drain (l : ContextList E) (body : E → ContextState E → Option (ContextState E)) :
    ℕ → ContextState E → Option (ContextState E)
  | 0, s => if s.heap.first l = none then some s else none
  | k + 1, s =>
      match s.heap.first l with
      | none => some s
      | some e => (body e s).bind (drain l body k)

/-- An inner loop: a list is gone through as long as it is. -/
def drainAll (l : ContextList E) (body : E → ContextState E → Option (ContextState E))
    (s : ContextState E) : Option (ContextState E) :=
  drain l body (s.heap.length l).toNat s

/-- `Controller::reset`, which deletes the listeners. -/
def Controller.reset (ctrl : E) (s : ContextState E) : Option (ContextState E) :=
  drainAll (.listeners ctrl) delete s

/-- `Controller::~Controller`, which deletes the listeners, and `Entry::~Entry`. -/
def Controller.destruct (ctrl : E) (s : ContextState E) : Option (ContextState E) :=
  (drainAll (.listeners ctrl) delete s).bind (delete ctrl)

/-- `ViewPort::reset`, which removes the layers. -/
def ViewPort.reset (scr : E) (s : ContextState E) : Option (ContextState E) :=
  drainAll (.layers scr) rem s

/-- `ViewPort::~ViewPort`, which removes the layers and removes and deletes the encoders, and
`Entry::~Entry`. -/
def ViewPort.destruct (scr : E) (s : ContextState E) : Option (ContextState E) :=
  ((drainAll (.layers scr) rem s).bind
    (drainAll (.encoders scr) fun enc s => (s.rem enc).bind (delete enc))).bind (delete scr)

end ContextState

open ContextState

/-- `Context::reset`, the loop over the controllers or the screens. -/
def Context.resetLoop (l : ContextList E) (indestructible : E → Bool)
    (reset destruct : E → ContextState E → Option (ContextState E)) :
    ℕ → Option E → ContextState E → Option (ContextState E)
  | _, none, s => some s
  | 0, some _, _ => none
  | k + 1, some e, s =>
      if e ∈ s.deleted then none -- accesses a deleted object
      else if indestructible e then
        (reset e { s with resets := s.resets ++ [e] }).bind fun s =>
          resetLoop l indestructible reset destruct k (s.heap.next e) s
      else
        ((s.rem e).bind (destruct e)).bind fun s =>
          resetLoop l indestructible reset destruct k (s.heap.first l) s

/-- `Context::reset` -/
def Context.reset (indestructible : E → Bool) (rounds : ℕ) (s : ContextState E) :
    Option (ContextState E) :=
  (Context.resetLoop .controllers indestructible Controller.reset Controller.destruct rounds
    (s.heap.first .controllers) s).bind fun s =>
      Context.resetLoop .screens indestructible ViewPort.reset ViewPort.destruct rounds
        (s.heap.first .screens) s

/-! ### What the operations keep -/

namespace ContextState

variable {s s' t : ContextState E} {order order' order'' : ContextList E → List E}
  {l : ContextList E} {e : E}

/-- The lists are well formed and hold no entry that was deleted, and none was deleted twice. -/
structure Good (s : ContextState E) (order : ContextList E → List E) : Prop where
  shape : Shape s.heap order
  live : ∀ l, ∀ e ∈ order l, e ∉ s.deleted
  nodup : s.deleted.Nodup

/-- What comes before and after in the list of an entry was not deleted. -/
theorem Good.neighbours (hg : s.Good order) (e : E) :
    ¬ (s.heap.next e).any (· ∈ s.deleted) ∧ ¬ (s.heap.prev e).any (· ∈ s.deleted) := by
  rcases hl : s.heap.list e with _ | l
  · obtain ⟨hn, hp⟩ := hg.shape.free e hl
    simp [hn, hp]
  · obtain ⟨xs, ys, ho⟩ := hg.shape.split hl
    have hst := hg.shape.strand l
    rw [ho] at hst
    obtain ⟨hn, hp⟩ := hst.links
    have hlive := hg.live l
    rw [ho] at hlive
    rw [hn, hp]
    constructor
    · rw [Option.any_eq_true]
      rintro ⟨x, hx, hmem⟩
      exact hlive x (by simp [List.mem_of_mem_head? hx]) (of_decide_eq_true hmem)
    · rw [Option.any_eq_true]
      rintro ⟨x, hx, hmem⟩
      exact hlive x (by simp [List.mem_of_getLast? hx]) (of_decide_eq_true hmem)

omit [DecidableEq E] in
/-- An entry that was deleted is in no list. -/
theorem Good.list_of_deleted (hg : s.Good order) (he : e ∈ s.deleted) :
    s.heap.list e = none := by
  rcases hl : s.heap.list e with _ | l
  · rfl
  · exact absurd he (hg.live l e ((hg.shape.list e l).1 hl))

/-- Removing an entry takes it out of the lists. -/
theorem Good.rem (hg : s.Good order) (he : e ∉ s.deleted) :
    s.rem e = some { s with heap := Entry.rem s.heap e } ∧
      Good { s with heap := Entry.rem s.heap e } fun l => (order l).erase e := by
  obtain ⟨hn, hp⟩ := hg.neighbours e
  refine ⟨if_neg (by tauto), hg.shape.rem e, ?_, hg.nodup⟩
  exact fun l x hx => hg.live l x (List.mem_of_mem_erase hx)

/-- Deleting an entry takes it out of the lists and of use. -/
theorem Good.delete (hg : s.Good order) (he : e ∉ s.deleted) :
    ∃ t, s.delete e = some t ∧ t.Good (fun l => (order l).erase e) ∧
      t.deleted = s.deleted ++ [e] ∧ t.resets = s.resets := by
  obtain ⟨hrem, hshape, hlive, -⟩ := hg.rem he
  refine ⟨⟨Entry.rem s.heap e, s.deleted ++ [e], s.resets⟩, ?_, ⟨hshape, ?_, ?_⟩, rfl, rfl⟩
  · rw [ContextState.delete, hrem]
    rfl
  · intro l x hx hmem
    rcases List.mem_append.1 hmem with hmem | hmem
    · exact hlive l x hx hmem
    · obtain rfl := List.mem_singleton.1 hmem
      exact (hg.shape.nodup l).not_mem_erase hx
  · exact List.nodup_append.2 ⟨hg.nodup, List.nodup_singleton e, fun x hx y hy => by
      obtain rfl := List.mem_singleton.1 hy
      exact fun hxy => he (hxy ▸ hx)⟩

/-- What an inner loop does with an entry takes it out of the lists. -/
def Takes (body : E → ContextState E → Option (ContextState E)) : Prop :=
  ∀ s order e, s.Good order → e ∉ s.deleted →
    ∃ t, body e s = some t ∧ t.Good (fun l => (order l).erase e) ∧ t.resets = s.resets ∧
      (∀ x ∈ s.deleted, x ∈ t.deleted) ∧ ∀ x ∈ t.deleted, x ∈ s.deleted ∨ x = e

theorem takes_rem : Takes (rem : E → ContextState E → Option (ContextState E)) := by
  intro s order e hg he
  obtain ⟨hrem, hgood⟩ := hg.rem he
  exact ⟨_, hrem, hgood, rfl, fun _ hx => hx, fun _ hx => Or.inl hx⟩

theorem takes_delete : Takes (delete : E → ContextState E → Option (ContextState E)) := by
  intro s order e hg he
  obtain ⟨t, hdelete, hgood, hdeleted, hresets⟩ := hg.delete he
  refine ⟨t, hdelete, hgood, hresets, ?_, ?_⟩
  · exact fun x hx => hdeleted ▸ List.mem_append_left _ hx
  · intro x hx
    rw [hdeleted] at hx
    simpa using hx

/-- Removing an entry before it is deleted makes no difference to the lists. -/
theorem takes_rem_delete :
    Takes fun (enc : E) (s : ContextState E) => (s.rem enc).bind (delete enc) := by
  intro s order e hg he
  obtain ⟨hrem, hgood⟩ := hg.rem he
  obtain ⟨t, hdelete, hgood', hdeleted, hresets⟩ := hgood.delete he
  have hsame : (fun l => ((order l).erase e).erase e) = fun l => (order l).erase e :=
    funext fun l => List.erase_of_not_mem (hg.shape.nodup l).not_mem_erase
  rw [hsame] at hgood'
  refine ⟨t, ?_, hgood', hresets, ?_, ?_⟩
  · change (s.rem e).bind (delete e) = some t
    rw [hrem]
    exact hdelete
  · exact fun x hx => hdeleted ▸ List.mem_append_left _ hx
  · intro x hx
    rw [hdeleted] at hx
    simpa using hx

/-- The lists of the context itself are as they were, and the other lists at most shorter. -/
structure Shrinks (s : ContextState E) (order : ContextList E → List E) (t : ContextState E)
    (order' : ContextList E → List E) : Prop where
  good : t.Good order'
  sublist : ∀ l, (order' l).Sublist (order l)
  controllers : order' .controllers = order .controllers
  screens : order' .screens = order .screens
  resets : t.resets = s.resets
  deleted : ∀ x ∈ s.deleted, x ∈ t.deleted

/-- Only entries that are in some list are deleted. -/
def DeletesListed (s : ContextState E) (order : ContextList E → List E) (t : ContextState E) :
    Prop :=
  ∀ x ∈ t.deleted, x ∈ s.deleted ∨ ∃ l, x ∈ order l

omit [DecidableEq E] in
theorem Good.shrinks (hg : s.Good order) : s.Shrinks order s order :=
  ⟨hg, fun l => List.Sublist.refl (order l), rfl, rfl, rfl, fun _ hx => hx⟩

omit [DecidableEq E] in
theorem Shrinks.trans (h : s.Shrinks order t order') (h' : t.Shrinks order' s' order'') :
    s.Shrinks order s' order'' :=
  ⟨h'.good, fun l => (h'.sublist l).trans (h.sublist l), h'.controllers.trans h.controllers,
    h'.screens.trans h.screens, h'.resets.trans h.resets,
    fun x hx => h'.deleted x (h.deleted x hx)⟩

omit [DecidableEq E] in
theorem DeletesListed.trans (h : s.DeletesListed order t) (hs : s.Shrinks order t order')
    (h' : t.DeletesListed order' s') : s.DeletesListed order s' := by
  intro x hx
  rcases h' x hx with hx | ⟨l, hl⟩
  · exact h x hx
  · exact Or.inr ⟨l, (hs.sublist l).subset hl⟩

omit [DecidableEq E] in
/-- An entry of one list is in no other. -/
theorem Good.notMem (hg : s.Good order) {m : ContextList E} (he : e ∈ order l) (hne : m ≠ l) :
    e ∉ order m := by
  intro hem
  have h := ((hg.shape.list e l).2 he).symm.trans ((hg.shape.list e m).2 hem)
  exact hne (Option.some.inj h).symm

/-- **An inner loop** goes through its list, which is not one of the context itself. -/
theorem drain_shrinks {body : E → ContextState E → Option (ContextState E)} (hbody : Takes body)
    (hc : ContextList.controllers ≠ l) (hsc : ContextList.screens ≠ l) (zs : List E) :
    ∀ s order k, Good s order → order l = zs → zs.length ≤ k →
      ∃ t order', drain l body k s = some t ∧ s.Shrinks order t order' ∧
        s.DeletesListed order t := by
  induction zs with
  | nil =>
      intro s order k hg ho _
      have hfirst : s.heap.first l = none := by
        rw [(hg.shape.strand l).first, ho]
        rfl
      refine ⟨s, order, ?_, hg.shrinks, fun _ hx => Or.inl hx⟩
      cases k <;> simp [drain, hfirst]
  | cons e es ih =>
      intro s order k hg ho hk
      obtain ⟨k, rfl⟩ : ∃ k', k = k' + 1 := Nat.exists_eq_add_one.2 (by
        rw [List.length_cons] at hk
        omega)
      have hmem : e ∈ order l := by simp [ho]
      have hfirst : s.heap.first l = some e := by
        rw [(hg.shape.strand l).first, ho]
        rfl
      obtain ⟨t, hstep, hgood, hresets, hkept, hnew⟩ := hbody s order e hg (hg.live l e hmem)
      have hshrinks : s.Shrinks order t fun l => (order l).erase e :=
        ⟨hgood, fun l => List.erase_sublist, List.erase_of_not_mem (hg.notMem hmem hc),
          List.erase_of_not_mem (hg.notMem hmem hsc), hresets, hkept⟩
      have hlisted : s.DeletesListed order t := by
        intro x hx
        rcases hnew x hx with hx | rfl
        · exact Or.inl hx
        · exact Or.inr ⟨l, hmem⟩
      obtain ⟨t', order', hdrain, hshrinks', hlisted'⟩ := ih t _ k hgood (by simp [ho])
        (Nat.le_of_succ_le_succ hk)
      refine ⟨t', order', ?_, hshrinks.trans hshrinks', hlisted.trans hshrinks hlisted'⟩
      rw [drain, hfirst]
      simp only [hstep, Option.bind_some]
      exact hdrain

theorem drainAll_shrinks {body : E → ContextState E → Option (ContextState E)}
    (hbody : Takes body) (hg : s.Good order) (hc : ContextList.controllers ≠ l)
    (hsc : ContextList.screens ≠ l) :
    ∃ t order', drainAll l body s = some t ∧ s.Shrinks order t order' ∧
      s.DeletesListed order t := by
  refine drain_shrinks hbody hc hsc (order l) s order _ hg rfl ?_
  rw [hg.shape.length l]
  simp

/-- Deleting an entry that is in no list. -/
theorem Good.delete_free (hg : s.Good order) (hd : e ∉ s.deleted) (hfree : ∀ l, e ∉ order l) :
    ∃ t, s.delete e = some t ∧ s.Shrinks order t order ∧ e ∈ t.deleted := by
  obtain ⟨t, hdelete, hgood, hdeleted, hresets⟩ := hg.delete hd
  have hsame : (fun l => (order l).erase e) = order :=
    funext fun l => List.erase_of_not_mem (hfree l)
  rw [hsame] at hgood
  refine ⟨t, hdelete, ⟨hgood, fun l => List.Sublist.refl _, rfl, rfl, hresets, ?_⟩, ?_⟩
  · exact fun x hx => hdeleted ▸ List.mem_append_left _ hx
  · exact hdeleted ▸ List.mem_append_right _ (List.mem_singleton_self e)

omit [DecidableEq E] in
/-- An entry in no list is still so, and still in use, after inner loops were run. -/
theorem Shrinks.free (h : s.Shrinks order t order') (hl : s.DeletesListed order t)
    (hd : e ∉ s.deleted) (hfree : ∀ l, e ∉ order l) : e ∉ t.deleted ∧ ∀ l, e ∉ order' l :=
  ⟨fun hmem => (hl e hmem).elim hd fun ⟨l, hel⟩ => hfree l hel,
    fun l hel => hfree l ((h.sublist l).subset hel)⟩

end ContextState

/-! ### Resetting and deleting an object -/

section Objects

variable {s : ContextState E} {order : ContextList E → List E} {e : E}

/-- What resetting an object of the context is relied on to do. -/
def Resets (reset : E → ContextState E → Option (ContextState E)) : Prop :=
  ∀ e s order, Good s order → ∃ t order', reset e s = some t ∧ s.Shrinks order t order'

/-- What destructing an object that was removed is relied on to do. -/
def Destructs (destruct : E → ContextState E → Option (ContextState E)) : Prop :=
  ∀ e s order, Good s order → e ∉ s.deleted → (∀ l, e ∉ order l) →
    ∃ t order', destruct e s = some t ∧ s.Shrinks order t order' ∧ e ∈ t.deleted

theorem Controller.resets_reset :
    Resets (Controller.reset : E → ContextState E → Option (ContextState E)) := by
  intro e s order hg
  obtain ⟨t, order', hreset, hshrinks, -⟩ :=
    drainAll_shrinks takes_delete hg (l := .listeners e) nofun nofun
  exact ⟨t, order', hreset, hshrinks⟩

theorem Controller.destructs_destruct :
    Destructs (Controller.destruct : E → ContextState E → Option (ContextState E)) := by
  intro e s order hg hd hfree
  obtain ⟨t, order', hdrain, hshrinks, hlisted⟩ :=
    drainAll_shrinks takes_delete hg (l := .listeners e) nofun nofun
  obtain ⟨hd', hfree'⟩ := hshrinks.free hlisted hd hfree
  obtain ⟨u, hdelete, hshrinks', hmem⟩ := hshrinks.good.delete_free hd' hfree'
  refine ⟨u, order', ?_, hshrinks.trans hshrinks', hmem⟩
  rw [Controller.destruct, hdrain]
  exact hdelete

theorem ViewPort.resets_reset :
    Resets (ViewPort.reset : E → ContextState E → Option (ContextState E)) := by
  intro e s order hg
  obtain ⟨t, order', hreset, hshrinks, -⟩ :=
    drainAll_shrinks takes_rem hg (l := .layers e) nofun nofun
  exact ⟨t, order', hreset, hshrinks⟩

theorem ViewPort.destructs_destruct :
    Destructs (ViewPort.destruct : E → ContextState E → Option (ContextState E)) := by
  intro e s order hg hd hfree
  obtain ⟨t, order', hlayers, hshrinks, hlisted⟩ :=
    drainAll_shrinks takes_rem hg (l := .layers e) nofun nofun
  obtain ⟨u, order'', hencoders, hshrinks', hlisted'⟩ :=
    drainAll_shrinks takes_rem_delete hshrinks.good (l := .encoders e) nofun nofun
  have hboth := hshrinks.trans hshrinks'
  obtain ⟨hd', hfree'⟩ := hboth.free (hlisted.trans hshrinks hlisted') hd hfree
  obtain ⟨v, hdelete, hshrinks'', hmem⟩ := hboth.good.delete_free hd' hfree'
  refine ⟨v, order'', ?_, hboth.trans hshrinks'', hmem⟩
  rw [ViewPort.destruct, hlayers, Option.bind_some, hencoders]
  exact hdelete

end Objects

/-! ### The loop over the objects -/

section Loop

variable {reset destruct : E → ContextState E → Option (ContextState E)}
variable {indestructible : E → Bool} {l : ContextList E}

/-- A list of the context itself. -/
def ContextList.Own (l : ContextList E) : Prop := l = .controllers ∨ l = .screens

omit [DecidableEq E] in
theorem ContextState.Shrinks.own {s t : ContextState E} {order order' : ContextList E → List E}
    (h : s.Shrinks order t order') (hl : l.Own) : order' l = order l := by
  rcases hl with rfl | rfl
  · exact h.controllers
  · exact h.screens

/-- The loop over a list of the context is through: what is left of it, and what became of the
objects that were in it. -/
structure LoopDone (indestructible : E → Bool) (l : ContextList E) (s : ContextState E)
    (order : ContextList E → List E) (t : ContextState E) (order' : ContextList E → List E) :
    Prop where
  good : t.Good order'
  left : order' l = (order l).filter fun e => indestructible e
  other : ∀ m : ContextList E, m.Own → m ≠ l → order' m = order m
  reset : ∀ e ∈ order l, indestructible e = true → e ∈ t.resets
  destructed : ∀ e ∈ order l, indestructible e = false → e ∈ t.deleted
  resets : ∀ x ∈ s.resets, x ∈ t.resets
  deleted : ∀ x ∈ s.deleted, x ∈ t.deleted

omit [DecidableEq E] in
/-- At the end of the list, where all objects are indestructible and were reset. -/
theorem ContextState.Good.loopDone {s : ContextState E} {order : ContextList E → List E}
    (hg : s.Good order) (hkept : ∀ e ∈ order l, indestructible e = true ∧ e ∈ s.resets) :
    LoopDone indestructible l s order s order where
  good := hg
  left := (List.filter_eq_self.2 fun e he => (hkept e he).1).symm
  other _ _ _ := rfl
  reset e he _ := (hkept e he).2
  destructed e he hd := absurd (hkept e he).1 (by simp [hd])
  resets _ hx := hx
  deleted _ hx := hx

omit [DecidableEq E] in
/-- An indestructible object was reset, and the loop went on behind it. -/
theorem LoopDone.after_reset {s t u : ContextState E}
    {order order' order'' : ContextList E → List E} {e : E} (hl : l.Own)
    (h : LoopDone indestructible l t order' u order'')
    (hs : Shrinks { s with resets := s.resets ++ [e] } order t order') :
    LoopDone indestructible l s order u order'' where
  good := h.good
  left := h.left.trans (by rw [hs.own hl])
  other m hm hne := (h.other m hm hne).trans (hs.own hm)
  reset x hx hi := h.reset x (hs.own hl ▸ hx) hi
  destructed x hx hi := h.destructed x (hs.own hl ▸ hx) hi
  resets x hx := h.resets x (hs.resets ▸ List.mem_append_left _ hx)
  deleted x hx := h.deleted x (hs.deleted x hx)

/-- An object was removed and deleted, and the loop started anew. -/
theorem LoopDone.after_delete {s t u : ContextState E}
    {order order' order'' : ContextList E → List E} {e : E} (hl : l.Own) (hg : s.Good order)
    (he : e ∈ order l) (hd : indestructible e = false)
    (h : LoopDone indestructible l t order' u order'')
    (hs : Shrinks { s with heap := Entry.rem s.heap e } (fun m => (order m).erase e) t order')
    (hmem : e ∈ t.deleted) : LoopDone indestructible l s order u order'' where
  good := h.good
  left := by
    rw [h.left, hs.own hl, (hg.shape.nodup l).erase_eq_filter e, List.filter_filter]
    refine List.filter_congr fun x _ => ?_
    by_cases hx : x = e
    · simp [hx, hd]
    · simp [hx]
  other m hm hne := by
    rw [h.other m hm hne, hs.own hm]
    exact List.erase_of_not_mem (hg.notMem he hne)
  reset x hx hi := by
    have hne : x ≠ e := fun hxe => by simp [hxe, hd] at hi
    refine h.reset x ?_ hi
    rw [hs.own hl]
    exact (List.mem_erase_of_ne hne).2 hx
  destructed x hx hi := by
    by_cases hxe : x = e
    · exact h.deleted x (hxe ▸ hmem)
    · refine h.destructed x ?_ hi
      rw [hs.own hl]
      exact (List.mem_erase_of_ne hxe).2 hx
  resets x hx := h.resets x (hs.resets ▸ hx)
  deleted x hx := h.deleted x (hs.deleted x hx)

omit [DecidableEq E] in
/-- The rounds that are enough get less by more than one pass when an object is deleted. -/
theorem rounds_delete_lt (kept es : List E) {e : E} (he : indestructible e = false) :
    (kept ++ es).length + (kept ++ es).countP (fun e => !indestructible e) *
        (kept ++ es).length <
      (kept ++ e :: es).countP (fun e => !indestructible e) * (kept ++ e :: es).length := by
  have hcount : (kept ++ e :: es).countP (fun e => !indestructible e) =
      (kept ++ es).countP (fun e => !indestructible e) + 1 := by
    rw [List.countP_append, List.countP_append, List.countP_cons_of_pos (by simp [he]),
      Nat.add_assoc]
  have hlength : (kept ++ e :: es).length = (kept ++ es).length + 1 := by
    rw [List.length_append, List.length_append, List.length_cons, Nat.add_assoc]
  have hmul : ∀ c n : ℕ, (c + 1) * (n + 1) = n + c * n + (c + 1) := by
    intro c n
    ring
  rw [hcount, hlength, hmul]
  omega

/-- **The loop of `Context::reset`**, at some place of its list where what comes before is
indestructible and was reset. As it starts anew for each object that is deleted, rounds for the
rest of the list, and for the whole list once for each destructible object, are enough. -/
theorem resetLoop_spec (hreset : Resets reset) (hdestruct : Destructs destruct) (hl : l.Own)
    (k : ℕ) : ∀ s order kept rest, Good s order → order l = kept ++ rest →
      (∀ e ∈ kept, indestructible e = true ∧ e ∈ s.resets) →
      rest.length + (kept ++ rest).countP (fun e => !indestructible e) *
        (kept ++ rest).length ≤ k →
      ∃ t order',
        Context.resetLoop l indestructible reset destruct k rest.head? s = some t ∧
          LoopDone indestructible l s order t order' := by
  induction k with
  | zero =>
      intro s order kept rest hg ho hkept hk
      obtain rfl : rest = [] := List.length_eq_zero_iff.1 (by omega)
      rw [List.append_nil] at ho
      exact ⟨s, order, rfl, hg.loopDone (ho ▸ hkept)⟩
  | succ k ih =>
      intro s order kept rest hg ho hkept hk
      cases rest with
      | nil =>
          rw [List.append_nil] at ho
          exact ⟨s, order, rfl, hg.loopDone (ho ▸ hkept)⟩
      | cons e es =>
          have hmem : e ∈ order l := by simp [ho]
          have hlive : e ∉ s.deleted := hg.live l e hmem
          cases he : indestructible e with
          | true =>
              -- it is reset, and the next one follows
              obtain ⟨t, order', hrun, hshrinks⟩ :=
                hreset e { s with resets := s.resets ++ [e] } order ⟨hg.shape, hg.live, hg.nodup⟩
              have ho' : order' l = (kept ++ [e]) ++ es := by
                rw [hshrinks.own hl, ho]
                simp
              have hnext : t.heap.next e = es.head? := by
                have hst := hshrinks.good.shape.strand l
                rw [hshrinks.own hl, ho] at hst
                exact hst.links.1
              have hkept' : ∀ x ∈ kept ++ [e], indestructible x = true ∧ x ∈ t.resets := by
                intro x hx
                rw [hshrinks.resets]
                rcases List.mem_append.1 hx with hx | hx
                · exact ⟨(hkept x hx).1, List.mem_append_left _ (hkept x hx).2⟩
                · obtain rfl := List.mem_singleton.1 hx
                  exact ⟨he, List.mem_append_right _ (List.mem_singleton_self x)⟩
              obtain ⟨u, order'', hloop, hdone⟩ :=
                ih t order' (kept ++ [e]) es hshrinks.good ho' hkept' (by
                  rw [List.append_assoc, List.singleton_append]
                  rw [List.length_cons] at hk
                  omega)
              refine ⟨u, order'', ?_, hdone.after_reset hl hshrinks⟩
              rw [List.head?_cons, Context.resetLoop, if_neg hlive, if_pos he, hrun,
                Option.bind_some, hnext]
              exact hloop
          | false =>
              -- it is deleted, and the loop starts anew
              obtain ⟨hrem, hgood⟩ := hg.rem hlive
              obtain ⟨t, order', hrun, hshrinks, hdeleted⟩ :=
                hdestruct e { s with heap := Entry.rem s.heap e } _ hgood hlive
                  fun m => (hg.shape.nodup m).not_mem_erase
              have hnot : e ∉ kept := fun hek => by simp [(hkept e hek).1] at he
              have ho' : order' l = [] ++ (kept ++ es) := by
                rw [hshrinks.own hl, ho, List.erase_append_right _ hnot, List.erase_cons_head]
                rfl
              have hfirst : t.heap.first l = (kept ++ es).head? := by
                rw [(hshrinks.good.shape.strand l).first, ho']
                rfl
              obtain ⟨u, order'', hloop, hdone⟩ :=
                ih t order' [] (kept ++ es) hshrinks.good ho' (by simp) (by
                  have hless := rounds_delete_lt kept es he
                  rw [List.length_cons] at hk
                  rw [List.nil_append]
                  omega)
              refine ⟨u, order'', ?_, hdone.after_delete hl hg hmem he hshrinks hdeleted⟩
              rw [List.head?_cons, Context.resetLoop, if_neg hlive, if_neg (by simp [he]), hrem,
                Option.bind_some, hrun, Option.bind_some, hfirst]
              exact hloop

/-- More rounds than enough make no difference. -/
theorem resetLoop_mono {k k' : ℕ} (hk : k ≤ k') : ∀ {p : Option E} {s t : ContextState E},
    Context.resetLoop l indestructible reset destruct k p s = some t →
      Context.resetLoop l indestructible reset destruct k' p s = some t := by
  induction k generalizing k' with
  | zero =>
      intro p s t h
      cases p with
      | none => simpa [Context.resetLoop] using h
      | some e => simp [Context.resetLoop] at h
  | succ k ih =>
      intro p s t h
      obtain ⟨k', rfl⟩ : ∃ j, k' = j + 1 := Nat.exists_eq_add_one.2 (by omega)
      cases p with
      | none => simpa [Context.resetLoop] using h
      | some e =>
          simp only [Context.resetLoop] at h ⊢
          split_ifs at h ⊢ with hd hi
          · obtain ⟨u, hu, hloop⟩ := Option.bind_eq_some_iff.1 h
            exact Option.bind_eq_some_iff.2 ⟨u, hu, ih (by omega) hloop⟩
          · obtain ⟨u, hu, hloop⟩ := Option.bind_eq_some_iff.1 h
            exact Option.bind_eq_some_iff.2 ⟨u, hu, ih (by omega) hloop⟩

/-- The rounds of a pass over `n` objects, and of one more pass for each of them. -/
def enoughRounds (n : ℕ) : ℕ := n + n * n

variable (indestructible) in
/-- The loop from the first object on, with rounds enough for the length of its list. -/
theorem resetLoop_done (hreset : Resets reset) (hdestruct : Destructs destruct) (hl : l.Own)
    {s : ContextState E} {order : ContextList E → List E} (hg : s.Good order) :
    ∃ t order', (∀ k, enoughRounds (order l).length ≤ k →
        Context.resetLoop l indestructible reset destruct k (s.heap.first l) s = some t) ∧
      LoopDone indestructible l s order t order' := by
  have hcount : (order l).countP (fun e => !indestructible e) * (order l).length ≤
      (order l).length * (order l).length :=
    Nat.mul_le_mul_right _ List.countP_le_length
  obtain ⟨t, order', hloop, hdone⟩ :=
    resetLoop_spec hreset hdestruct hl (enoughRounds (order l).length) s order [] (order l) hg
      rfl (by simp) (Nat.add_le_add_left hcount _)
  rw [← (hg.shape.strand l).first] at hloop
  exact ⟨t, order', fun k hk => resetLoop_mono hk hloop, hdone⟩

end Loop

/-- **`Context::reset`** on any well-formed lists of controllers and screens, with any listeners,
layers and encoders, and whichever objects are indestructible: with rounds enough both loops
come to an end, and with more of them at the same. Then both lists hold the indestructible
objects, in the order in which they were, and each of these was reset and not deleted. Any
other object is in no list and was deleted once. No deleted object was accessed. -/
theorem context_reset (indestructible : E → Bool) {s : ContextState E}
    {order : ContextList E → List E} (hg : s.Good order) :
    ∃ t order', (∀ k, enoughRounds (order .controllers).length ≤ k →
        enoughRounds (order .screens).length ≤ k → Context.reset indestructible k s = some t) ∧
      t.Good order' ∧
      (order' .controllers = (order .controllers).filter fun e => indestructible e) ∧
      (order' .screens = (order .screens).filter fun e => indestructible e) ∧
      ∀ e ∈ order .controllers ++ order .screens,
        if indestructible e then e ∈ t.resets ∧ e ∉ t.deleted
        else t.deleted.count e = 1 ∧ t.heap.list e = none := by
  obtain ⟨t, order', hloop, hdone⟩ :=
    resetLoop_done indestructible Controller.resets_reset
      Controller.destructs_destruct (Or.inl rfl) hg
  obtain ⟨u, order'', hloop', hdone'⟩ :=
    resetLoop_done indestructible ViewPort.resets_reset
      ViewPort.destructs_destruct (Or.inr rfl) hdone.good
  have hscreens : order' .screens = order .screens := hdone.other _ (Or.inr rfl) nofun
  have hcontrollers : order'' .controllers = order' .controllers :=
    hdone'.other _ (Or.inl rfl) nofun
  have hleft : order'' .controllers = (order .controllers).filter fun e => indestructible e :=
    hcontrollers.trans hdone.left
  have hleft' : order'' .screens = (order .screens).filter fun e => indestructible e := by
    rw [hdone'.left, hscreens]
  refine ⟨u, order'', fun k hc hsc => ?_, hdone'.good, hleft, hleft', fun e he => ?_⟩
  · rw [Context.reset, hloop k hc, Option.bind_some]
    exact hloop' k (hscreens ▸ hsc)
  · have hboth : e ∈ order'' .controllers ++ order'' .screens ↔ indestructible e = true := by
      rw [hleft, hleft', ← List.filter_append, List.mem_filter]
      exact and_iff_right he
    rw [List.mem_append] at he hboth
    split_ifs with hi
    · refine ⟨?_, ?_⟩
      · rcases he with he | he
        · exact hdone'.resets e (hdone.reset e he hi)
        · exact hdone'.reset e (hscreens ▸ he) hi
      · rcases hboth.2 hi with hl | hl
        · exact hdone'.good.live _ e hl
        · exact hdone'.good.live _ e hl
    · rw [Bool.not_eq_true] at hi
      have hdeleted : e ∈ u.deleted := by
        rcases he with he | he
        · exact hdone'.deleted e (hdone.destructed e he hi)
        · exact hdone'.destructed e (hscreens ▸ he) hi
      exact ⟨List.count_eq_one_of_mem hdone'.good.nodup hdeleted,
        hdone'.good.list_of_deleted hdeleted⟩

/-- A context with a controller 0 that has a listener 2, an indestructible controller 1, and a
screen 3 that shows a layer 4. -/
def ContextState.small : ContextState ℕ where
  heap :=
    let h := Linklist.append (Linklist.append Heap.fresh .controllers 0) .controllers 1
    Linklist.append (Linklist.append (Linklist.append h (.listeners 0) 2) .screens 3) (.layers 3) 4
  deleted := []
  resets := []

/-- The indestructible controller is left, the other one and the screen are deleted. -/
theorem context_reset_small :
    ∃ t order', Context.reset (fun e => e == 1) 6 ContextState.small = some t ∧
      t.Good order' ∧ order' .controllers = [1] ∧ order' .screens = [] ∧ 1 ∈ t.resets ∧
      t.deleted.count 0 = 1 ∧ t.deleted.count 3 = 1 := by
  have hshape := ((((Shape.fresh.append (l := ContextList.controllers) 0).append .controllers
    1).append (.listeners 0) 2).append .screens 3).append (.layers 3) 4
  have hgood : ContextState.small.Good _ := ⟨hshape, fun _ _ _ => List.not_mem_nil, List.nodup_nil⟩
  obtain ⟨t, order', hreset, hgood', hcontrollers, hscreens, hall⟩ :=
    context_reset (fun e => e == 1) hgood
  have h0 := hall 0 (by decide)
  have h1 := hall 1 (by decide)
  have h3 := hall 3 (by decide)
  exact ⟨t, order', hreset 6 (by decide) (by decide), hgood', hcontrollers, hscreens, h1.1, h0.1,
    h3.1⟩

end FreeJ
