import FreeJ.Iterator
import FreeJ.LinklistShape

/-!
# The Iterators of a Layer

`Layer::do_iterators` of `layer.cpp`: the iterators of a layer are stepped in the order of
their list, and one whose `cafudda` returns -1 is deleted, which takes it out of the list.
Several iterators may move the same value. The entries that were stepped and those that were
deleted are recorded, and an entry that was deleted must not be accessed.

When an iterator is deleted and the one to go on with is none, a layer that is fading out is
deactivated. That there is none to go on with says that the iterator was the last of the list,
and not that it was the only one.

## Main results

* `IterLayer.loop_eq`: what the loop does to the rest of the list.
* `do_iterators_iff`: in every sequence of calls each iterator is stepped once, and those that
  ended are deleted; a layer fading out is deactivated when it should be if and only if the
  last iterator of the list does not end before the others.
-/

namespace FreeJ

open Function (update)

/-- `Layer`: its iterators, what they move, and what happened to them. -/
structure IterLayer (E L P K : Type*) where
  heap : Heap E L
  /-- `Layer::iterators` -/
  iterators : L
  iter : E → Iterator K
  /-- `Iterator::value`, a pointer. -/
  value : E → P
  mem : P → K
  fade : Bool
  active : Bool
  stepped : List E
  deleted : List E

variable {E L P K : Type*} [DecidableEq E] [DecidableEq L] [DecidableEq P]
variable [Field K] [LinearOrder K]

namespace IterLayer

/-- `iter->cafudda()` -/
def step (s : IterLayer E L P K) (e : E) : ℤ × IterLayer E L P K :=
  let r := (s.iter e).cafudda (s.mem (s.value e))
  (r.1,
    { s with
      iter := update s.iter e r.2.1
      mem := update s.mem (s.value e) r.2.2
      stepped := s.stepped ++ [e] })

/-- `delete`, where `Entry::~Entry` takes the entry out of its list. -/
def delete (s : IterLayer E L P K) (e : E) : IterLayer E L P K :=
  { s with heap := Entry.rem s.heap e, deleted := s.deleted ++ [e] }

/-- No more iterations, fade out deactivates layer. -/
def fadeOut (s : IterLayer E L P K) : IterLayer E L P K :=
  if s.fade then { s with fade := false, active := false } else s

/-- `Layer::do_iterators`, its loop. -/
def loop : ℕ → Option E → IterLayer E L P K → Option (IterLayer E L P K)
  | _, none, s => some s
  | 0, some _, _ => none
  | k + 1, some itertmp, s =>
      if itertmp ∈ s.deleted then none -- accesses a deleted entry
      else
        let (res, s) := s.step itertmp
        let iter := s.heap.next itertmp
        if res < 0 then
          let s := s.delete itertmp
          loop k iter (if iter = none then s.fadeOut else s)
        else loop k iter s

/-- `Layer::do_iterators` -/
def do_iterators (s : IterLayer E L P K) : Option (IterLayer E L P K) :=
  if s.heap.length s.iterators ≠ 0 then
    loop (s.heap.length s.iterators).toNat (s.heap.first s.iterators) s
  else some s

/-- A number of calls, one after the other. -/
def calls (s : IterLayer E L P K) : ℕ → Option (IterLayer E L P K)
  | 0 => some s
  | n + 1 => (calls s n).bind do_iterators

end IterLayer

/-! ### Stepping a list of iterators -/

/-- Every iterator of a list is stepped, in order: what each step returns, and the iterators
and the values after all. -/
def stepAll (value : E → P) : List E → (E → Iterator K) → (P → K) →
    List (E × ℤ) × (E → Iterator K) × (P → K)
  | [], iter, mem => ([], iter, mem)
  | e :: es, iter, mem =>
      let r := (iter e).cafudda (mem (value e))
      let (results, rest) := stepAll value es (update iter e r.2.1) (update mem (value e) r.2.2)
      ((e, r.1) :: results, rest)

/-- The iterators whose step returned -1. -/
def endedOf (results : List (E × ℤ)) : List E :=
  (results.filter fun r => r.2 < 0).map Prod.fst

/-- The others. -/
def leftOf (results : List (E × ℤ)) : List E :=
  (results.filter fun r => ¬ r.2 < 0).map Prod.fst

/-- The last step returned -1. -/
def lastEnded (results : List (E × ℤ)) : Bool := results.getLast?.any fun r => r.2 < 0

theorem stepAll_fst (value : E → P) (es : List E) (iter : E → Iterator K) (mem : P → K) :
    (stepAll value es iter mem).1.map Prod.fst = es := by
  induction es generalizing iter mem with
  | nil => rfl
  | cons e es ih =>
      simp only [stepAll, List.map_cons]
      rw [ih]

omit [DecidableEq E] in
theorem endedOf_cons (e : E) (r : ℤ) (results : List (E × ℤ)) :
    endedOf ((e, r) :: results) =
      if r < 0 then e :: endedOf results else endedOf results := by
  unfold endedOf
  rw [List.filter_cons]
  split_ifs with h1 h2 h2 <;> simp_all

omit [DecidableEq E] in
theorem leftOf_cons (e : E) (r : ℤ) (results : List (E × ℤ)) :
    leftOf ((e, r) :: results) = if r < 0 then leftOf results else e :: leftOf results := by
  unfold leftOf
  rw [List.filter_cons]
  split_ifs with h1 h2 h2 <;> simp_all

omit [DecidableEq E] in
theorem lastEnded_cons {e : E} {r : ℤ} {results : List (E × ℤ)} (hne : results ≠ []) :
    lastEnded ((e, r) :: results) = lastEnded results := by
  unfold lastEnded
  rw [List.getLast?_cons_of_ne_nil hne]

omit [DecidableEq E] in
theorem lastEnded_cons_of_left {e : E} {r : ℤ} (hr : ¬ r < 0) (results : List (E × ℤ)) :
    lastEnded ((e, r) :: results) = lastEnded results := by
  cases results with
  | nil => simpa [lastEnded] using hr
  | cons q results => exact lastEnded_cons (List.cons_ne_nil q results)

theorem stepAll_ne_nil (value : E → P) {es : List E} (hne : es ≠ []) (iter : E → Iterator K)
    (mem : P → K) : (stepAll value es iter mem).1 ≠ [] := by
  intro hnil
  have h := stepAll_fst value es iter mem
  rw [hnil] at h
  exact hne h.symm

omit [DecidableEq E] in
/-- An iterator either ended or is left. -/
theorem endedOf_append_leftOf (results : List (E × ℤ)) :
    (endedOf results ++ leftOf results).Perm (results.map Prod.fst) := by
  have h := (List.filter_append_perm (fun r : E × ℤ => r.2 < 0) results).map Prod.fst
  rw [List.map_append] at h
  simpa only [endedOf, leftOf, decide_not] using h

omit [DecidableEq E] in
/-- None is left when every step returned -1. -/
theorem leftOf_eq_nil (results : List (E × ℤ)) :
    leftOf results = [] ↔ ∀ r ∈ results, r.2 < 0 := by
  simp [leftOf]

/-! ### The loop -/

namespace IterLayer

variable {s : IterLayer E L P K} {order : L → List E} {kept rest zs : List E}

/-- The layer after the rest of its list was gone through, with the heap `h`. -/
def after (s : IterLayer E L P K) (h : Heap E L) (rest : List E) : IterLayer E L P K :=
  let r := stepAll s.value rest s.iter s.mem
  { s with
    heap := h
    iter := r.2.1
    mem := r.2.2
    stepped := s.stepped ++ rest
    deleted := s.deleted ++ endedOf r.1
    fade := s.fade && !lastEnded r.1
    active := s.active && !(s.fade && lastEnded r.1) }

omit [DecidableEq L] in
/-- An iterator that goes on, and the rest. -/
theorem after_cons_left {e : E} (hr : ¬ (s.step e).1 < 0) (h : Heap E L) (es : List E) :
    (s.step e).2.after h es = s.after h (e :: es) := by
  simp only [step] at hr
  simp only [after, step, stepAll, endedOf_cons, if_neg hr, lastEnded_cons_of_left hr,
    List.append_assoc, List.singleton_append]

/-- An iterator that ended, and the rest. -/
theorem after_cons_ended {e : E} {es : List E} (hr : (s.step e).1 < 0) (hne : es ≠ [])
    (h : Heap E L) : ((s.step e).2.delete e).after h es = s.after h (e :: es) := by
  simp only [step] at hr
  simp only [after, step, delete, stepAll, endedOf_cons, if_pos hr,
    lastEnded_cons (stepAll_ne_nil s.value hne _ _), List.append_assoc, List.singleton_append]

/-- The last iterator, when it ended. -/
theorem fadeOut_delete {e : E} (hr : (s.step e).1 < 0) :
    ((s.step e).2.delete e).fadeOut = s.after (Entry.rem s.heap e) [e] := by
  simp only [step] at hr
  have hlast : lastEnded [(e, ((s.iter e).cafudda (s.mem (s.value e))).1)] = true := by
    simpa [lastEnded] using hr
  cases hfade : s.fade <;>
    simp [fadeOut, after, step, delete, stepAll, endedOf, hr, hlast, hfade]

/-- **The loop** steps what is left of the list in order and deletes what ended. It stops at
the end of the list, and fades out when the last step there returned -1. -/
theorem loop_eq (hs : Shape s.heap order) (ho : order s.iterators = kept ++ rest)
    (hd : ∀ e ∈ rest, e ∉ s.deleted) :
    ∃ h, loop rest.length rest.head? s = some (s.after h rest) ∧
      Shape h (update order s.iterators
        (kept ++ leftOf (stepAll s.value rest s.iter s.mem).1)) := by
  induction rest generalizing s order kept with
  | nil =>
      refine ⟨s.heap, ?_, ?_⟩
      · simp [loop, after, stepAll, endedOf, lastEnded]
      · have hsame : update order s.iterators (kept ++ []) = order := by
          rw [← ho, Function.update_eq_self]
        exact hsame.symm ▸ hs
  | cons e es ih =>
      have hnext : s.heap.next e = es.head? := by
        have hst := hs.strand s.iterators
        rw [ho] at hst
        exact hst.links.1
      have hnd : (kept ++ e :: es).Nodup := ho ▸ hs.nodup s.iterators
      have hlive : e ∉ s.deleted := hd e (by simp)
      have hloop : loop (es.length + 1) (some e) s =
          if (s.step e).1 < 0 then
            loop es.length es.head? (if es.head? = none then ((s.step e).2.delete e).fadeOut
              else (s.step e).2.delete e)
          else loop es.length es.head? (s.step e).2 := by
        have hnext' : (s.step e).2.heap.next e = es.head? := hnext
        simp only [loop]
        rw [if_neg hlive, hnext']
      rw [List.length_cons, List.head?_cons, hloop]
      by_cases hr : (s.step e).1 < 0
      · -- it is deleted, and the list is shorter
        have hrem : Shape ((s.step e).2.delete e).heap
            (update order s.iterators (kept ++ es)) := hs.rem_member ho
        have hleft : leftOf (stepAll s.value (e :: es) s.iter s.mem).1 =
            leftOf (stepAll s.value es (s.step e).2.iter (s.step e).2.mem).1 := by
          simp only [step] at hr
          simp only [stepAll, step, leftOf_cons, if_pos hr]
        rw [if_pos hr, hleft]
        cases es with
        | nil =>
            refine ⟨Entry.rem s.heap e, ?_, ?_⟩
            · rw [if_pos (List.head?_nil), fadeOut_delete hr]
              rfl
            · exact hrem
        | cons e' es =>
            have hd' : ∀ x ∈ e' :: es, x ∉ ((s.step e).2.delete e).deleted := by
              intro x hx hmem
              rcases List.mem_append.1 hmem with hmem | hmem
              · exact hd x (List.mem_cons_of_mem e hx) hmem
              · obtain rfl := List.mem_singleton.1 hmem
                exact (List.nodup_middle.1 hnd).notMem (List.mem_append_right _ hx)
            have ho' : update order s.iterators (kept ++ e' :: es)
                ((s.step e).2.delete e).iterators = kept ++ e' :: es := Function.update_self ..
            obtain ⟨h, hrun, hshape⟩ := ih hrem ho' hd'
            rw [if_neg (by simp)]
            refine ⟨h, ?_, ?_⟩
            · rw [hrun, after_cons_ended hr (List.cons_ne_nil e' es)]
            · have hlist : ((s.step e).2.delete e).iterators = s.iterators := rfl
              rw [hlist, Function.update_idem] at hshape
              exact hshape
      · -- it stays
        have ho' : order s.iterators = (kept ++ [e]) ++ es := by simpa using ho
        have hleft : kept ++ leftOf (stepAll s.value (e :: es) s.iter s.mem).1 =
            kept ++ [e] ++ leftOf (stepAll s.value es (s.step e).2.iter (s.step e).2.mem).1 := by
          simp only [step] at hr
          simp only [stepAll, step, leftOf_cons, if_neg hr, List.append_assoc,
            List.singleton_append]
        obtain ⟨h, hrun, hshape⟩ := ih (s := (s.step e).2) hs ho'
          fun x hx => hd x (List.mem_cons_of_mem e hx)
        rw [if_neg hr, hleft]
        exact ⟨h, hrun.trans (congrArg some (after_cons_left hr h es)), hshape⟩

/-! ### A call -/

/-- The iterators of the layer are `zs`, and none of them was deleted. -/
structure Holds (s : IterLayer E L P K) (zs : List E) : Prop where
  shape : ∃ order, Shape s.heap order ∧ order s.iterators = zs
  nodup : (s.deleted ++ zs).Nodup

omit [DecidableEq E] [DecidableEq L] [DecidableEq P] [Field K] [LinearOrder K] in
theorem Holds.unique {ys : List E} (hy : s.Holds ys) (hz : s.Holds zs) : ys = zs := by
  obtain ⟨order, hs, rfl⟩ := hy.shape
  obtain ⟨order', hs', rfl⟩ := hz.shape
  exact (hs.strand s.iterators).walk_next.unique (hs'.strand s.iterators).walk_next

/-- What the steps of a call return, for iterators `zs`. -/
def results (s : IterLayer E L P K) (zs : List E) : List (E × ℤ) :=
  (stepAll s.value zs s.iter s.mem).1

/-- **A call** comes to an end, and the iterators it leaves are those that did not. -/
theorem do_iterators_eq (hz : s.Holds zs) :
    ∃ h, s.do_iterators = some (s.after h zs) ∧
      (s.after h zs).Holds (leftOf (s.results zs)) := by
  obtain ⟨⟨order, hs, ho⟩, hnd⟩ := hz
  have hnodup : ((s.after s.heap zs).deleted ++ leftOf (s.results zs)).Nodup := by
    have hperm := (endedOf_append_leftOf (s.results zs)).append_left s.deleted
    rw [results, stepAll_fst, ← List.append_assoc] at hperm
    exact hperm.nodup_iff.2 hnd
  have ho' : order s.iterators = [] ++ zs := ho
  obtain ⟨h, hloop, hshape⟩ := loop_eq hs ho' fun e he hmem =>
    List.disjoint_of_nodup_append hnd hmem he
  have hlen : s.heap.length s.iterators = zs.length := ho ▸ hs.length s.iterators
  have hfirst : s.heap.first s.iterators = zs.head? := ho ▸ (hs.strand s.iterators).first
  refine ⟨h, ?_, ⟨_, hshape, Function.update_self ..⟩, hnodup⟩
  unfold do_iterators
  split_ifs with hempty
  · rw [hlen, hfirst, Int.toNat_natCast]
    exact hloop
  · obtain rfl : zs = [] := by
      rw [hlen] at hempty
      simpa using hempty
    exact hloop

/-- A layer that is fading out is deactivated by the call that leaves it without the
iterators it had, and otherwise it is left as it is. -/
def FadesRight (s s' : IterLayer E L P K) (zs left : List E) : Prop :=
  (s.fade = true ∧ zs ≠ [] ∧ left = [] → s'.fade = false ∧ s'.active = false) ∧
    (¬ (s.fade = true ∧ zs ≠ [] ∧ left = []) → s'.fade = s.fade ∧ s'.active = s.active)

omit [DecidableEq E] in
/-- Where every step returned -1, so did the last. -/
theorem lastEnded_of_forall {rs : List (E × ℤ)} (hne : rs ≠ []) (h : ∀ r ∈ rs, r.2 < 0) :
    lastEnded rs = true := by
  unfold lastEnded
  rw [List.getLast?_eq_some_getLast hne]
  simpa using h _ (List.getLast_mem hne)

omit [DecidableEq L] in
/-- **Fading out** is right in a call if and only if the last iterator does not end while
another goes on. -/
theorem after_fadesRight (h : Heap E L) :
    FadesRight s (s.after h zs) zs (leftOf (s.results zs)) ↔
      (s.fade = true → lastEnded (s.results zs) = true → ∀ r ∈ s.results zs, r.2 < 0) := by
  have hfade : (s.after h zs).fade = (s.fade && !lastEnded (s.results zs)) := rfl
  have hactive : (s.after h zs).active =
      (s.active && !(s.fade && lastEnded (s.results zs))) := rfl
  unfold FadesRight
  rw [leftOf_eq_nil, hfade, hactive]
  constructor
  · rintro ⟨-, hkeep⟩ hf hlast
    by_contra hall
    have h := (hkeep fun h => hall h.2.2).1
    simp [hf, hlast] at h
  · intro hcond
    refine ⟨fun ⟨hf, hzs, hall⟩ => ?_, fun hnot => ?_⟩
    · have hlast : lastEnded (s.results zs) = true :=
        lastEnded_of_forall (stepAll_ne_nil s.value hzs s.iter s.mem) hall
      simp [hf, hlast]
    · cases hf : s.fade with
      | false => simp
      | true =>
          cases hlast : lastEnded (s.results zs) with
          | false => simp
          | true =>
              have hzs : zs ≠ [] := by
                rintro rfl
                simp [results, stepAll, lastEnded] at hlast
              exact absurd ⟨hf, hzs, hcond hf hlast⟩ hnot

/-! ### A sequence of calls -/

/-- Every sequence of calls comes to an end. -/
theorem exists_calls (hz : s.Holds zs) (n : ℕ) : ∃ t ts, s.calls n = some t ∧ t.Holds ts := by
  induction n with
  | zero => exact ⟨s, zs, rfl, hz⟩
  | succ n ih =>
      obtain ⟨t, ts, ht, hts⟩ := ih
      obtain ⟨h, hcall, hnext⟩ := do_iterators_eq hts
      refine ⟨_, _, ?_, hnext⟩
      rw [calls, ht]
      exact hcall

end IterLayer

/-- **The iterators of a layer**, in every sequence of calls of `do_iterators` on any list of
them: a call comes to an end, it steps each iterator of the list once, in order, it deletes
those whose step returned -1, once, and the others stay in the list in their order. A layer
that is fading out is deactivated by the call that leaves it without the iterators it had, and
by no other, if and only if the last iterator of the list does not end in a call in which
another one goes on. -/
theorem do_iterators_iff {s : IterLayer E L P K} {zs : List E} (hz : s.Holds zs) (n : ℕ) :
    ∃ t ts t', s.calls n = some t ∧ t.Holds ts ∧ t.do_iterators = some t' ∧
      t'.stepped = t.stepped ++ ts ∧
      (t.results ts).map Prod.fst = ts ∧
      (t'.iter, t'.mem) = (stepAll t.value ts t.iter t.mem).2 ∧
      t'.deleted = t.deleted ++ endedOf (t.results ts) ∧
      t'.Holds (leftOf (t.results ts)) ∧
      (IterLayer.FadesRight t t' ts (leftOf (t.results ts)) ↔
        (t.fade = true → lastEnded (t.results ts) = true → ∀ r ∈ t.results ts, r.2 < 0)) := by
  obtain ⟨t, ts, ht, hts⟩ := IterLayer.exists_calls hz n
  obtain ⟨h, hcall, hnext⟩ := IterLayer.do_iterators_eq hts
  exact ⟨t, ts, _, ht, hts, hcall, rfl, stepAll_fst .., rfl, rfl, hnext,
    IterLayer.after_fadesRight h⟩

/-- A layer that is fading out, with two iterators that move a value each, both from 0. -/
def IterLayer.fading (aim₁ aim₂ : ℚ) : IterLayer Bool Unit Bool ℚ where
  heap := Linklist.append (Linklist.append Heap.fresh () false) () true
  iterators := ()
  iter e := { Iterator.new 0 0 with aim := if e then aim₂ else aim₁ }
  value e := e
  mem _ := 0
  fade := true
  active := true
  stepped := []
  deleted := []

theorem IterLayer.fading_holds (aim₁ aim₂ : ℚ) : (fading aim₁ aim₂).Holds [false, true] :=
  ⟨⟨_, (Shape.fresh.append () false).append () true, rfl⟩, by simp [fading]⟩

/-- The first iterator ends in a call and the last, which aims at 2, goes on: the layer is not
deactivated. -/
theorem do_iterators_first_ends :
    ∃ t', (IterLayer.fading 0 2).do_iterators = some t' ∧ t'.stepped = [false, true] ∧
      t'.deleted = [false] ∧ t'.Holds [true] ∧ t'.fade = true ∧ t'.active = true := by
  obtain ⟨t, ts, t', ht, hts, hcall, hstepped, -, -, hdeleted, hleft, hright⟩ :=
    do_iterators_iff (IterLayer.fading_holds 0 2) 0
  obtain rfl : IterLayer.fading 0 2 = t := Option.some.inj ht
  obtain rfl : ts = [false, true] := hts.unique (IterLayer.fading_holds 0 2)
  obtain ⟨hfade, hactive⟩ := (hright.2 fun _ hlast => absurd hlast (by decide)).2
    fun h => absurd h.2.2 (by decide)
  exact ⟨t', hcall, hstepped, hdeleted, hleft, hfade, hactive⟩

/-- The last iterator ends in a call and the first, which aims at 2, goes on: the layer is
deactivated all the same. -/
theorem do_iterators_last_ends :
    ∃ t', (IterLayer.fading 2 0).do_iterators = some t' ∧ t'.stepped = [false, true] ∧
      t'.deleted = [true] ∧ t'.Holds [false] ∧ t'.fade = false ∧ t'.active = false ∧
      ¬ IterLayer.FadesRight (IterLayer.fading 2 0) t' [false, true] [false] := by
  obtain ⟨h, hcall, hleft⟩ := IterLayer.do_iterators_eq (IterLayer.fading_holds 2 0)
  refine ⟨_, hcall, rfl, rfl, hleft, rfl, rfl, fun hright => ?_⟩
  have hkeep := hright.2 fun h => absurd h.2.2 (by decide)
  exact Bool.false_ne_true hkeep.1

end FreeJ
