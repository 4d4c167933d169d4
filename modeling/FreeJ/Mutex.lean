import Mathlib.Data.Option.Basic
import Mathlib.Logic.Function.Basic

/-!
# Mutexes

A mutex is the thread that holds it, if any. `lock` succeeds on a free one only: a thread
that finds it taken has no step, and that is what blocking means here. A state machine
keeps its mutexes honest by the invariant `Guards`: the holder is the thread inside a
critical section.

## Main results

* `Guards.unique`: two threads inside the same critical section are one.
* `Guards.lock`, `Guards.unlock`, `Guards.keep`: what locking, unlocking and a step that
  stays inside or outside do to the invariant.
-/

namespace Mutex

variable {T : Type*} {m m' : Option T} {t t' : T} {inside inside' : T → Prop}

/-- Thread `t` locks a mutex, when nobody holds it. -/
def lock (m : Option T) (t : T) : Option (Option T) :=
  match m with
  | none => some (some t)
  | some _ => none

@[simp] theorem lock_eq_some : lock m t = some m' ↔ m = none ∧ m' = some t := by
  cases m with
  | none => simp [lock, eq_comm]
  | some u => simp [lock]

@[simp] theorem lock_none : lock none t = some (some t) := rfl

/-- A mutex that cannot be locked is held by somebody. -/
theorem exists_of_lock_eq_none (h : lock m t = none) : ∃ t', m = some t' := by
  cases m with
  | none => simp at h
  | some t' => exact ⟨t', rfl⟩

/-- The threads inside a critical section of the mutex are those that hold it. -/
def Guards (m : Option T) (inside : T → Prop) : Prop :=
  ∀ t, inside t ↔ m = some t

/-- **Mutual exclusion.** -/
theorem Guards.unique (h : Guards m inside) (ht : inside t) (ht' : inside t') : t = t' :=
  Option.some.inj (((h t).mp ht).symm.trans ((h t').mp ht'))

/-- Nobody is inside the critical sections of a free mutex. -/
theorem Guards.notMem_of_none (h : Guards none inside) : ¬ inside t :=
  fun ht => nomatch (h t).mp ht

/-- Thread `t` makes a step that neither enters nor leaves. -/
theorem Guards.keep (h : Guards m inside) (hother : ∀ t' ≠ t, (inside' t' ↔ inside t'))
    (ht : inside' t ↔ inside t) : Guards m inside' := by
  intro t'
  by_cases htt : t' = t
  · subst htt
    exact ht.trans (h t')
  · exact (hother t' htt).trans (h t')

/-- Thread `t` locks the mutex and enters. -/
theorem Guards.lock (h : Guards none inside) (hother : ∀ t' ≠ t, (inside' t' ↔ inside t'))
    (ht : inside' t) : Guards (some t) inside' := by
  intro t'
  by_cases htt : t' = t
  · subst htt
    exact iff_of_true ht rfl
  · exact iff_of_false (fun hin => h.notMem_of_none ((hother t' htt).mp hin))
      fun heq => htt (Option.some.inj heq).symm

/-- Thread `t` leaves and unlocks the mutex. -/
theorem Guards.unlock (h : Guards m inside) (hother : ∀ t' ≠ t, (inside' t' ↔ inside t'))
    (ht : inside t) (hout : ¬ inside' t) : Guards none inside' := by
  intro t'
  refine iff_of_false (fun hin => ?_) (by rintro ⟨⟩)
  by_cases htt : t' = t
  · exact hout (htt ▸ hin)
  · exact htt (h.unique ((hother t' htt).mp hin) ht)

/-! ### Many mutexes -/

section Family

open Function (update)

variable {J : Type*} [DecidableEq J] {f : J → Option T} {into into' : J → T → Prop} {i : J}

/-- Thread `t` locks one of many mutexes. -/
theorem Guards.lock_at (h : ∀ j, Guards (f j) (into j)) (hfree : f i = none)
    (hother : ∀ j, ∀ t' ≠ t, (into' j t' ↔ into j t')) (ht : into' i t)
    (hkeep : ∀ j ≠ i, (into' j t ↔ into j t)) (j : J) :
    Guards (update f i (some t) j) (into' j) := by
  by_cases hj : j = i
  · subst hj
    rw [Function.update_self]
    exact Guards.lock (hfree ▸ h j) (hother j) ht
  · rw [Function.update_of_ne hj]
    exact (h j).keep (hother j) (hkeep j hj)

/-- Thread `t` unlocks one of many mutexes. -/
theorem Guards.unlock_at (h : ∀ j, Guards (f j) (into j))
    (hother : ∀ j, ∀ t' ≠ t, (into' j t' ↔ into j t')) (ht : into i t) (hout : ¬ into' i t)
    (hkeep : ∀ j ≠ i, (into' j t ↔ into j t)) (j : J) :
    Guards (update f i none j) (into' j) := by
  by_cases hj : j = i
  · subst hj
    rw [Function.update_self]
    exact (h j).unlock (hother j) ht hout
  · rw [Function.update_of_ne hj]
    exact (h j).keep (hother j) (hkeep j hj)

end Family

end Mutex
