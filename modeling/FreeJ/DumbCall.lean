import Mathlib.Data.Int.Basic
import FreeJ.Mutex

/-!
# The Count and the Gate of a Call

`DumbCall` of `callback.cpp`. A callback counts each notification in the call (`enqueue`)
before it hands it over, and the thread that runs it counts it out again (`dequeue`). The
count is guarded by `refcount_mutex_`. The mutex `pending_` is a gate: the notification that
takes the count from zero locks it, the one that takes it back to zero unlocks it, in another
thread, and `~DumbCall` waits for it.

A function takes the call and a position to the next ones, the position being `none` when the
function returns. What a thread does to a member that the destructor has destroyed is
recorded (`late`).

## Main results

* `enqueue_at`, `dequeue_at`: at every position of the two functions the gate is what the
  count says, and after them it is closed exactly when notifications are counted.
* `enqueue_counts`, `dequeue_counts`: what they add to the count.
* `enqueue_guards`, `dequeue_guards`: they lock and unlock `refcount_mutex_` in pairs.
-/

namespace FreeJ

open Mutex

/-- Positions in `DumbCall::enqueue`: `gate` locks `pending_`, `count` increments. -/
inductive Enqueue
  | lock
  | test
  | gate
  | count
  | unlock
  deriving DecidableEq

/-- Positions in `DumbCall::dequeue`: `count` decrements, `gate` unlocks `pending_`. -/
inductive Dequeue
  | lock
  | count
  | test
  | gate
  | unlock
  deriving DecidableEq

/-- Inside the critical section of the count. -/
def Enqueue.Inside : Enqueue → Prop
  | .lock => False
  | _ => True

/-- Inside the critical section of the count. -/
def Dequeue.Inside : Dequeue → Prop
  | .lock => False
  | _ => True

/-- The notifications that were counted in by a thread that is enqueuing one. -/
def Enqueue.carries : Enqueue → ℤ
  | .unlock => 1
  | _ => 0

/-- The notifications that are yet to be counted out by a thread that is dequeuing one. -/
def Dequeue.carries : Dequeue → ℤ
  | .lock | .count => 1
  | _ => 0

namespace DumbCall

/-- Positions in `~DumbCall`. -/
inductive Destructor
  | notYet
  | lock
  | unlock
  | destroyPending
  | destroyRefcount
  | gone
  deriving DecidableEq

/-- What a thread can touch of a call: its mutexes, and the members that have no destructor
(`refcount_`, and the table through which `callback` is called). -/
inductive Member
  | pending_
  | refcount_mutex_
  | plain

/-- The destructor has destroyed the member. -/
def Destructor.destroyed : Destructor → Member → Bool
  | .destroyRefcount, .pending_ => true
  | .gone, _ => true
  | _, _ => false

/-- The destructor has acquired `pending_`. -/
def Destructor.passed : Destructor → Bool
  | .notYet | .lock => false
  | _ => true

end DumbCall

/-- `DumbCall`. The mutex `pending_` is not unlocked by the thread that locked it, so only
whether it is locked matters. -/
structure DumbCall (T : Type*) where
  refcount_ : ℤ
  /-- who holds `refcount_mutex_` -/
  refcount_mutex_ : Option T
  /-- `pending_` is locked -/
  pending_ : Bool
  /-- where `~DumbCall` is -/
  destructor : DumbCall.Destructor
  /-- a member was touched after the destructor had destroyed it -/
  late : Bool

namespace DumbCall

variable {T : Type*}

/-- The constructor. -/
def fresh : DumbCall T where
  refcount_ := 0
  refcount_mutex_ := none
  pending_ := false
  destructor := .notYet
  late := false

/-- A thread touches a member. -/
def touch (c : DumbCall T) (m : Member) : DumbCall T :=
  { c with late := c.late || c.destructor.destroyed m }

/-- `DumbCall::enqueue`, step by step. -/
def enqueue (c : DumbCall T) (t : T) : Enqueue → Option (DumbCall T × Option Enqueue)
  | .lock => (lock c.refcount_mutex_ t).map fun m =>
      ({ c.touch .refcount_mutex_ with refcount_mutex_ := m }, some .test)
  | .test => some (c.touch .plain, some (if c.refcount_ = 0 then .gate else .count))
  | .gate =>
    if c.pending_ then none else some ({ c.touch .pending_ with pending_ := true }, some .count)
  | .count => some ({ c.touch .plain with refcount_ := c.refcount_ + 1 }, some .unlock)
  | .unlock => some ({ c.touch .refcount_mutex_ with refcount_mutex_ := none }, none)

/-- `DumbCall::dequeue`, step by step. -/
def dequeue (c : DumbCall T) (t : T) : Dequeue → Option (DumbCall T × Option Dequeue)
  | .lock => (lock c.refcount_mutex_ t).map fun m =>
      ({ c.touch .refcount_mutex_ with refcount_mutex_ := m }, some .count)
  | .count => some ({ c.touch .plain with refcount_ := c.refcount_ - 1 }, some .test)
  | .test => some (c.touch .plain, some (if c.refcount_ = 0 then .gate else .unlock))
  | .gate => some ({ c.touch .pending_ with pending_ := false }, some .unlock)
  | .unlock => some ({ c.touch .refcount_mutex_ with refcount_mutex_ := none }, none)

/-- `~DumbCall`, step by step. -/
def destroy (c : DumbCall T) : Option (DumbCall T) :=
  match c.destructor with
  | .notYet => some { c with destructor := .lock }
  | .lock => if c.pending_ then none else some { c with pending_ := true, destructor := .unlock }
  | .unlock => some { c with pending_ := false, destructor := .destroyPending }
  | .destroyPending => some { c with destructor := .destroyRefcount }
  | .destroyRefcount => some { c with destructor := .gone }
  | .gone => none

/-- The gate is closed when notifications are counted, and only then. -/
def Balanced (c : DumbCall T) : Prop :=
  c.pending_ = true ↔ 0 < c.refcount_

/-- What the gate looks like at each position of `enqueue`. -/
def EnqueueAt (c : DumbCall T) : Enqueue → Prop
  | .lock | .test | .unlock => c.Balanced
  | .gate => c.refcount_ = 0 ∧ c.pending_ = false
  | .count => c.pending_ = true

/-- What the gate looks like at each position of `dequeue`. -/
def DequeueAt (c : DumbCall T) : Dequeue → Prop
  | .lock | .count | .unlock => c.Balanced
  | .test => c.pending_ = true
  | .gate => c.refcount_ = 0

variable {c c' : DumbCall T} {t : T} {inside inside' : T → Prop}

/-- Nothing is destroyed before the destructor is through the gate. -/
theorem touch_of_not_passed (h : c.destructor.passed = false) (m : Member) : c.touch m = c := by
  have hd : c.destructor.destroyed m = false := by
    cases hc : c.destructor <;> cases m <;> simp_all [Destructor.passed, Destructor.destroyed]
  simp [touch, hd]

@[simp] theorem touch_refcount (m : Member) : (c.touch m).refcount_ = c.refcount_ := rfl

@[simp] theorem touch_pending (m : Member) : (c.touch m).pending_ = c.pending_ := rfl

/-- What a step of `enqueue` can do. -/
theorem enqueue_cases {pc : Enqueue} {pc' : Option Enqueue}
    (h : c.enqueue t pc = some (c', pc')) :
    (pc = .lock ∧ c.refcount_mutex_ = none ∧
        c' = { c.touch .refcount_mutex_ with refcount_mutex_ := some t } ∧ pc' = some .test) ∨
      (pc = .test ∧ c' = c.touch .plain ∧
        (c.refcount_ = 0 ∧ pc' = some .gate ∨ c.refcount_ ≠ 0 ∧ pc' = some .count)) ∨
      (pc = .gate ∧ c' = { c.touch .pending_ with pending_ := true } ∧ pc' = some .count) ∨
      (pc = .count ∧ c' = { c.touch .plain with refcount_ := c.refcount_ + 1 } ∧
        pc' = some .unlock) ∨
      pc = .unlock ∧ c' = { c.touch .refcount_mutex_ with refcount_mutex_ := none } ∧
        pc' = none := by
  cases pc with
  | lock =>
      obtain ⟨m, hm, heq⟩ := Option.map_eq_some_iff.mp h
      obtain ⟨rfl, rfl⟩ := Prod.mk.inj heq
      obtain ⟨hfree, rfl⟩ := lock_eq_some.mp hm
      exact Or.inl ⟨rfl, hfree, rfl, rfl⟩
  | test =>
      obtain ⟨rfl, rfl⟩ := Prod.mk.inj (Option.some.inj h)
      refine Or.inr (Or.inl ⟨rfl, rfl, ?_⟩)
      by_cases hz : c.refcount_ = 0 <;> simp [hz]
  | gate =>
      simp only [enqueue] at h
      split at h
      · simp at h
      · obtain ⟨rfl, rfl⟩ := Prod.mk.inj (Option.some.inj h)
        exact Or.inr (Or.inr (Or.inl ⟨rfl, rfl, rfl⟩))
  | count =>
      obtain ⟨rfl, rfl⟩ := Prod.mk.inj (Option.some.inj h)
      exact Or.inr (Or.inr (Or.inr (Or.inl ⟨rfl, rfl, rfl⟩)))
  | unlock =>
      obtain ⟨rfl, rfl⟩ := Prod.mk.inj (Option.some.inj h)
      exact Or.inr (Or.inr (Or.inr (Or.inr ⟨rfl, rfl, rfl⟩)))

/-- What a step of `dequeue` can do. -/
theorem dequeue_cases {pc : Dequeue} {pc' : Option Dequeue}
    (h : c.dequeue t pc = some (c', pc')) :
    (pc = .lock ∧ c.refcount_mutex_ = none ∧
        c' = { c.touch .refcount_mutex_ with refcount_mutex_ := some t } ∧ pc' = some .count) ∨
      (pc = .count ∧ c' = { c.touch .plain with refcount_ := c.refcount_ - 1 } ∧
        pc' = some .test) ∨
      (pc = .test ∧ c' = c.touch .plain ∧
        (c.refcount_ = 0 ∧ pc' = some .gate ∨ c.refcount_ ≠ 0 ∧ pc' = some .unlock)) ∨
      (pc = .gate ∧ c' = { c.touch .pending_ with pending_ := false } ∧ pc' = some .unlock) ∨
      pc = .unlock ∧ c' = { c.touch .refcount_mutex_ with refcount_mutex_ := none } ∧
        pc' = none := by
  cases pc with
  | lock =>
      obtain ⟨m, hm, heq⟩ := Option.map_eq_some_iff.mp h
      obtain ⟨rfl, rfl⟩ := Prod.mk.inj heq
      obtain ⟨hfree, rfl⟩ := lock_eq_some.mp hm
      exact Or.inl ⟨rfl, hfree, rfl, rfl⟩
  | count =>
      obtain ⟨rfl, rfl⟩ := Prod.mk.inj (Option.some.inj h)
      exact Or.inr (Or.inl ⟨rfl, rfl, rfl⟩)
  | test =>
      obtain ⟨rfl, rfl⟩ := Prod.mk.inj (Option.some.inj h)
      refine Or.inr (Or.inr (Or.inl ⟨rfl, rfl, ?_⟩))
      by_cases hz : c.refcount_ = 0 <;> simp [hz]
  | gate =>
      obtain ⟨rfl, rfl⟩ := Prod.mk.inj (Option.some.inj h)
      exact Or.inr (Or.inr (Or.inr (Or.inl ⟨rfl, rfl, rfl⟩)))
  | unlock =>
      obtain ⟨rfl, rfl⟩ := Prod.mk.inj (Option.some.inj h)
      exact Or.inr (Or.inr (Or.inr (Or.inr ⟨rfl, rfl, rfl⟩)))

/-- **`enqueue` closes the gate** when it counts the first notification. -/
theorem enqueue_at {pc : Enqueue} {pc' : Option Enqueue}
    (h : c.enqueue t pc = some (c', pc')) (hc : c.EnqueueAt pc) (hpos : 0 ≤ c.refcount_) :
    pc'.elim c'.Balanced c'.EnqueueAt := by
  rcases enqueue_cases h with ⟨rfl, -, rfl, rfl⟩ | ⟨rfl, rfl, ⟨hz, rfl⟩ | ⟨hz, rfl⟩⟩ |
    ⟨rfl, rfl, rfl⟩ | ⟨rfl, rfl, rfl⟩ | ⟨rfl, rfl, rfl⟩
  · exact hc
  · have hp : c.pending_ ≠ true := by
      intro hp
      simpa [hz] using hc.mp hp
    exact ⟨hz, by simpa using hp⟩
  · exact hc.mpr (by omega)
  · rfl
  · exact iff_of_true hc (by simp only; omega)
  · exact hc

/-- **`dequeue` opens the gate** when it takes the count back to zero; `dequeue` itself is
counted until it has decremented. -/
theorem dequeue_at {pc : Dequeue} {pc' : Option Dequeue}
    (h : c.dequeue t pc = some (c', pc')) (hc : c.DequeueAt pc) (hpos : 0 ≤ c.refcount_)
    (hcount : pc = .count → 0 < c.refcount_) : pc'.elim c'.Balanced c'.DequeueAt := by
  rcases dequeue_cases h with ⟨rfl, -, rfl, rfl⟩ | ⟨rfl, rfl, rfl⟩ |
    ⟨rfl, rfl, ⟨hz, rfl⟩ | ⟨hz, rfl⟩⟩ | ⟨rfl, rfl, rfl⟩ | ⟨rfl, rfl, rfl⟩
  · exact hc
  · exact hc.mpr (hcount rfl)
  · exact hz
  · have hc : c.pending_ = true := hc
    exact iff_of_true hc (by simp only [touch_refcount]; omega)
  · have hz : c.refcount_ = 0 := hc
    exact iff_of_false (by simp) (by simp [hz])
  · exact hc

/-- What `enqueue` adds to the count, while the destructor waits. -/
theorem enqueue_counts {pc : Enqueue} {pc' : Option Enqueue}
    (h : c.enqueue t pc = some (c', pc')) (hp : c.destructor.passed = false) :
    c'.refcount_ - c.refcount_ = pc'.elim 1 Enqueue.carries - pc.carries ∧
      c'.destructor = c.destructor ∧ c'.late = c.late := by
  have htouch := touch_of_not_passed hp
  rcases enqueue_cases h with ⟨rfl, -, rfl, rfl⟩ | ⟨rfl, rfl, ⟨-, rfl⟩ | ⟨-, rfl⟩⟩ |
    ⟨rfl, rfl, rfl⟩ | ⟨rfl, rfl, rfl⟩ | ⟨rfl, rfl, rfl⟩
  case inr.inr.inr.inl =>
    rw [htouch]
    refine ⟨?_, rfl, rfl⟩
    simp only [Option.elim, Enqueue.carries]
    omega
  all_goals simp [htouch, Enqueue.carries]

/-- What `dequeue` adds to the count, while the destructor waits. -/
theorem dequeue_counts {pc : Dequeue} {pc' : Option Dequeue}
    (h : c.dequeue t pc = some (c', pc')) (hp : c.destructor.passed = false) :
    c'.refcount_ - c.refcount_ = pc'.elim 0 Dequeue.carries - pc.carries ∧
      c'.destructor = c.destructor ∧ c'.late = c.late := by
  have htouch := touch_of_not_passed hp
  rcases dequeue_cases h with ⟨rfl, -, rfl, rfl⟩ | ⟨rfl, rfl, rfl⟩ |
    ⟨rfl, rfl, ⟨-, rfl⟩ | ⟨-, rfl⟩⟩ | ⟨rfl, rfl, rfl⟩ | ⟨rfl, rfl, rfl⟩
  case inr.inl =>
    rw [htouch]
    refine ⟨?_, rfl, rfl⟩
    simp only [Option.elim, Dequeue.carries]
    omega
  all_goals simp [htouch, Dequeue.carries]

/-- `enqueue` locks and unlocks `refcount_mutex_`. -/
theorem enqueue_guards {pc : Enqueue} {pc' : Option Enqueue}
    (h : c.enqueue t pc = some (c', pc')) (hg : Guards c.refcount_mutex_ inside)
    (hother : ∀ t' ≠ t, (inside' t' ↔ inside t')) (ht : inside t ↔ pc.Inside)
    (ht' : inside' t ↔ pc'.elim False Enqueue.Inside) : Guards c'.refcount_mutex_ inside' := by
  rcases enqueue_cases h with ⟨rfl, hfree, rfl, rfl⟩ | ⟨rfl, rfl, ⟨-, rfl⟩ | ⟨-, rfl⟩⟩ |
    ⟨rfl, rfl, rfl⟩ | ⟨rfl, rfl, rfl⟩ | ⟨rfl, rfl, rfl⟩
  case inl => exact (hfree ▸ hg).lock hother (ht'.mpr trivial)
  case inr.inr.inr.inr => exact hg.unlock hother (ht.mpr trivial) ht'.mp
  all_goals exact hg.keep hother (iff_of_true (ht'.mpr trivial) (ht.mpr trivial))

/-- `dequeue` locks and unlocks `refcount_mutex_`. -/
theorem dequeue_guards {pc : Dequeue} {pc' : Option Dequeue}
    (h : c.dequeue t pc = some (c', pc')) (hg : Guards c.refcount_mutex_ inside)
    (hother : ∀ t' ≠ t, (inside' t' ↔ inside t')) (ht : inside t ↔ pc.Inside)
    (ht' : inside' t ↔ pc'.elim False Dequeue.Inside) : Guards c'.refcount_mutex_ inside' := by
  rcases dequeue_cases h with ⟨rfl, hfree, rfl, rfl⟩ | ⟨rfl, rfl, rfl⟩ |
    ⟨rfl, rfl, ⟨-, rfl⟩ | ⟨-, rfl⟩⟩ | ⟨rfl, rfl, rfl⟩ | ⟨rfl, rfl, rfl⟩
  case inl => exact (hfree ▸ hg).lock hother (ht'.mpr trivial)
  case inr.inr.inr.inr => exact hg.unlock hother (ht.mpr trivial) ht'.mp
  all_goals exact hg.keep hother (iff_of_true (ht'.mpr trivial) (ht.mpr trivial))

end DumbCall

end FreeJ
