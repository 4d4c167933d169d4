import Mathlib.Data.Fintype.Basic
import Mathlib.Data.List.Nodup
import FreeJ.ClosureQueue
import FreeJ.Transition

/-!
# The Hand-Over of a Synchronized Closure

`Closure` of `closure.h`, when it is synchronized: an owner creates it, adds it to a
`ClosureQueue`, waits for it and deletes it, while another thread runs what is in the queue
with `do_jobs`. There is no completion flag. The constructor locks the closure's mutex,
`wait` is a single `pthread_cond_wait`, and `run` locks, broadcasts and unlocks after the
body. A wait may return spuriously (`wakeup`).

There are any number of owners; the closure of owner `p` is called `p`. A destroyed mutex is
one that nobody holds, and what the runner does to a closure whose deletion has begun is
recorded (`late`).

## Main results

* `closure_handover`: when the owner takes its mutex back only after the runner has locked
  it, `wait` returns after the body has completed and nothing is accessed too late.
* `spurious_return`: a spurious wake-up before that makes `wait` return early, and the
  runner then uses a deleted closure.
-/

namespace FreeJ

open Function (update)
open Mutex Transition

namespace SyncClosure

/-- The owners of the closures, and the thread that runs `do_jobs`. -/
inductive Thread (P : Type*)
  | owner (p : P)
  | runner
  deriving DecidableEq

/-- Positions of an owner: the constructor, `add_job`, `wait` (`relock` is where a woken
thread takes the mutex back), then `~Closure`, which unlocks the mutex and destroys it. -/
inductive Owner
  | create
  | add (pc : AddJob)
  | wait
  | waiting
  | relock
  | delete
  | destroy
  | gone
  deriving DecidableEq

/-- Positions of the runner: between two calls of `do_jobs`, in `do_jobs`, in the body of a
closure, and in the rest of `Closure::run`. -/
inductive Runner (P : Type*)
  | idle
  | jobs (pc : DoJobs P)
  | body (p : P)
  | notify (p : P) (pc : Signal)
  deriving DecidableEq

/-- The queue, the mutexes of the closures and the threads, with the history of each
closure. -/
structure State (P : Type*) where
  queue : ClosureQueue (Thread P) P
  /-- who holds the `cond_mutex_` of each closure -/
  mutex : P → Option (Thread P)
  owners : P → Owner
  runner : Runner P
  /-- `run_` has completed -/
  completed : P → Bool
  /-- `run` has locked the mutex -/
  locked : P → Bool
  /-- the runner accessed the closure after its deletion had begun -/
  late : P → Bool

variable {P : Type*}

/-- Before any closure is created. -/
def State.fresh : State P where
  queue := ClosureQueue.empty
  mutex _ := none
  owners _ := .create
  runner := .idle
  completed _ := false
  locked _ := false
  late _ := false

/-- What a broadcast on the closure's `cond_` does to its owner. -/
def Owner.wake : Owner → Owner
  | .waiting => .relock
  | pc => pc

/-- The deletion of the closure has begun. -/
def Owner.deleting : Owner → Bool
  | .destroy | .gone => true
  | _ => false

section Step

variable [DecidableEq P]

/-- The runner accesses a closure. -/
def State.access (s : State P) (p : P) : State P :=
  { s with late := update s.late p (s.late p || (s.owners p).deleting) }

/-- `do_jobs` and `Closure::run`, step by step. The closures are synchronized, so `do_jobs`
deletes none of them. -/
def State.do_jobs (s : State P) : Option (State P) :=
  match s.runner with
  | .idle => some { s with runner := .jobs .lock }
  | .jobs (.run p) => (s.queue.do_jobs .runner (.run p)).map fun r =>
      { s.access p with queue := r.1, runner := .body p }
  | .jobs pc => (s.queue.do_jobs .runner pc).map fun r =>
      { s with queue := r.1, runner := r.2.elim .idle .jobs }
  | .body p =>
    some { s.access p with completed := update s.completed p true, runner := .notify p .lock }
  | .notify p .lock => (lock (s.mutex p) .runner).map fun m =>
      { s.access p with
        mutex := update s.mutex p m
        locked := update s.locked p true
        runner := .notify p .broadcast }
  | .notify p .broadcast =>
    some { s.access p with
      owners := update s.owners p (s.owners p).wake
      runner := .notify p .unlock }
  | .notify p .unlock =>
    some { s.access p with mutex := update s.mutex p none, runner := .jobs .lock }

/-- The owner of a closure, step by step. -/
def State.own (s : State P) (p : P) : Option (State P) :=
  match s.owners p with
  | .create =>
    some { s with
      mutex := update s.mutex p (some (.owner p))
      owners := update s.owners p (.add .lock) }
  | .add pc => (s.queue.add_job (.owner p) p pc).map fun r =>
      { s with queue := r.1, owners := update s.owners p (r.2.elim .wait .add) }
  | .wait =>
    some { s with mutex := update s.mutex p none, owners := update s.owners p .waiting }
  | .waiting => none
  | .relock => (lock (s.mutex p) (.owner p)).map fun m =>
      { s with mutex := update s.mutex p m, owners := update s.owners p .delete }
  | .delete =>
    some { s with mutex := update s.mutex p none, owners := update s.owners p .destroy }
  | .destroy => some { s with owners := update s.owners p .gone }
  | .gone => none

/-- What may happen next: a step of a thread, and an owner that wakes up without a reason. -/
inductive Act (P : Type*)
  | run (t : Thread P)
  | wakeup (p : P)

/-- One step of one thread. -/
def State.step (s : State P) : Act P → Option (State P)
  | .run .runner => s.do_jobs
  | .run (.owner p) => s.own p
  | .wakeup p =>
    if s.owners p = .waiting then some { s with owners := update s.owners p .relock } else none

/-- Owners and runner, in any interleaving. -/
def system (P : Type*) [DecidableEq P] : System (State P) (Act P) :=
  System.ofFun (fun s => s = State.fresh) State.step

end Step

/-- An owner that was woken up takes its mutex back only after the runner has locked it. -/
def Handed (s : State P) : Act P → Prop
  | .run (.owner p) => s.owners p = .relock → s.locked p = true
  | _ => True

/-! ### The invariant -/

/-- `wait` has returned. -/
def Owner.Returned : Owner → Prop
  | .delete | .destroy | .gone => True
  | _ => False

/-- The closure is not in the queue yet. -/
def Owner.Early : Owner → Prop
  | .create | .add .lock | .add .push => True
  | _ => False

/-- The owner holds the closure's mutex. -/
def Owner.Holds : Owner → Prop
  | .add _ | .wait | .delete => True
  | _ => False

/-- The runner holds the closure's mutex. -/
def Runner.Holds (p : P) : Runner P → Prop
  | .notify p' .broadcast | .notify p' .unlock => p' = p
  | _ => False

/-- The runner runs the closure and has not locked its mutex yet. -/
def Runner.Early (p : P) : Runner P → Prop
  | .body p' | .notify p' .lock => p' = p
  | _ => False

/-- The runner has completed the body of the closure and not locked its mutex yet. -/
def Runner.Completed (p : P) : Runner P → Prop
  | .notify p' .lock => p' = p
  | _ => False

/-- The closure that the runner has taken from the queue and not run. -/
def Runner.pending : Runner P → List P
  | .jobs pc => pc.pending
  | _ => []

/-- A thread is inside a critical section of the mutex of a closure. -/
def State.Inside (s : State P) (p : P) : Thread P → Prop
  | .owner p' => p' = p ∧ (s.owners p).Holds
  | .runner => s.runner.Holds p

/-- The invariant of the runs whose steps are `Handed`. -/
structure Inv (s : State P) : Prop where
  mutex : ∀ p, Guards (s.mutex p) (s.Inside p)
  /-- every closure is run at most once, after it was pushed -/
  order : s.queue.pushed = s.queue.ran ++ s.runner.pending ++ s.queue.job_queue_
  nodup : s.queue.pushed.Nodup
  early : ∀ p, (s.owners p).Early → p ∉ s.queue.pushed
  /-- `locked` and `completed` say where the runner is or was -/
  running : ∀ p, s.runner.Early p → p ∈ s.queue.ran ∧ s.locked p = false
  body : ∀ p, s.runner.Completed p → s.completed p = true
  holding : ∀ p, s.runner.Holds p → s.locked p = true
  locked : ∀ p, s.locked p = true → p ∈ s.queue.ran ∧ s.completed p = true
  /-- a closure whose owner has returned from `wait` was locked by the runner and let go of -/
  returned : ∀ p, (s.owners p).Returned →
    s.locked p = true ∧ ¬ s.runner.Holds p ∧ ¬ s.runner.Early p
  late : ∀ p, s.late p = false

theorem Runner.Completed.early {r : Runner P} {p : P} (h : r.Completed p) : r.Early p := by
  rcases r with _ | _ | _ | ⟨p', _ | _ | _⟩ <;> first | exact h.elim | exact h

theorem Inv.fresh : Inv (State.fresh : State P) where
  mutex p t := by cases t <;> simp [State.fresh, State.Inside, Owner.Holds, Runner.Holds]
  order := rfl
  nodup := List.nodup_nil
  early _ _ h := nomatch h
  running _ h := h.elim
  body _ h := h.elim
  holding _ h := h.elim
  locked _ h := nomatch h
  returned _ h := h.elim
  late _ := rfl

/-! ### The steps keep the invariant -/

/-- A broadcast moves an owner out of its wait and nowhere else. -/
theorem Owner.wake_facts (o : Owner) : (o.wake.Holds ↔ o.Holds) ∧ (o.wake.Early ↔ o.Early) ∧
    (o.wake.Returned ↔ o.Returned) := by
  cases o <;> simp [Owner.wake, Owner.Holds, Owner.Early, Owner.Returned]

variable {s s' : State P} {q : ClosureQueue (Thread P) P} {m : P → Option (Thread P)}
  {r : Runner P} {p : P} {o : Owner}

/-- The runner goes on between two closures. -/
theorem Inv.goOn (h : Inv s) (hholds : ∀ p, r.Holds p ↔ s.runner.Holds p)
    (hearly : ∀ p, ¬ r.Early p) (hpushed : q.pushed = s.queue.pushed)
    (hran : q.ran = s.queue.ran) (horder : q.pushed = q.ran ++ r.pending ++ q.job_queue_) :
    Inv { s with queue := q, runner := r } where
  mutex p t := by
    cases t with
    | owner p' => exact h.mutex p (.owner p')
    | runner => exact (hholds p).trans (h.mutex p .runner)
  order := horder
  nodup := hpushed ▸ h.nodup
  early p hp := hpushed ▸ h.early p hp
  running p hp := absurd hp (hearly p)
  body p hp := absurd hp.early (hearly p)
  holding p hp := h.holding p ((hholds p).mp hp)
  locked p hp := hran ▸ h.locked p hp
  returned p hp := by
    obtain ⟨hl, hh, -⟩ := h.returned p hp
    exact ⟨hl, fun hr => hh ((hholds p).mp hr), hearly p⟩
  late := h.late

/-- A step of the runner moves no owner into a critical section or out of it. -/
theorem State.inside_of_ne_runner {completed locked : P → Bool} (p : P) : ∀ t ≠ .runner,
    (State.Inside ⟨q, m, s.owners, r, completed, locked, s.late⟩ p t ↔ s.Inside p t) := by
  intro t ht
  cases t with
  | owner _ => exact Iff.rfl
  | runner => exact absurd rfl ht

/-- The mutex of a closure that is not created yet is free. -/
theorem Inv.mutex_free (h : Inv s) (ho : s.owners p = .create) : s.mutex p = none := by
  by_contra hne
  obtain ⟨t, ht⟩ := Option.ne_none_iff_exists'.mp hne
  have hin := (h.mutex p t).mpr ht
  cases t with
  | owner p' => simp [State.Inside, ho, Owner.Holds] at hin
  | runner =>
      refine h.early p (by rw [ho]; trivial) ?_
      rw [h.order]
      simp [(h.locked p (h.holding p hin)).1]

section Steps

variable [DecidableEq P]

/-- The runner accesses a closure whose deletion has not begun. -/
theorem State.access_of_not_returned (hp : ¬ (s.owners p).Returned) : s.access p = s := by
  have hd : (s.owners p).deleting = false := by
    cases ho : s.owners p <;> simp_all [Owner.Returned, Owner.deleting]
  simp [State.access, hd]

/-- A closure that the runner has not locked yet is not deleted. -/
theorem Inv.access_of_not_locked (h : Inv s) (hlocked : s.locked p = false) :
    ¬ (s.owners p).Returned ∧ s.access p = s := by
  have hret : ¬ (s.owners p).Returned := by
    intro hret
    simpa [hlocked] using (h.returned p hret).1
  exact ⟨hret, State.access_of_not_returned hret⟩

/-- A closure whose mutex the runner holds is not deleted. -/
theorem Inv.access_of_holds (h : Inv s) (hholds : s.runner.Holds p) :
    ¬ (s.owners p).Returned ∧ s.access p = s := by
  have hret : ¬ (s.owners p).Returned := fun hret => (h.returned p hret).2.1 hholds
  exact ⟨hret, State.access_of_not_returned hret⟩

/-- The runner calls `run` on the closure it has taken: it was not run before, so its owner
is still waiting for it. -/
theorem Inv.runs (h : Inv s) (hr : s.runner = .jobs (.run p)) :
    Inv { s.access p with
      queue := { s.queue with ran := s.queue.ran ++ [p] }, runner := .body p } := by
  have ho := h.order
  rw [hr] at ho
  have hnd := h.nodup
  rw [ho] at hnd
  have hnot : p ∉ s.queue.ran := by
    intro hmem
    have hdis := List.disjoint_of_nodup_append (List.nodup_append.mp hnd).1
    exact hdis hmem (by simp [Runner.pending, DoJobs.pending])
  have hlocked : s.locked p = false := by
    by_contra hl
    exact hnot (h.locked p (by simpa using hl)).1
  obtain ⟨hret, haccess⟩ := h.access_of_not_locked hlocked
  rw [haccess]
  exact {
    mutex := fun p' => (h.mutex p').keep (State.inside_of_ne_runner p')
      (by simp [State.Inside, hr, Runner.Holds])
    order := by simpa [Runner.pending, DoJobs.pending] using ho
    nodup := h.nodup
    early := h.early
    running := by
      intro p' hp'
      obtain rfl : p = p' := hp'
      exact ⟨by simp, hlocked⟩
    body := fun p' hp' => hp'.elim
    holding := fun p' hp' => hp'.elim
    locked := fun p' hp' => ⟨by simp [(h.locked p' hp').1], (h.locked p' hp').2⟩
    returned := by
      intro p' hp'
      refine ⟨(h.returned p' hp').1, id, ?_⟩
      rintro rfl
      exact hret hp'
    late := h.late }

/-- The body of the closure completes. -/
theorem Inv.completes (h : Inv s) (hr : s.runner = .body p) :
    Inv { s.access p with
      completed := update s.completed p true, runner := .notify p .lock } := by
  have ho := h.order
  rw [hr] at ho
  rw [(h.access_of_not_locked (h.running p (by rw [hr]; rfl)).2).2]
  exact {
    mutex := fun p' => (h.mutex p').keep (State.inside_of_ne_runner p')
      (by simp [State.Inside, hr, Runner.Holds])
    order := ho
    nodup := h.nodup
    early := h.early
    running := fun p' hp' => h.running p' (by rw [hr]; exact hp')
    body := by
      intro p' hp'
      obtain rfl : p = p' := hp'
      simp
    holding := fun p' hp' => hp'.elim
    locked := by
      intro p' hp'
      refine ⟨(h.locked p' hp').1, ?_⟩
      by_cases hpp : p' = p
      · simp [hpp]
      · simpa [hpp] using (h.locked p' hp').2
    returned := by
      intro p' hp'
      obtain ⟨hl, -, he⟩ := h.returned p' hp'
      rw [hr] at he
      exact ⟨hl, id, he⟩
    late := h.late }

/-- The runner locks the mutex of the closure, which its owner has let go of in `wait`. -/
theorem Inv.locks (h : Inv s) (hr : s.runner = .notify p .lock) (hfree : s.mutex p = none) :
    Inv { s.access p with
      mutex := update s.mutex p (some .runner)
      locked := update s.locked p true
      runner := .notify p .broadcast } := by
  have ho := h.order
  rw [hr] at ho
  obtain ⟨hran, hlocked⟩ := h.running p (by rw [hr]; rfl)
  obtain ⟨hret, haccess⟩ := h.access_of_not_locked hlocked
  rw [haccess]
  exact {
    mutex := Guards.lock_at h.mutex hfree State.inside_of_ne_runner rfl fun p' hp' => by
      simp [State.Inside, hr, Runner.Holds, Ne.symm hp']
    order := ho
    nodup := h.nodup
    early := h.early
    running := fun p' hp' => hp'.elim
    body := fun p' hp' => hp'.elim
    holding := by
      intro p' hp'
      obtain rfl : p = p' := hp'
      simp
    locked := by
      intro p' hp'
      by_cases hpp : p' = p
      · subst hpp
        exact ⟨hran, h.body p' (by rw [hr]; rfl)⟩
      · exact h.locked p' (by simpa [hpp] using hp')
    returned := by
      intro p' hp'
      have hpp : p' ≠ p := by
        rintro rfl
        exact hret hp'
      exact ⟨by simpa [hpp] using (h.returned p' hp').1, Ne.symm hpp, id⟩
    late := h.late }

/-- The runner broadcasts on the condition of the closure. -/
theorem Inv.broadcasts (h : Inv s) (hr : s.runner = .notify p .broadcast) :
    Inv { s.access p with
      owners := update s.owners p (s.owners p).wake, runner := .notify p .unlock } := by
  have ho := h.order
  rw [hr] at ho
  obtain ⟨hret, haccess⟩ := h.access_of_holds (p := p) (by rw [hr]; rfl)
  rw [haccess]
  -- the broadcast moves no owner except from its wait to taking the mutex back
  have hwake : ∀ p', ((update s.owners p (s.owners p).wake p').Holds ↔ (s.owners p').Holds) ∧
      ((update s.owners p (s.owners p).wake p').Early ↔ (s.owners p').Early) ∧
      ((update s.owners p (s.owners p).wake p').Returned ↔ (s.owners p').Returned) := by
    intro p'
    by_cases hpp : p' = p
    · subst hpp
      simpa using (s.owners p').wake_facts
    · simp [hpp]
  exact {
    mutex := by
      intro p' t
      cases t with
      | owner p'' => exact (and_congr_right' (hwake p').1).trans (h.mutex p' (.owner p''))
      | runner =>
          have hm := h.mutex p' .runner
          rw [State.Inside, hr] at hm
          exact hm
    order := ho
    nodup := h.nodup
    early := fun p' hp' => h.early p' ((hwake p').2.1.mp hp')
    running := fun p' hp' => hp'.elim
    body := fun p' hp' => hp'.elim
    holding := fun p' hp' => h.holding p' (by rw [hr]; exact hp')
    locked := h.locked
    returned := by
      intro p' hp'
      have hret' := (hwake p').2.2.mp hp'
      have hpp : p ≠ p' := by
        rintro rfl
        exact hret hret'
      exact ⟨(h.returned p' hret').1, hpp, id⟩
    late := h.late }

/-- The runner unlocks the mutex of the closure and is through with it. -/
theorem Inv.unlocks (h : Inv s) (hr : s.runner = .notify p .unlock) :
    Inv { s.access p with mutex := update s.mutex p none, runner := .jobs .lock } := by
  have ho := h.order
  rw [hr] at ho
  rw [(h.access_of_holds (p := p) (by rw [hr]; rfl)).2]
  exact {
    mutex := Guards.unlock_at (t := .runner) h.mutex State.inside_of_ne_runner
      (by simp [State.Inside, hr, Runner.Holds]) id fun p' hp' => by
      simp [State.Inside, hr, Runner.Holds, Ne.symm hp']
    order := ho
    nodup := h.nodup
    early := h.early
    running := fun p' hp' => hp'.elim
    body := fun p' hp' => hp'.elim
    holding := fun p' hp' => hp'.elim
    locked := h.locked
    returned := fun p' hp' => ⟨(h.returned p' hp').1, id, id⟩
    late := h.late }

/-- **The runner keeps the invariant.** -/
theorem Inv.do_jobs (h : Inv s) (hs : s.do_jobs = some s') : Inv s' := by
  simp only [State.do_jobs] at hs
  cases hr : s.runner with
  | idle =>
      simp only [hr, Option.some.injEq] at hs
      subst hs
      have ho := h.order
      rw [hr] at ho
      exact h.goOn (by simp [hr, Runner.Holds]) (by simp [Runner.Early]) rfl rfl ho
  | jobs pc =>
      by_cases hrun : ∃ p, pc = .run p
      · obtain ⟨p, rfl⟩ := hrun
        simp only [hr, ClosureQueue.do_jobs, Option.map_some, Option.some.injEq] at hs
        subst hs
        exact h.runs hr
      · have hstep : (s.queue.do_jobs .runner pc).map (fun r =>
            { s with queue := r.1, runner := r.2.elim .idle .jobs }) = some s' := by
          cases pc <;> simp_all
        obtain ⟨⟨q, pc'⟩, hq, rfl⟩ := Option.map_eq_some_iff.mp hstep
        have ho := h.order
        rw [hr] at ho
        have horder := ClosureQueue.do_jobs_order hq ho
        refine h.goOn ?_ ?_ (ClosureQueue.do_jobs_queue hq).1
          (ClosureQueue.do_jobs_ran hq fun p hp => hrun ⟨p, hp⟩) ?_
        · cases pc' <;> simp [hr, Runner.Holds]
        · cases pc' <;> simp [Runner.Early]
        · cases pc' <;> exact horder
  | body p =>
      simp only [hr, Option.some.injEq] at hs
      subst hs
      exact h.completes hr
  | notify p pc =>
      cases pc with
      | lock =>
          simp only [hr] at hs
          obtain ⟨m, hm, rfl⟩ := Option.map_eq_some_iff.mp hs
          obtain ⟨hfree, rfl⟩ := lock_eq_some.mp hm
          exact h.locks hr hfree
      | broadcast =>
          simp only [hr, Option.some.injEq] at hs
          subst hs
          exact h.broadcasts hr
      | unlock =>
          simp only [hr, Option.some.injEq] at hs
          subst hs
          exact h.unlocks hr

/-- An owner goes on with its closure. -/
theorem Inv.ownOn (h : Inv s)
    (hmutex : ∀ p', Guards (m p')
      ({ s with queue := q, mutex := m, owners := update s.owners p o }.Inside p'))
    (horder : q.pushed = q.ran ++ s.runner.pending ++ q.job_queue_) (hran : q.ran = s.queue.ran)
    (hnodup : q.pushed.Nodup)
    (hearly : ∀ p', (update s.owners p o p').Early → p' ∉ q.pushed)
    (hreturned : o.Returned → s.locked p = true ∧ ¬ s.runner.Holds p ∧ ¬ s.runner.Early p) :
    Inv { s with queue := q, mutex := m, owners := update s.owners p o } where
  mutex := hmutex
  order := horder
  nodup := hnodup
  early := hearly
  running p' hp' := hran ▸ h.running p' hp'
  body := h.body
  holding := h.holding
  locked p' hp' := hran ▸ h.locked p' hp'
  returned p' hp' := by
    by_cases hpp : p' = p
    · subst hpp
      exact hreturned (by simpa using hp')
    · exact h.returned p' (by simpa [hpp] using hp')
  late := h.late

/-- A step of an owner moves nobody else into a critical section or out of it. -/
theorem State.inside_of_ne_owner (p' : P) : ∀ t ≠ .owner p,
    ({ s with queue := q, mutex := m, owners := update s.owners p o }.Inside p' t ↔
      s.Inside p' t) := by
  intro t ht
  cases t with
  | owner p'' =>
      by_cases hpp : p' = p
      · subst hpp
        have hne : p'' ≠ p' := fun hne => ht (hne ▸ rfl)
        simp [State.Inside, hne]
      · simp [State.Inside, hpp]
  | runner => exact Iff.rfl

/-- Who enters or leaves the critical section of its own closure touches no other. -/
theorem State.inside_owner_of_ne (p' : P) (hpp : p' ≠ p) :
    ({ s with queue := q, mutex := m, owners := update s.owners p o }.Inside p' (.owner p) ↔
      s.Inside p' (.owner p)) := by
  simp [State.Inside, hpp.symm]

/-- **The owner keeps the invariant**, as long as it takes its mutex back after the runner
has locked it. -/
theorem Inv.own (h : Inv s) (handed : Handed s (.run (.owner p))) (hs : s.own p = some s') :
    Inv s' := by
  simp only [State.own] at hs
  have hearly : ∀ o : Owner, (o.Early → (s.owners p).Early) →
      ∀ p', (update s.owners p o p').Early → p' ∉ s.queue.pushed := by
    intro o ho p' hp'
    by_cases hpp : p' = p
    · subst hpp
      exact h.early p' (ho (by simpa using hp'))
    · exact h.early p' (by simpa [hpp] using hp')
  cases ho : s.owners p with
  | create =>
      simp only [ho, Option.some.injEq] at hs
      subst hs
      have hfree := h.mutex_free ho
      refine h.ownOn (Guards.lock_at h.mutex hfree State.inside_of_ne_owner ?_
        State.inside_owner_of_ne) h.order rfl h.nodup (hearly _ fun _ => by rw [ho]; trivial)
        (by rintro ⟨⟩)
      simp [State.Inside, Owner.Holds]
  | add pc =>
      simp only [ho] at hs
      obtain ⟨⟨q, pc'⟩, hq, rfl⟩ := Option.map_eq_some_iff.mp hs
      obtain ⟨horder, hran, -⟩ := ClosureQueue.add_job_order hq h.order
      have hmutex : ∀ p', Guards (s.mutex p')
          ({ s with queue := q, owners := update s.owners p (pc'.elim .wait .add) }.Inside p') := by
        intro p'
        refine (h.mutex p').keep (State.inside_of_ne_owner p') ?_
        by_cases hpp : p' = p
        · subst hpp
          cases pc' <;> simp [State.Inside, ho, Owner.Holds]
        · exact State.inside_owner_of_ne p' hpp
      rcases ClosureQueue.add_job_queue hq with ⟨rfl, rfl, hpushed, -⟩ | ⟨hpushed, -, hpc⟩
      · have hnot := h.early p (by rw [ho]; trivial)
        refine h.ownOn hmutex horder hran ?_ (fun p' hp' => ?_) (by rintro ⟨⟩)
        · rw [hpushed]
          exact List.Nodup.append h.nodup (List.nodup_singleton p) (by simpa using hnot)
        · have hpp : p' ≠ p := by
            rintro rfl
            simp [Owner.Early] at hp'
          rw [hpushed]
          simp [h.early p' (by simpa [hpp] using hp'), hpp]
      · refine h.ownOn hmutex horder hran (hpushed ▸ h.nodup) (hpushed ▸ hearly _ ?_) ?_
        · rcases hpc with ⟨rfl, rfl⟩ | ⟨rfl, rfl⟩ <;> simp [ho, Owner.Early]
        · rcases hpc with ⟨rfl, rfl⟩ | ⟨rfl, rfl⟩ <;> exact (by rintro ⟨⟩)
  | wait =>
      simp only [ho, Option.some.injEq] at hs
      subst hs
      refine h.ownOn (Guards.unlock_at (t := .owner p) h.mutex State.inside_of_ne_owner ?_ ?_
        State.inside_owner_of_ne) h.order rfl h.nodup (hearly _ (by rintro ⟨⟩)) (by rintro ⟨⟩)
      · simp [State.Inside, ho, Owner.Holds]
      · simp [State.Inside, Owner.Holds]
  | waiting => simp [ho] at hs
  | relock =>
      simp only [ho] at hs
      obtain ⟨m, hm, rfl⟩ := Option.map_eq_some_iff.mp hs
      obtain ⟨hfree, rfl⟩ := lock_eq_some.mp hm
      have hlocked : s.locked p = true := handed ho
      refine h.ownOn (Guards.lock_at h.mutex hfree State.inside_of_ne_owner ?_
        State.inside_owner_of_ne) h.order rfl h.nodup (hearly _ (by rintro ⟨⟩))
          fun _ => ⟨hlocked, fun hholds => ?_, fun he => ?_⟩
      · simp [State.Inside, Owner.Holds]
      · -- the runner has unlocked the mutex, which is free
        have hin : s.Inside p .runner := hholds
        cases hfree.symm.trans ((h.mutex p .runner).mp hin)
      · cases hlocked.symm.trans (h.running p he).2
  | delete =>
      simp only [ho, Option.some.injEq] at hs
      subst hs
      refine h.ownOn (Guards.unlock_at (t := .owner p) h.mutex State.inside_of_ne_owner ?_ ?_
        State.inside_owner_of_ne) h.order rfl h.nodup (hearly _ (by rintro ⟨⟩))
        fun _ => h.returned p (by rw [ho]; trivial)
      · simp [State.Inside, ho, Owner.Holds]
      · simp [State.Inside, Owner.Holds]
  | destroy =>
      simp only [ho, Option.some.injEq] at hs
      subst hs
      refine h.ownOn (fun p' => (h.mutex p').keep (State.inside_of_ne_owner p') ?_)
        h.order rfl h.nodup (hearly _ (by rintro ⟨⟩)) fun _ => h.returned p (by rw [ho]; trivial)
      by_cases hpp : p' = p
      · subst hpp
        simp [State.Inside, ho, Owner.Holds]
      · exact State.inside_owner_of_ne p' hpp
  | gone => simp [ho] at hs

/-- **Every step keeps the invariant.** -/
theorem Inv.step {a : Act P} (h : Inv s) (handed : Handed s a) (hs : s.step a = some s') :
    Inv s' := by
  cases a with
  | run t =>
      cases t with
      | owner p => exact h.own handed hs
      | runner => exact h.do_jobs hs
  | wakeup p =>
      simp only [State.step] at hs
      split at hs
      · rename_i ho
        obtain rfl := Option.some.inj hs
        have hfacts : ∀ p', ((update s.owners p .relock p').Holds ↔ (s.owners p').Holds) ∧
            ((update s.owners p .relock p').Early → (s.owners p').Early) := by
          intro p'
          by_cases hpp : p' = p
          · subst hpp
            simp [ho, Owner.Holds, Owner.Early]
          · simp [hpp]
        refine h.ownOn (fun p' t => ?_) h.order rfl h.nodup
          (fun p' hp' => h.early p' ((hfacts p').2 hp')) (by rintro ⟨⟩)
        cases t with
        | owner p'' => exact (and_congr_right' (hfacts p').1).trans (h.mutex p' (.owner p''))
        | runner => exact h.mutex p' .runner
      · simp at hs

/-- The invariant holds throughout. -/
theorem inv_invariant : Invariant ((system P).restrict Handed) Inv where
  init := by
    rintro s rfl
    exact Inv.fresh
  step _ _ _ h hst := h.step hst.1 hst.2

/-- **The hand-over.** In every run in which a woken owner takes the closure's mutex back
only after the runner has locked it, `wait` returns only after `run_` has completed, and the
runner accesses no closure whose deletion has begun. -/
theorem closure_handover (hr : Reachable ((system P).restrict Handed) s) (p : P) :
    ((s.owners p).Returned → s.completed p = true) ∧ s.late p = false := by
  have h := inv_invariant.holds hr
  exact ⟨fun hret => (h.locked p (h.returned p hret).1).2, h.late p⟩

end Steps

instance (s : State P) (a : Act P) : Decidable (Handed s a) :=
  match a with
  | .run (.owner p) => inferInstanceAs (Decidable (s.owners p = .relock → s.locked p = true))
  | .run .runner | .wakeup _ => inferInstanceAs (Decidable True)

/-- An owner that is woken up by the broadcast and deletes its closure. -/
theorem closure_handover_once : ∃ s : State Unit, s.owners () = .gone ∧
    s.completed () = true ∧ s.late () = false := by
  obtain ⟨s, hs, hend⟩ := Option.map_eq_some_iff.mp
    (show (execUnder State.step Handed (State.fresh : State Unit)
      (List.replicate 5 (.run (.owner ())) ++ List.replicate 9 (.run .runner) ++
        List.replicate 3 (.run (.owner ())))).map (fun s => s.owners ()) = some .gone by rfl)
  have hr : Reachable ((system Unit).restrict Handed) s := Reachable.execUnder (.init rfl) hs
  obtain ⟨hcompleted, hlate⟩ := closure_handover hr ()
  exact ⟨s, hend, hcompleted (by rw [hend]; trivial), hlate⟩

/-- **A spurious return.** The owner wakes up without a reason before the closure is taken
from the queue: `wait` returns although the body was not run, the owner deletes the closure,
and the runner then runs it. -/
theorem spurious_return :
    (∃ s : State Unit, Reachable (system Unit) s ∧ (s.owners ()).Returned ∧
      s.completed () = false) ∧
    ∃ s : State Unit, Reachable (system Unit) s ∧ s.owners () = .gone ∧ s.late () = true := by
  have hrun : Reachable (system Unit) State.fresh := .init rfl
  constructor
  · obtain ⟨s, hs, hend⟩ := Option.map_eq_some_iff.mp
      (show (exec State.step (State.fresh : State Unit)
        (List.replicate 5 (.run (.owner ())) ++ [.wakeup (), .run (.owner ())])).map
        (fun s => (s.owners (), s.completed ())) = some (.delete, false) by rfl)
    obtain ⟨ho, hc⟩ := Prod.mk.inj hend
    exact ⟨s, hrun.exec hs, by rw [ho]; trivial, hc⟩
  · obtain ⟨s, hs, hend⟩ := Option.map_eq_some_iff.mp
      (show (exec State.step (State.fresh : State Unit)
        (List.replicate 5 (.run (.owner ())) ++ [.wakeup ()] ++
          List.replicate 3 (.run (.owner ())) ++ List.replicate 6 (.run .runner))).map
        (fun s => (s.owners (), s.late ())) = some (.gone, true) by rfl)
    obtain ⟨ho, hl⟩ := Prod.mk.inj hend
    exact ⟨s, hrun.exec hs, ho, hl⟩

end SyncClosure

end FreeJ
