import Mathlib.Data.Fintype.Basic
import Mathlib.Data.List.Nodup
import Mathlib.Logic.Function.Basic
import FreeJ.ClosureQueue
import FreeJ.Transition

/-!
# The Threaded Closure Queue

`ThreadedClosureQueue` of `closure.cpp`: a worker thread runs the jobs that producers add.
The worker keeps `cond_mutex_` while it looks at the queue and runs jobs, and lets go of it
only inside `pthread_cond_wait`; a producer pushes its job under the mutex of the queue and
then signals under `cond_mutex_`. A wait may return spuriously (`wakeup`). The destructor
clears `running_`, signals, joins the worker and flushes what is left of the queue.

The jobs are not synchronized and do not use this queue. What the queue's users promise is
`Discipline`: a closure is handed to `add_job` once, and the destructor starts after all
calls of `add_job` have returned.

## Main results

* `Inv`: the invariant over all positions of worker, producers and destructor.
* `queue_delivers`: the jobs are run once each in the order in which they were pushed, all
  of them before the destructor finishes, and no wake-up is lost.
-/

namespace FreeJ

open Function (update)
open Mutex Transition

namespace ThreadedClosureQueue

/-- The threads: the one that runs `jobs_loop_`, the callers of `add_job`, and the one that
destroys the queue. -/
inductive Thread (P : Type*)
  | worker
  | producer (p : P)
  | destructor
  deriving DecidableEq

/-- Positions in `jobs_loop_`; `waiting` is inside `pthread_cond_wait`, and `relock` is where
a woken thread takes the mutex back. -/
inductive Worker (J : Type*)
  | start
  | test
  | jobs (pc : DoJobs J)
  | wait
  | waiting
  | relock
  | unlock
  | done
  deriving DecidableEq

/-- Positions of a caller of `add_job`. -/
inductive Producer (J : Type*)
  | idle
  | add (job : J) (pc : AddJob)
  | signal (pc : Signal)
  deriving DecidableEq

/-- Positions in `~ThreadedClosureQueue` and, from `flush` on, `~ClosureQueue`. -/
inductive Destructor (J : Type*)
  | notYet
  | stop
  | signal (pc : Signal)
  | join
  | flush (pc : DoJobs J)
  | finished
  deriving DecidableEq

/-- The queue with its threads; `issued` records the closures handed to `add_job`. -/
structure State (P J : Type*) where
  queue : ClosureQueue (Thread P) J
  running_ : Bool
  /-- who holds `cond_mutex_` -/
  cond_mutex_ : Option (Thread P)
  worker : Worker J
  producers : P → Producer J
  destructor : Destructor J
  issued : List J

variable {P J : Type*}

/-- The queue just constructed, its thread created. -/
def State.fresh : State P J where
  queue := ClosureQueue.empty
  running_ := true
  cond_mutex_ := none
  worker := .start
  producers _ := .idle
  destructor := .notYet
  issued := []

/-- What a broadcast on `cond_` does to the worker. -/
def Worker.wake : Worker J → Worker J
  | .waiting => .relock
  | pc => pc

/-- `signal_`, step by step, as thread `t`. -/
def State.signal_ (s : State P J) (t : Thread P) : Signal → Option (State P J × Option Signal)
  | .lock => (lock s.cond_mutex_ t).map fun m => ({ s with cond_mutex_ := m }, some .broadcast)
  | .broadcast => some ({ s with worker := s.worker.wake }, some .unlock)
  | .unlock => some ({ s with cond_mutex_ := none }, none)

/-- `jobs_loop_`, step by step. -/
def State.jobs_loop_ (s : State P J) : Option (State P J) :=
  match s.worker with
  | .start => (lock s.cond_mutex_ .worker).map fun m => { s with cond_mutex_ := m, worker := .test }
  | .test => some { s with worker := if s.running_ then .jobs .lock else .unlock }
  | .jobs pc => (s.queue.do_jobs .worker pc).map fun r =>
      { s with queue := r.1, worker := r.2.elim .wait .jobs }
  | .wait => some { s with cond_mutex_ := none, worker := .waiting }
  | .waiting => none
  | .relock =>
    (lock s.cond_mutex_ .worker).map fun m => { s with cond_mutex_ := m, worker := .test }
  | .unlock => some { s with cond_mutex_ := none, worker := .done }
  | .done => none

/-- `~ThreadedClosureQueue`, then `~ClosureQueue`, step by step. -/
def State.destroy (s : State P J) : Option (State P J) :=
  match s.destructor with
  | .notYet => some { s with destructor := .stop }
  | .stop => some { s with running_ := false, destructor := .signal .lock }
  | .signal pc => (s.signal_ .destructor pc).map fun r =>
      { r.1 with destructor := r.2.elim .join .signal }
  | .join => if s.worker matches .done then some { s with destructor := .flush .lock } else none
  | .flush pc => (s.queue.do_jobs .destructor pc).map fun r =>
      { s with queue := r.1, destructor := r.2.elim .finished .flush }
  | .finished => none

section Step

variable [DecidableEq P]

/-- `add_job`, step by step, as producer `p`. -/
def State.add_job (s : State P J) (p : P) : Option (State P J) :=
  match s.producers p with
  | .idle => none
  | .add job pc => (s.queue.add_job (.producer p) job pc).map fun r =>
      { s with
        queue := r.1
        producers := update s.producers p (r.2.elim (.signal .lock) (.add job)) }
  | .signal pc => (s.signal_ (.producer p) pc).map fun r =>
      { r.1 with producers := update s.producers p (r.2.elim .idle .signal) }

/-- What may happen next: a step of the worker, its waking up without a reason, a producer
that calls `add_job` or goes on with it, and a step of the destructor, the first of which is
that it starts. -/
inductive Act (P J : Type*)
  | worker
  | wakeup
  | call (p : P) (job : J)
  | producer (p : P)
  | destructor

/-- One step of one thread; `none` when it is blocked or has nothing to do. -/
def State.step (s : State P J) : Act P J → Option (State P J)
  | .worker => s.jobs_loop_
  | .wakeup => if s.worker matches .waiting then some { s with worker := .relock } else none
  | .call p job =>
    if s.producers p matches .idle then
      some { s with
        producers := update s.producers p (.add job .lock)
        issued := job :: s.issued }
    else none
  | .producer p => s.add_job p
  | .destructor => s.destroy

/-- The queue and its threads, in any interleaving. -/
def system (P J : Type*) [DecidableEq P] : System (State P J) (Act P J) :=
  System.ofFun (fun s => s = State.fresh) State.step

end Step

/-- What the users of the queue promise: no closure is handed to `add_job` twice, none after
the destructor has started, and it starts when no call is under way. -/
def Discipline (s : State P J) : Act P J → Prop
  | .call _ job => job ∉ s.issued ∧ s.destructor = .notYet
  | .destructor => s.destructor = .notYet → ∀ p, s.producers p = .idle
  | _ => True

/-! ### The invariant -/

/-- The worker holds `cond_mutex_`: always, except before it starts, while it waits and
after it is done. -/
def Worker.Holds : Worker J → Prop
  | .test | .jobs _ | .wait | .unlock => True
  | _ => False

/-- A thread is inside a critical section of `cond_mutex_`. -/
def State.Inside (s : State P J) : Thread P → Prop
  | .worker => s.worker.Holds
  | .producer p => ∃ pc, s.producers p = .signal pc ∧ pc.Holds
  | .destructor => ∃ pc, s.destructor = .signal pc ∧ pc.Holds

/-- The job the worker has taken and not run, and the one it has run and not deleted. -/
def Worker.pending : Worker J → List J
  | .jobs pc => pc.pending
  | _ => []

def Worker.spent : Worker J → List J
  | .jobs pc => pc.spent
  | _ => []

def Destructor.pending : Destructor J → List J
  | .flush pc => pc.pending
  | _ => []

def Destructor.spent : Destructor J → List J
  | .flush pc => pc.spent
  | _ => []

/-- The worker found the queue empty and goes to wait or waits. -/
def Worker.Settled : Worker J → Prop
  | .jobs (.unlock none) | .wait | .waiting => True
  | _ => False

/-- A producer has pushed its job and not yet broadcast. -/
def Producer.Owes : Producer J → Prop
  | .add _ .unlock | .signal .lock | .signal .broadcast => True
  | _ => False

/-- The destructor has joined the worker. -/
def Destructor.Joined : Destructor J → Prop
  | .flush _ | .finished => True
  | _ => False

/-- The destructor has flushed the queue. -/
def Destructor.Flushed : Destructor J → Prop
  | .flush (.unlock none) | .finished => True
  | _ => False

/-- The job a producer is about to push. -/
def Producer.offered : Producer J → Option J
  | .add job .lock | .add job .push => some job
  | _ => none

/-- The jobs that producers are about to push are theirs alone and not pushed yet. -/
def Offers (producers : P → Producer J) (issued pushed : List J) : Prop :=
  ∀ p job, (producers p).offered = some job →
    job ∈ issued ∧ job ∉ pushed ∧ ∀ p', (producers p').offered = some job → p' = p

/-- The invariant over all positions of worker, producers and destructor. -/
structure Inv (s : State P J) : Prop where
  /-- whoever is inside holds `cond_mutex_` -/
  cond : Guards s.cond_mutex_ s.Inside
  /-- every pushed job is run, taken or waiting -/
  account : s.queue.Account (s.worker.pending ++ s.destructor.pending)
    (s.worker.spent ++ s.destructor.spent)
  /-- the pushed jobs and the offered ones are different closures -/
  nodup : s.queue.pushed.Nodup
  issued : ∀ job ∈ s.queue.pushed, job ∈ s.issued
  offered : Offers s.producers s.issued s.queue.pushed
  /-- nobody waits while a job is in the queue, unless a producer is about to broadcast -/
  awake : s.worker.Settled → s.queue.job_queue_ ≠ [] → ∃ p, (s.producers p).Owes
  /-- a producer is inside `add_job` only before the destructor starts -/
  quiet : s.destructor ≠ .notYet → ∀ p, s.producers p = .idle
  joined : s.destructor.Joined → s.worker = .done
  flushed : s.destructor.Flushed → s.queue.job_queue_ = []

theorem Inv.fresh : Inv (State.fresh : State P J) where
  cond t := by
    cases t <;> simp [State.Inside, State.fresh, Worker.Holds]
  account := ⟨rfl, rfl⟩
  nodup := List.nodup_nil
  issued _ h := by simp [State.fresh, ClosureQueue.empty] at h
  offered _ _ h := by simp [State.fresh, Producer.offered] at h
  awake h := by simp [State.fresh, Worker.Settled] at h
  quiet h := by simp [State.fresh] at h
  joined h := by simp [State.fresh, Destructor.Joined] at h
  flushed h := by simp [State.fresh, Destructor.Flushed] at h

/-! ### The steps keep the invariant -/

variable {s s' : State P J} {p : P} {job : J}

/-- A step of the worker moves nobody else into a critical section or out of it. -/
theorem State.inside_of_ne_worker {q : ClosureQueue (Thread P) J} {m : Option (Thread P)}
    {w : Worker J} : ∀ t ≠ .worker,
      ({ s with queue := q, cond_mutex_ := m, worker := w }.Inside t ↔ s.Inside t) := by
  intro t hne
  cases t with
  | worker => exact absurd rfl hne
  | producer p => exact Iff.rfl
  | destructor => exact Iff.rfl

/-- The worker goes on without touching the queue: to a position with the same jobs in
hand, and not to its wait. -/
theorem Inv.goOn {m : Option (Thread P)} {w : Worker J} (h : Inv s) (hdone : s.worker ≠ .done)
    (hcond : Guards m { s with cond_mutex_ := m, worker := w }.Inside)
    (hpending : w.pending = s.worker.pending) (hspent : w.spent = s.worker.spent)
    (hsettled : w.Settled → s.worker.Settled) :
    Inv { s with cond_mutex_ := m, worker := w } :=
  { h with
    cond := hcond
    account := by simpa only [hpending, hspent] using h.account
    awake := fun hw => h.awake (hsettled hw)
    joined := fun hj => absurd (h.joined hj) hdone }

/-- Before it has joined the worker the destructor has no job in hand. -/
theorem Destructor.pending_of_not_joined {d : Destructor J} (h : ¬ d.Joined) :
    d.pending = [] ∧ d.spent = [] ∧ ¬ d.Flushed := by
  cases d <;> simp_all [Destructor.Joined, Destructor.pending, Destructor.spent,
    Destructor.Flushed]

/-- The worker keeps the invariant. -/
theorem Inv.jobs_loop_ (h : Inv s) (hs : s.jobs_loop_ = some s') : Inv s' := by
  simp only [State.jobs_loop_] at hs
  cases hw : s.worker with
  | start =>
      simp only [hw] at hs
      obtain ⟨m, hm, rfl⟩ := Option.map_eq_some_iff.mp hs
      obtain ⟨hfree, rfl⟩ := lock_eq_some.mp hm
      exact h.goOn (by simp [hw]) ((hfree ▸ h.cond).lock State.inside_of_ne_worker trivial)
        (by rw [hw]; rfl) (by rw [hw]; rfl) (by rintro ⟨⟩)
  | test =>
      simp only [hw, Option.some.injEq] at hs
      subst hs
      refine h.goOn (by simp [hw]) (h.cond.keep State.inside_of_ne_worker ?_) ?_ ?_ ?_
      · cases s.running_ <;> simp [State.Inside, hw, Worker.Holds]
      all_goals cases s.running_
      any_goals first | rw [hw]; rfl | exact (by rintro ⟨⟩)
  | jobs pc =>
      simp only [hw] at hs
      obtain ⟨⟨q, pc'⟩, hq, rfl⟩ := Option.map_eq_some_iff.mp hs
      have hnj : ¬ s.destructor.Joined := fun hj => by simpa [hw] using h.joined hj
      obtain ⟨hpending, hspent, hnf⟩ := Destructor.pending_of_not_joined hnj
      have ha := h.account
      rw [hpending, hspent, hw, List.append_nil, List.append_nil] at ha
      have ha' := ClosureQueue.do_jobs_account hq ha
      obtain ⟨hpushed, hempty, hreturn⟩ := ClosureQueue.do_jobs_queue hq
      exact {
        cond := h.cond.keep State.inside_of_ne_worker <| by
          cases pc' <;> simp [State.Inside, hw, Worker.Holds]
        account := by
          simp only [hpending, hspent, List.append_nil]
          cases pc' <;> exact ha'
        nodup := hpushed ▸ h.nodup
        issued := by simpa only [hpushed] using h.issued
        offered := by simpa only [hpushed] using h.offered
        awake := by
          intro hset hne
          rcases pc' with _ | pc'
          · -- `do_jobs` returned: the worker was settled before
            obtain ⟨rfl, heq⟩ := hreturn rfl
            exact h.awake (by rw [hw]; trivial) (heq ▸ hne)
          · rcases pc' with _ | _ | ⟨_ | job⟩ | _ | _ <;> first | exact hset.elim | skip
            exact absurd (hempty rfl) hne
        quiet := h.quiet
        joined := fun hj => absurd hj hnj
        flushed := fun hf => absurd hf hnf }
  | wait =>
      simp only [hw, Option.some.injEq] at hs
      subst hs
      exact h.goOn (by simp [hw]) (h.cond.unlock (t := .worker) State.inside_of_ne_worker
        (by simp [State.Inside, hw, Worker.Holds]) (by rintro ⟨⟩)) (by rw [hw]; rfl)
        (by rw [hw]; rfl)
        fun _ => by simp [hw, Worker.Settled]
  | waiting => simp [hw] at hs
  | relock =>
      simp only [hw] at hs
      obtain ⟨m, hm, rfl⟩ := Option.map_eq_some_iff.mp hs
      obtain ⟨hfree, rfl⟩ := lock_eq_some.mp hm
      exact h.goOn (by simp [hw]) ((hfree ▸ h.cond).lock State.inside_of_ne_worker trivial)
        (by rw [hw]; rfl) (by rw [hw]; rfl) (by rintro ⟨⟩)
  | unlock =>
      simp only [hw, Option.some.injEq] at hs
      subst hs
      exact h.goOn (by simp [hw]) (h.cond.unlock (t := .worker) State.inside_of_ne_worker
        (by simp [State.Inside, hw, Worker.Holds]) (by rintro ⟨⟩))
        (by rw [hw]; rfl) (by rw [hw]; rfl) (by rintro ⟨⟩)
  | done => simp [hw] at hs

/-- A broadcast leaves the worker where it is or wakes it up: it takes no mutex and has the
same jobs in hand. -/
theorem Worker.wake_facts (w : Worker J) : (w.wake.Holds ↔ w.Holds) ∧
    (w.wake.Settled → w.Holds) ∧ w.wake.pending = w.pending ∧ w.wake.spent = w.spent := by
  rcases w with _ | _ | ⟨_ | _ | ⟨_ | job⟩ | _ | _⟩ | _ | _ | _ | _ | _ <;>
    simp [Worker.wake, Worker.Holds, Worker.Settled, Worker.pending, Worker.spent]

/-- The worker wakes up for no reason. -/
theorem Inv.wakeup (h : Inv s) (hw : s.worker = .waiting) :
    Inv { s with worker := .relock } :=
  h.goOn (by simp [hw]) (h.cond.keep State.inside_of_ne_worker
    (by simp [State.Inside, hw, Worker.Holds])) (by rw [hw]; rfl) (by rw [hw]; rfl) (by rintro ⟨⟩)

/-- A step of the destructor moves nobody else into a critical section or out of it. -/
theorem State.inside_of_ne_destructor {q : ClosureQueue (Thread P) J} {m : Option (Thread P)}
    {w : Worker J} {r : Bool} {d : Destructor J} (hw : w.Holds ↔ s.worker.Holds) :
    ∀ t ≠ .destructor,
      ({ s with
        queue := q
        running_ := r
        cond_mutex_ := m
        worker := w
        destructor := d }.Inside t ↔ s.Inside t) := by
  intro t hne
  cases t with
  | worker => exact hw
  | producer p => exact Iff.rfl
  | destructor => exact absurd rfl hne

/-- The destructor goes on before it joins the worker. -/
theorem Inv.goDestroy {m : Option (Thread P)} {w : Worker J} {r : Bool} {d : Destructor J}
    (h : Inv s) (hidle : ∀ p, s.producers p = .idle) (hs : ¬ s.destructor.Joined)
    (hcond : Guards m { s with
      running_ := r
      cond_mutex_ := m
      worker := w
      destructor := d }.Inside)
    (hpending : w.pending = s.worker.pending) (hspent : w.spent = s.worker.spent)
    (hawake : w.Settled → s.worker.Settled) (hd : ¬ d.Joined) :
    Inv { s with running_ := r, cond_mutex_ := m, worker := w, destructor := d } := by
  obtain ⟨hp, hsp, -⟩ := Destructor.pending_of_not_joined hs
  obtain ⟨hp', hsp', hnf⟩ := Destructor.pending_of_not_joined hd
  exact { h with
    cond := hcond
    account := by simpa only [hpending, hspent, hp, hsp, hp', hsp'] using h.account
    awake := fun hset => h.awake (hawake hset)
    quiet := fun _ => hidle
    joined := fun hj => absurd hj hd
    flushed := fun hf => absurd hf hnf }

/-- The destructor keeps the invariant. -/
theorem Inv.destroy (h : Inv s) (hidle : ∀ p, s.producers p = .idle)
    (hs : s.destroy = some s') : Inv s' := by
  simp only [State.destroy] at hs
  cases hd : s.destructor with
  | notYet =>
      simp only [hd, Option.some.injEq] at hs
      subst hs
      exact h.goDestroy hidle (by simp [hd, Destructor.Joined])
        (h.cond.keep (State.inside_of_ne_destructor Iff.rfl) (by simp [State.Inside, hd]))
        rfl rfl id (by simp [Destructor.Joined])
  | stop =>
      simp only [hd, Option.some.injEq] at hs
      subst hs
      exact h.goDestroy hidle (by simp [hd, Destructor.Joined])
        (h.cond.keep (State.inside_of_ne_destructor Iff.rfl)
          (by simp [State.Inside, Signal.Holds, hd]))
        rfl rfl id (by simp [Destructor.Joined])
  | signal pc =>
      have hj : ¬ s.destructor.Joined := by simp [hd, Destructor.Joined]
      simp only [hd] at hs
      obtain ⟨⟨s₁, pc'⟩, hq, rfl⟩ := Option.map_eq_some_iff.mp hs
      cases pc with
      | lock =>
          obtain ⟨m, hm, heq⟩ := Option.map_eq_some_iff.mp hq
          obtain ⟨rfl, rfl⟩ := Prod.mk.inj heq
          obtain ⟨hfree, rfl⟩ := lock_eq_some.mp hm
          exact h.goDestroy hidle hj ((hfree ▸ h.cond).lock
            (State.inside_of_ne_destructor Iff.rfl) ⟨.broadcast, rfl, trivial⟩)
            rfl rfl id (by simp [Destructor.Joined])
      | broadcast =>
          obtain ⟨rfl, rfl⟩ := Prod.mk.inj (Option.some.inj hq)
          obtain ⟨hholds, hsettled, hpending, hspent⟩ := s.worker.wake_facts
          have hin : s.Inside .destructor := ⟨.broadcast, hd, trivial⟩
          refine h.goDestroy hidle hj
            (h.cond.keep (State.inside_of_ne_destructor hholds)
              (iff_of_true ⟨.unlock, rfl, trivial⟩ hin)) hpending hspent
            (fun hset => ?_) (by simp [Destructor.Joined])
          have hworker : s.Inside .worker := hsettled hset
          cases h.cond.unique hworker hin
      | unlock =>
          obtain ⟨rfl, rfl⟩ := Prod.mk.inj (Option.some.inj hq)
          have hin : s.Inside .destructor := ⟨.unlock, hd, trivial⟩
          exact h.goDestroy hidle hj (h.cond.unlock (State.inside_of_ne_destructor Iff.rfl) hin
            (by simp [State.Inside])) rfl rfl id (by simp [Destructor.Joined])
  | join =>
      simp only [hd] at hs
      split at hs
      · rename_i hw
        obtain rfl := Option.some.inj hs
        have ha := h.account
        rw [hd] at ha
        exact { h with
          cond := h.cond.keep (State.inside_of_ne_destructor Iff.rfl) (by simp [State.Inside, hd])
          account := ha
          quiet := fun _ => hidle
          joined := fun _ => by simpa using hw
          flushed := (by rintro ⟨⟩) }
      · simp at hs
  | flush pc =>
      simp only [hd] at hs
      obtain ⟨⟨q, pc'⟩, hq, rfl⟩ := Option.map_eq_some_iff.mp hs
      have hw : s.worker = .done := h.joined (by rw [hd]; trivial)
      have ha := h.account
      rw [hw, hd] at ha
      have ha' := ClosureQueue.do_jobs_account hq ha
      obtain ⟨hpushed, hempty, hreturn⟩ := ClosureQueue.do_jobs_queue hq
      exact {
        cond := h.cond.keep (State.inside_of_ne_destructor Iff.rfl) <| by
          cases pc' <;> simp [State.Inside, hd]
        account := by
          rw [hw]
          cases pc' <;> exact ha'
        nodup := hpushed ▸ h.nodup
        issued := by simpa only [hpushed] using h.issued
        offered := by simpa only [hpushed] using h.offered
        awake := fun hset => by simp [hw, Worker.Settled] at hset
        quiet := fun _ => hidle
        joined := fun _ => hw
        flushed := by
          intro hf
          rcases pc' with _ | pc'
          · obtain ⟨rfl, heq⟩ := hreturn rfl
            exact heq.trans (h.flushed (by rw [hd]; trivial))
          · rcases pc' with _ | _ | ⟨_ | job⟩ | _ | _ <;> first | exact hf.elim | skip
            exact hempty rfl }
  | finished => simp [hd] at hs

section Producers

variable [DecidableEq P]

/-- A step of a producer moves nobody else into a critical section or out of it. -/
theorem State.inside_of_ne_producer {q : ClosureQueue (Thread P) J} {m : Option (Thread P)}
    {w : Worker J} {pc : Producer J} {i : List J} (hw : w.Holds ↔ s.worker.Holds) :
    ∀ t ≠ .producer p,
      ({ s with
        queue := q
        cond_mutex_ := m
        worker := w
        producers := update s.producers p pc
        issued := i }.Inside t ↔ s.Inside t) := by
  intro t hne
  cases t with
  | worker => exact hw
  | producer p' =>
      have hpp : p' ≠ p := fun hpp => hne (hpp ▸ rfl)
      simp only [State.Inside, Function.update_of_ne hpp]
  | destructor => exact Iff.rfl

section Offers

variable {producers : P → Producer J} {issued pushed : List J} {pc : Producer J}

/-- A producer goes on with the job it has to offer, or without. -/
theorem Offers.move (h : Offers producers issued pushed)
    (hpc : ∀ job, pc.offered = some job → (producers p).offered = some job) :
    Offers (update producers p pc) issued pushed := by
  have hback : ∀ p' job, (update producers p pc p').offered = some job →
      (producers p').offered = some job := by
    intro p' job hp'
    by_cases hpp : p' = p
    · subst hpp
      exact hpc job (by simpa using hp')
    · simpa [hpp] using hp'
  intro p' job hp'
  obtain ⟨hissued, hpushed, hunique⟩ := h p' job (hback p' job hp')
  exact ⟨hissued, hpushed, fun p'' hp'' => hunique p'' (hback p'' job hp'')⟩

/-- A producer pushes the job it had to offer. -/
theorem Offers.push (h : Offers producers issued pushed) (hpc : pc.offered = none)
    (hp : (producers p).offered = some job) :
    Offers (update producers p pc) issued (pushed ++ [job]) := by
  intro p' job' hp'
  have hpp : p' ≠ p := by
    rintro rfl
    simp [hpc] at hp'
  have hmove : Offers (update producers p pc) issued pushed :=
    h.move fun j hj => by simp [hpc] at hj
  have hm := hmove p' job' hp'
  rw [Function.update_of_ne hpp] at hp'
  refine ⟨hm.1, fun hmem => ?_, hm.2.2⟩
  rcases List.mem_append.mp hmem with hmem | hmem
  · exact hm.2.1 hmem
  · obtain rfl := List.mem_singleton.mp hmem
    exact hpp ((h p job' hp).2.2 p' hp')

/-- A producer is given a job that nobody was given before. -/
theorem Offers.call (h : Offers producers issued pushed) (hpc : pc.offered = some job)
    (hjob : job ∉ issued) (hpushed : ∀ j ∈ pushed, j ∈ issued) :
    Offers (update producers p pc) (job :: issued) pushed := by
  have hold : ∀ p' job', (update producers p pc p').offered = some job' →
      p' = p ∧ job' = job ∨ p' ≠ p ∧ (producers p').offered = some job' := by
    intro p' job' hp'
    by_cases hpp : p' = p
    · subst hpp
      rw [Function.update_self, hpc] at hp'
      exact Or.inl ⟨rfl, (Option.some.inj hp').symm⟩
    · exact Or.inr ⟨hpp, by simpa [hpp] using hp'⟩
  intro p' job' hp'
  rcases hold p' job' hp' with ⟨rfl, rfl⟩ | ⟨hpp, hp'⟩
  · refine ⟨List.mem_cons_self, fun hmem => hjob (hpushed _ hmem), fun p'' hp'' => ?_⟩
    rcases hold p'' _ hp'' with ⟨rfl, -⟩ | ⟨-, hp''⟩
    · rfl
    · exact absurd (h p'' _ hp'').1 hjob
  · obtain ⟨hissued, hnp, hunique⟩ := h p' job' hp'
    refine ⟨List.mem_cons_of_mem _ hissued, hnp, fun p'' hp'' => ?_⟩
    rcases hold p'' _ hp'' with ⟨-, rfl⟩ | ⟨-, hp''⟩
    · exact absurd hissued hjob
    · exact hunique p'' hp''

end Offers

/-- A producer goes on with its call of `signal_`. -/
theorem Inv.goSignal {m : Option (Thread P)} {w : Worker J} {pc : Producer J} (h : Inv s)
    (hd : s.destructor = .notYet)
    (hcond : Guards m { s with
      cond_mutex_ := m
      worker := w
      producers := update s.producers p pc }.Inside)
    (hpending : w.pending = s.worker.pending) (hspent : w.spent = s.worker.spent)
    (hpc : pc.offered = none)
    (hawake : w.Settled → s.worker.Settled ∧ ((s.producers p).Owes → pc.Owes)) :
    Inv { s with cond_mutex_ := m, worker := w, producers := update s.producers p pc } :=
  { h with
    cond := hcond
    account := by simpa only [hpending, hspent] using h.account
    offered := h.offered.move fun job hjob => by simp [hpc] at hjob
    awake := by
      intro hset hne
      obtain ⟨hset', howes⟩ := hawake hset
      obtain ⟨p', hp'⟩ := h.awake hset' hne
      by_cases hpp : p' = p
      · exact ⟨p, by simpa using howes (hpp ▸ hp')⟩
      · exact ⟨p', by simpa [hpp] using hp'⟩
    quiet := fun hq => absurd hd hq
    joined := fun hj => by simp [hd, Destructor.Joined] at hj }

/-- A producer goes on with `signal_`, or has returned from it. -/
theorem Inv.signal_ {s₁ : State P J} {pc : Signal} {pc' : Option Signal} (h : Inv s)
    (hd : s.destructor = .notYet) (hp : s.producers p = .signal pc)
    (hq : s.signal_ (.producer p) pc = some (s₁, pc')) :
    Inv { s₁ with producers := update s.producers p (pc'.elim .idle .signal) } := by
  cases pc with
  | lock =>
      obtain ⟨m, hm, heq⟩ := Option.map_eq_some_iff.mp hq
      obtain ⟨rfl, rfl⟩ := Prod.mk.inj heq
      obtain ⟨hfree, rfl⟩ := lock_eq_some.mp hm
      exact h.goSignal hd ((hfree ▸ h.cond).lock (State.inside_of_ne_producer Iff.rfl)
        ⟨.broadcast, by simp, trivial⟩) rfl rfl rfl fun hset => ⟨hset, fun _ => trivial⟩
  | broadcast =>
      obtain ⟨rfl, rfl⟩ := Prod.mk.inj (Option.some.inj hq)
      obtain ⟨hholds, hsettled, hpending, hspent⟩ := s.worker.wake_facts
      have hin : s.Inside (.producer p) := ⟨.broadcast, hp, trivial⟩
      refine h.goSignal hd (h.cond.keep (State.inside_of_ne_producer hholds)
        (iff_of_true ⟨.unlock, by simp, trivial⟩ hin)) hpending hspent rfl fun hset => ?_
      -- the worker is not on its way to wait: it would hold the mutex as well
      have hworker : s.Inside .worker := hsettled hset
      cases h.cond.unique hworker hin
  | unlock =>
      obtain ⟨rfl, rfl⟩ := Prod.mk.inj (Option.some.inj hq)
      have hin : s.Inside (.producer p) := ⟨.unlock, hp, trivial⟩
      refine h.goSignal hd (h.cond.unlock (State.inside_of_ne_producer Iff.rfl) hin ?_)
        rfl rfl rfl
        fun hset => ⟨hset, fun howes => by simp [hp, Producer.Owes] at howes⟩
      simp [State.Inside]

/-- A producer keeps the invariant. -/
theorem Inv.add_job (h : Inv s) (hs : s.add_job p = some s') : Inv s' := by
  simp only [State.add_job] at hs
  have hquiet : s.producers p ≠ .idle → s.destructor = .notYet := by
    intro hne
    by_contra hd
    exact hne (h.quiet hd p)
  cases hp : s.producers p with
  | idle => simp [hp] at hs
  | add job pc =>
      have hd : s.destructor = .notYet := hquiet (by simp [hp])
      simp only [hp] at hs
      obtain ⟨⟨q, pc'⟩, hq, rfl⟩ := Option.map_eq_some_iff.mp hs
      have ha := ClosureQueue.add_job_account hq h.account
      have hcond : Guards s.cond_mutex_ { s with
          queue := q
          producers := update s.producers p (pc'.elim (.signal .lock) (.add job)) }.Inside :=
        h.cond.keep (State.inside_of_ne_producer Iff.rfl) <| by
          cases pc' <;> simp [State.Inside, Signal.Holds, hp]
      have hj : ¬ s.destructor.Joined := by simp [hd, Destructor.Joined]
      have hf : ¬ s.destructor.Flushed := by simp [hd, Destructor.Flushed]
      rcases ClosureQueue.add_job_queue hq with
        ⟨rfl, rfl, hpushed, hqueue⟩ | ⟨hpushed, hqueue, hpc⟩
      · -- the job is pushed, and this producer has a broadcast to do
        obtain ⟨hissued, hnp, -⟩ := h.offered p job (by rw [hp]; rfl)
        exact { h with
          cond := hcond
          account := ha
          nodup := by
            rw [hpushed]
            exact List.Nodup.append h.nodup (List.nodup_singleton job) (by simpa using hnp)
          issued := by
            intro j hj
            simp only [hpushed, List.mem_append, List.mem_singleton] at hj
            rcases hj with hj | rfl
            · exact h.issued j hj
            · exact hissued
          offered := by
            rw [hpushed]
            exact h.offered.push rfl (by rw [hp]; rfl)
          awake := fun _ _ => ⟨p, by simp [Producer.Owes]⟩
          quiet := fun hq => absurd hd hq
          joined := fun h' => absurd h' hj
          flushed := fun h' => absurd h' hf }
      · exact { h with
          cond := hcond
          account := ha
          nodup := by simpa only [hpushed] using h.nodup
          issued := by simpa only [hpushed] using h.issued
          offered := by
            rw [hpushed]
            refine h.offered.move fun j hj => ?_
            rcases hpc with ⟨rfl, rfl⟩ | ⟨rfl, rfl⟩
            · simp [Producer.offered] at hj
            · rw [hp]
              exact hj
          awake := by
            intro hset hne
            rw [hqueue] at hne
            obtain ⟨p', hp'⟩ := h.awake hset hne
            by_cases hpp : p' = p
            · subst hpp
              rw [hp] at hp'
              rcases hpc with ⟨rfl, rfl⟩ | ⟨rfl, rfl⟩
              · exact ⟨p', by simp [Producer.Owes]⟩
              · exact hp'.elim
            · exact ⟨p', by simpa [hpp] using hp'⟩
          quiet := fun hq => absurd hd hq
          joined := fun h' => absurd h' hj
          flushed := fun h' => absurd h' hf }
  | signal pc =>
      have hd : s.destructor = .notYet := hquiet (by simp [hp])
      simp only [hp] at hs
      obtain ⟨⟨s₁, pc'⟩, hq, rfl⟩ := Option.map_eq_some_iff.mp hs
      exact h.signal_ hd hp hq

/-- **Every step keeps the invariant**, as long as the users of the queue keep their
promise. -/
theorem Inv.step {a : Act P J} (h : Inv s) (ha : Discipline s a) (hs : s.step a = some s') :
    Inv s' := by
  cases a with
  | worker => exact h.jobs_loop_ hs
  | wakeup =>
      simp only [State.step] at hs
      split at hs
      · rename_i hw
        obtain rfl := Option.some.inj hs
        exact h.wakeup (by simpa using hw)
      · simp at hs
  | call p job =>
      obtain ⟨hjob, hd⟩ := ha
      simp only [State.step] at hs
      split at hs
      · rename_i hp
        obtain rfl := Option.some.inj hs
        have hidle : s.producers p = .idle := by simpa using hp
        exact { h with
          cond := h.cond.keep (t := .producer p) (State.inside_of_ne_producer Iff.rfl)
            (by simp [State.Inside, hidle])
          issued := fun j hj => List.mem_cons_of_mem _ (h.issued j hj)
          offered := h.offered.call rfl hjob h.issued
          awake := by
            intro hset hne
            obtain ⟨p', hp'⟩ := h.awake hset hne
            have hpp : p' ≠ p := by
              rintro rfl
              simp [hidle, Producer.Owes] at hp'
            exact ⟨p', by simpa [hpp] using hp'⟩
          quiet := fun hq => absurd hd hq }
      · simp at hs
  | producer p => exact h.add_job hs
  | destructor =>
      refine h.destroy ?_ hs
      by_cases hd : s.destructor = .notYet
      · exact ha hd
      · exact h.quiet hd

/-- The invariant holds throughout. -/
theorem inv_invariant : Invariant ((system P J).restrict Discipline) Inv where
  init := by
    rintro s rfl
    exact Inv.fresh
  step _ _ _ h hst := h.step hst.1 hst.2

/-- **The queue delivers.** Whatever the interleaving, the jobs are run in the order in which
they were pushed, each once, and deleted in that order, each once; when the destructor has
finished all of them were; and while the worker waits with a job in the queue, a producer
has yet to broadcast. -/
theorem queue_delivers (hr : Reachable ((system P J).restrict Discipline) s) :
    s.queue.ran <+: s.queue.pushed ∧ s.queue.ran.Nodup ∧
      s.queue.deleted <+: s.queue.ran ∧ s.queue.deleted.Nodup ∧
      (s.destructor = .finished →
        s.queue.ran = s.queue.pushed ∧ s.queue.deleted = s.queue.pushed) ∧
      (s.worker = .waiting → s.queue.job_queue_ ≠ [] → ∃ p, (s.producers p).Owes) := by
  have h := inv_invariant.holds hr
  have hran : s.queue.ran <+: s.queue.pushed := by
    rw [h.account.pushed, List.append_assoc]
    exact List.prefix_append _ _
  have hdel : s.queue.deleted <+: s.queue.ran := by
    rw [h.account.ran]
    exact List.prefix_append _ _
  refine ⟨hran, h.nodup.sublist hran.sublist, hdel,
    h.nodup.sublist (hdel.trans hran).sublist,
    fun hf => ?_, fun hw => h.awake (by rw [hw]; trivial)⟩
  have hw := h.joined (by rw [hf]; trivial)
  have hq := h.flushed (by rw [hf]; trivial)
  have hpushed := h.account.pushed
  have hspent := h.account.ran
  simp only [hw, hf, hq, Worker.pending, Destructor.pending, Worker.spent, Destructor.spent,
    List.append_nil] at hpushed hspent
  exact ⟨hpushed.symm, hspent.symm.trans hpushed.symm⟩

end Producers

instance [Fintype P] [DecidableEq J] (s : State P J) (a : Act P J) :
    Decidable (Discipline s a) :=
  match a with
  | .call _ job => inferInstanceAs (Decidable (job ∉ s.issued ∧ s.destructor = .notYet))
  | .destructor =>
    inferInstanceAs (Decidable (s.destructor = .notYet → ∀ p, s.producers p = .idle))
  | .worker | .wakeup | .producer _ => inferInstanceAs (Decidable True)

/-- A job is added while the worker starts up; the destructor finds it done. -/
theorem queue_delivers_one : ∃ s : State Unit ℕ, s.destructor = .finished ∧
    s.queue.pushed = [7] ∧ s.queue.ran = [7] ∧ s.queue.deleted = [7] := by
  obtain ⟨s, hs, hend⟩ := Option.map_eq_some_iff.mp
    (show (execUnder State.step Discipline (State.fresh : State Unit ℕ)
      ([.call () 7, .producer (), .producer (), .producer ()] ++ List.replicate 11 .worker ++
        List.replicate 3 (.producer ()) ++ List.replicate 5 .destructor ++
        List.replicate 3 .worker ++ List.replicate 4 .destructor)).map
      (fun s => (s.destructor, s.queue.pushed)) = some (.finished, [7]) by rfl)
  obtain ⟨hfinished, hpushed⟩ := Prod.mk.inj hend
  have hr : Reachable ((system Unit ℕ).restrict Discipline) s :=
    Reachable.execUnder (.init rfl) hs
  obtain ⟨hran, hdeleted⟩ := (queue_delivers hr).2.2.2.2.1 hfinished
  exact ⟨s, hfinished, hpushed, hran.trans hpushed, hdeleted.trans hpushed⟩

end ThreadedClosureQueue

end FreeJ
